import PagingGate.Json.Blank
import PagingGate.Json.Number
import PagingGate.Json.String

set_option autoImplicit false

/-!
# Readers of expected values

A reader takes a value of one kind from the front of a text. It never succeeds without taking a
character, which is why repeating it ends. A value of another kind is read far enough to name it.
-/

namespace PagingGate.Json

/-- A function that takes a value from the front of a text, and never nothing. -/
structure Reader (α : Type) where
  read : List Char → Except Error (α × List Char)
  shortens : ∀ {cs rest : List Char} {a : α}, read cs = .ok (a, rest) → rest.length < cs.length

/-- The error for a value of another kind, which starts at the front of the text. Where the value
itself is malformed, that is the error. -/
def mismatch (expected : String) (cs : List Char) : Error :=
  match cs with
  | [] => .endOfValue
  | c :: rest =>
    if c = '[' then .mismatch .sequence expected
    else if c = '\x7b' then .mismatch .map expected
    else if c = '"' then
      match readString rest with
      | .ok (text, _) => .mismatch (.text (String.ofList text)) expected
      | .error e => e
    else if c = '-' then number (readNumber true rest)
    else if c.isDigit then number (readNumber false cs)
    else if c = 'n' then word .null (expectWord "ull".toList rest)
    else if c = 't' then word (.flag true) (expectWord "rue".toList rest)
    else if c = 'f' then word (.flag false) (expectWord "alse".toList rest)
    else .expectedValue
where
  number : Except Error (Number × List Char) → Error
    | .ok (n, _) => .mismatch n.found expected
    | .error e => e
  word (found : Found) : Except Error (List Char) → Error
    | .ok _ => .mismatch found expected
    | .error e => e

def readText (cs : List Char) : Except Error (String × List Char) :=
  match skipBlank cs with
  | [] => .error .endOfValue
  | c :: rest =>
    if c = '"' then (readString rest).map fun (text, rest) => (String.ofList text, rest)
    else .error (mismatch "a string" (c :: rest))

def readFloat (cs : List Char) : Except Error (Float × List Char) :=
  match skipBlank cs with
  | [] => .error .endOfValue
  | c :: rest =>
    if c = '-' then (readNumber true rest).map fun (n, rest) => (n.toFloat, rest)
    else if c.isDigit then (readNumber false (c :: rest)).map fun (n, rest) => (n.toFloat, rest)
    else .error (mismatch "f64" (c :: rest))

theorem map_ok {α β : Type} {r : Except Error (α × List Char)} {f : α → β} {b : β} {rest : List Char}
    (h : (r.map fun (a, rest) => (f a, rest)) = .ok (b, rest)) : ∃ a, r = .ok (a, rest) := by
  obtain ⟨⟨a, _⟩, hr, h⟩ := Except.map_eq_ok.mp h
  obtain ⟨_, rfl⟩ := Prod.mk.inj h
  exact ⟨a, hr⟩

theorem pair_ok {β : Type} {r : Except Error (List Char)} {b c : β} {rest : List Char}
    (h : (r.map (b, ·)) = .ok (c, rest)) : r = .ok rest := by
  obtain ⟨_, hr, h⟩ := Except.map_eq_ok.mp h
  obtain ⟨_, rfl⟩ := Prod.mk.inj h
  exact hr

theorem readText_length {cs rest : List Char} {s : String} (h : readText cs = .ok (s, rest)) :
    rest.length < cs.length := by
  unfold readText at h
  split at h
  · simp at h
  · rename_i hb
    have := length_of_skipBlank hb
    split at h
    · obtain ⟨text, ht⟩ := map_ok h
      have := readString_length ht
      omega
    · simp at h

theorem readFloat_length {cs rest : List Char} {x : Float} (h : readFloat cs = .ok (x, rest)) :
    rest.length < cs.length := by
  unfold readFloat at h
  split at h
  · simp at h
  · rename_i hb
    have := length_of_skipBlank hb
    split at h
    · obtain ⟨n, hn⟩ := map_ok h
      have := readNumber_length hn
      omega
    · split at h
      · obtain ⟨n, hn⟩ := map_ok h
        have := readNumber_length hn
        simp only [List.length_cons] at this
        omega
      · simp at h

def Reader.text : Reader String := ⟨readText, readText_length⟩

def Reader.float : Reader Float := ⟨readFloat, readFloat_length⟩

def Reader.readNullable {α : Type} (r : Reader α) (cs : List Char) :
    Except Error (Option α × List Char) :=
  match skipBlank cs with
  | 'n' :: rest => (expectWord "ull".toList rest).map (none, ·)
  | _ => (r.read cs).map fun (a, rest) => (some a, rest)

theorem Reader.readNullable_length {α : Type} {r : Reader α} {cs rest : List Char} {a : Option α}
    (h : r.readNullable cs = .ok (a, rest)) : rest.length < cs.length := by
  unfold readNullable at h
  split at h
  · rename_i tail hb
    have := length_of_skipBlank hb
    have := expectWord_length (pair_ok h)
    omega
  · obtain ⟨b, hb⟩ := map_ok h
    exact r.shortens hb

def Reader.nullable {α : Type} (r : Reader α) : Reader (Option α) :=
  ⟨r.readNullable, Reader.readNullable_length⟩

def Reader.items {α : Type} (r : Reader α) (first : Bool) (cs : List Char) :
    Except Error (List α × List Char) :=
  match _hn : nextItem first cs with
  | .error e => .error e
  | .ok (.done rest) => .ok ([], rest)
  | .ok (.item rest) =>
    match _hr : r.read rest with
    | .error e => .error e
    | .ok (a, rest) => (r.items false rest).map fun (as, rest) => (a :: as, rest)
termination_by cs.length
decreasing_by exact Nat.lt_of_lt_of_le (r.shortens _hr) (nextItem_item _hn)

theorem Reader.items_length {α : Type} {r : Reader α} {first : Bool} {cs rest : List Char}
    {as : List α} (h : r.items first cs = .ok (as, rest)) : rest.length < cs.length := by
  fun_induction Reader.items r first cs generalizing as rest with
  | case1 => simp at h
  | case2 first cs rest' hn =>
    have := nextItem_done hn
    simp only [Except.ok.injEq, Prod.mk.injEq] at h
    rw [← h.2]; exact this
  | case3 => simp at h
  | case4 first cs rest' hn a rest'' hr ih =>
    have := nextItem_item hn
    have := r.shortens hr
    obtain ⟨bs, hbs⟩ := map_ok h
    have := ih hbs
    omega

def Reader.readList {α : Type} (r : Reader α) (cs : List Char) : Except Error (List α × List Char) :=
  match skipBlank cs with
  | [] => .error .endOfValue
  | c :: rest => if c = '[' then r.items true rest else .error (mismatch "a sequence" (c :: rest))

theorem Reader.readList_length {α : Type} {r : Reader α} {cs rest : List Char} {as : List α}
    (h : r.readList cs = .ok (as, rest)) : rest.length < cs.length := by
  unfold readList at h
  split at h
  · simp at h
  · rename_i hb
    have := length_of_skipBlank hb
    split at h
    · have := Reader.items_length h
      omega
    · simp at h

def Reader.list {α : Type} (r : Reader α) : Reader (List α) := ⟨r.readList, Reader.readList_length⟩

def Reader.document {α : Type} (r : Reader α) (text : String) : Except Error α :=
  match r.read text.toList with
  | .error e => .error e
  | .ok (a, rest) => if skipBlank rest = [] then .ok a else .error .trailingCharacters

end PagingGate.Json
