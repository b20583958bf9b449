import PagingGate.Toml.Scalar
import PagingGate.Toml.Table
import PagingGate.Toml.Text

set_option autoImplicit false

namespace PagingGate.Toml

structure Reader (α : Type) where
  read : List Char → Option (α × List Char)
  shortens : ∀ {cs rest : List Char} {a : α}, read cs = some (a, rest) → rest.length < cs.length

def expect (c : Char) : List Char → Option (List Char)
  | d :: rest => if d = c then some rest else none
  | [] => none

theorem expect_length {c : Char} {cs rest : List Char} (h : expect c cs = some rest) :
    rest.length < cs.length := by
  unfold expect at h
  split at h
  · split at h
    · simp only [Option.some.injEq] at h; rw [h]; exact Nat.lt_succ_self _
    · simp at h
  · simp at h

theorem skipSpace_length (cs : List Char) : (skipSpace cs).length ≤ cs.length :=
  (List.dropWhile_sublist _).length_le

theorem expect_skipSpace_length {c : Char} {cs rest : List Char}
    (h : expect c (skipSpace cs) = some rest) : rest.length < cs.length :=
  Nat.lt_of_lt_of_le (expect_length h) (skipSpace_length cs)

theorem expect_skipGap_length {c : Char} {cs rest : List Char}
    (h : expect c (skipGap cs) = some rest) : rest.length < cs.length :=
  Nat.lt_of_lt_of_le (expect_length h) (skipGap_length cs)

def isKeyChar (c : Char) : Bool := c.isAlphanum || c = '_' || c = '-'

def readPart (cs : List Char) : Option (String × List Char) :=
  match cs with
  | '"' :: rest => (readLine .escaped rest).map fun (text, rest) => (String.ofList text, rest)
  | '\'' :: rest => (readLine .literal rest).map fun (text, rest) => (String.ofList text, rest)
  | c :: rest =>
    if isKeyChar c then some (String.ofList (c :: rest.takeWhile isKeyChar), rest.dropWhile isKeyChar)
    else none
  | [] => none

theorem map_some {α β : Type} {r : Option (α × List Char)} {f : α → β} {b : β} {rest : List Char}
    (h : (r.map fun (a, rest) => (f a, rest)) = some (b, rest)) : ∃ a, r = some (a, rest) := by
  obtain ⟨⟨a, u⟩, hr, he⟩ := Option.map_eq_some_iff.1 h
  simp only [Prod.mk.injEq] at he
  exact ⟨a, by rw [hr, he.2]⟩

theorem readPart_length {cs rest : List Char} {s : String} (h : readPart cs = some (s, rest)) :
    rest.length < cs.length := by
  unfold readPart at h
  split at h
  · obtain ⟨_, ht⟩ := map_some h
    exact Nat.lt_succ_of_lt (readLine_length ht)
  · obtain ⟨_, ht⟩ := map_some h
    exact Nat.lt_succ_of_lt (readLine_length ht)
  · split at h
    · simp only [Option.some.injEq, Prod.mk.injEq] at h
      rw [← h.2]; exact Nat.lt_succ_of_le (List.dropWhile_sublist _).length_le
    · simp at h
  · simp at h

def readParts (cs : List Char) : Option (List String × List Char) :=
  match _h : readPart (skipSpace cs) with
  | none => none
  | some (part, rest) =>
    match _hd : expect '.' (skipSpace rest) with
    | none => some ([part], skipSpace rest)
    | some rest => (readParts rest).map fun (parts, rest) => (part :: parts, rest)
termination_by cs.length
decreasing_by
  exact Nat.lt_trans (expect_skipSpace_length _hd)
    (Nat.lt_of_lt_of_le (readPart_length _h) (skipSpace_length _))

theorem readParts_length {cs rest : List Char} {parts : List String}
    (h : readParts cs = some (parts, rest)) : rest.length < cs.length := by
  fun_induction readParts cs generalizing parts with
  | case1 => simp at h
  | case2 _ _ tail hp =>
    have := skipSpace_length tail
    have := Nat.lt_of_lt_of_le (readPart_length hp) (skipSpace_length _)
    simp only [Option.some.injEq, Prod.mk.injEq] at h
    rw [← h.2]; omega
  | case3 _ _ _ hp _ hd ih =>
    obtain ⟨_, ht⟩ := map_some h
    have := ih ht
    have := expect_skipSpace_length hd
    have := Nat.lt_of_lt_of_le (readPart_length hp) (skipSpace_length _)
    omega

def maxKeyParts : Nat := 79

def KeyPath.ofParts? : List String → Option KeyPath
  | [] => none
  | [key] => some ⟨[], key⟩
  | part :: parts => (ofParts? parts).map fun p => ⟨part :: p.parents, p.key⟩

def readKeyPath (cs : List Char) : Option (KeyPath × List Char) :=
  match readParts cs with
  | none => none
  | some (parts, rest) =>
    if parts.length ≤ maxKeyParts then (KeyPath.ofParts? parts).map (·, rest) else none

theorem readKeyPath_length {cs rest : List Char} {p : KeyPath} (h : readKeyPath cs = some (p, rest)) :
    rest.length < cs.length := by
  unfold readKeyPath at h
  split at h
  · simp at h
  · rename_i hp
    split at h
    · obtain ⟨_, _, he⟩ := Option.map_eq_some_iff.1 h
      simp only [Prod.mk.injEq] at he
      rw [← he.2]; exact readParts_length hp
    · simp at h

def Reader.readAssignment (r : Reader Value) (cs : List Char) : Option (Assignment × List Char) :=
  match readKeyPath cs with
  | none => none
  | some (path, rest) =>
    match expect '=' rest with
    | none => none
    | some rest => (r.read (skipSpace rest)).map fun (v, rest) => (⟨path, v⟩, rest)

theorem Reader.readAssignment_length {r : Reader Value} {cs rest : List Char} {a : Assignment}
    (h : r.readAssignment cs = some (a, rest)) : rest.length < cs.length := by
  unfold readAssignment at h
  split at h
  · simp at h
  · rename_i hp
    have := readKeyPath_length hp
    split at h
    · simp at h
    · rename_i tail he
      have := expect_length he
      obtain ⟨_, hv⟩ := map_some h
      have := Nat.lt_of_lt_of_le (r.shortens hv) (skipSpace_length tail)
      omega

/-- The items of an array, behind its opening bracket or a comma. There may be a comma behind the last. -/
def Reader.items (r : Reader Value) (cs : List Char) : Option (List Value × List Char) :=
  match expect ']' (skipGap cs) with
  | some rest => some ([], rest)
  | none =>
    match _hv : r.read (skipGap cs) with
    | none => none
    | some (v, rest) =>
      match _hc : expect ',' (skipGap rest) with
      | some rest => (r.items rest).map fun (vs, rest) => (v :: vs, rest)
      | none => (expect ']' (skipGap rest)).map ([v], ·)
termination_by cs.length
decreasing_by
  exact Nat.lt_trans (expect_skipGap_length _hc) (Nat.lt_of_lt_of_le (r.shortens _hv) (skipGap_length _))

theorem map_pair {β : Type} {r : Option (List Char)} {b c : β} {rest : List Char}
    (h : r.map (b, ·) = some (c, rest)) : r = some rest := by
  obtain ⟨_, hr, he⟩ := Option.map_eq_some_iff.1 h
  simp only [Prod.mk.injEq] at he
  rw [hr, he.2]

theorem Reader.items_length {r : Reader Value} {cs rest : List Char} {vs : List Value}
    (h : r.items cs = some (vs, rest)) : rest.length < cs.length := by
  fun_induction Reader.items r cs generalizing vs with
  | case1 _ _ he =>
    simp only [Option.some.injEq, Prod.mk.injEq] at h
    rw [← h.2]; exact expect_skipGap_length he
  | case2 => simp at h
  | case3 _ _ _ _ hv _ hc ih =>
    obtain ⟨_, ht⟩ := map_some h
    have := ih ht
    have := expect_skipGap_length hc
    have := Nat.lt_of_lt_of_le (r.shortens hv) (skipGap_length _)
    omega
  | case4 _ _ _ _ hv =>
    have := expect_skipGap_length (map_pair h)
    have := Nat.lt_of_lt_of_le (r.shortens hv) (skipGap_length _)
    omega

/-- The members of a table in braces, behind its opening brace or a comma. There is at least one, and no
comma behind the last. -/
def Reader.members (r : Reader Value) (cs : List Char) : Option (List Assignment × List Char) :=
  match _ha : r.readAssignment cs with
  | none => none
  | some (a, rest) =>
    match _hc : expect ',' (skipSpace rest) with
    | some rest => (r.members rest).map fun (as, rest) => (a :: as, rest)
    | none => (expect '\x7d' (skipSpace rest)).map ([a], ·)
termination_by cs.length
decreasing_by exact Nat.lt_trans (expect_skipSpace_length _hc) (Reader.readAssignment_length _ha)

theorem Reader.members_length {r : Reader Value} {cs rest : List Char} {as : List Assignment}
    (h : r.members cs = some (as, rest)) : rest.length < cs.length := by
  fun_induction Reader.members r cs generalizing as with
  | case1 => simp at h
  | case2 _ _ _ ha _ hc ih =>
    obtain ⟨_, ht⟩ := map_some h
    have := ih ht
    have := expect_skipSpace_length hc
    have := Reader.readAssignment_length ha
    omega
  | case3 _ _ _ ha =>
    have := expect_skipSpace_length (map_pair h)
    have := Reader.readAssignment_length ha
    omega

def Reader.readBraces (r : Reader Value) (cs : List Char) : Option (Value × List Char) :=
  match expect '\x7d' (skipSpace cs) with
  | some rest => some (.table .inline [], rest)
  | none =>
    match r.members cs with
    | none => none
    | some (as, rest) => (Table.assignAll [] as).map fun t => (.table .inline t, rest)

theorem Reader.readBraces_length {r : Reader Value} {cs rest : List Char} {v : Value}
    (h : r.readBraces cs = some (v, rest)) : rest.length < cs.length := by
  unfold readBraces at h
  split at h
  · rename_i he
    simp only [Option.some.injEq, Prod.mk.injEq] at h
    rw [← h.2]; exact expect_skipSpace_length he
  · split at h
    · simp at h
    · rename_i hm
      obtain ⟨_, _, he⟩ := Option.map_eq_some_iff.1 h
      simp only [Prod.mk.injEq] at he
      rw [← he.2]; exact Reader.members_length hm

def readFlat (cs : List Char) : Option (Value × List Char) :=
  match cs with
  | '"' :: rest => (readQuoted .escaped rest).map fun (text, rest) => (.text (String.ofList text), rest)
  | '\'' :: rest => (readQuoted .literal rest).map fun (text, rest) => (.text (String.ofList text), rest)
  | cs => readScalar cs

theorem readFlat_length {cs rest : List Char} {v : Value} (h : readFlat cs = some (v, rest)) :
    rest.length < cs.length := by
  unfold readFlat at h
  split at h
  · obtain ⟨_, ht⟩ := map_some (f := fun text => Value.text (String.ofList text)) h
    exact Nat.lt_succ_of_lt (readQuoted_length ht)
  · obtain ⟨_, ht⟩ := map_some (f := fun text => Value.text (String.ofList text)) h
    exact Nat.lt_succ_of_lt (readQuoted_length ht)
  · exact readScalar_length h

def Reader.readNested (r : Reader Value) (cs : List Char) : Option (Value × List Char) :=
  match cs with
  | '[' :: rest => (r.items rest).map fun (vs, rest) => (.array vs, rest)
  | '\x7b' :: rest => r.readBraces rest
  | cs => readFlat cs

theorem Reader.readNested_length {r : Reader Value} {cs rest : List Char} {v : Value}
    (h : r.readNested cs = some (v, rest)) : rest.length < cs.length := by
  unfold readNested at h
  split at h
  · obtain ⟨_, ht⟩ := map_some h
    exact Nat.lt_succ_of_lt (Reader.items_length ht)
  · exact Nat.lt_succ_of_lt (Reader.readBraces_length h)
  · exact readFlat_length h

/-- Values with at most `levels` arrays and tables around one another. -/
def Reader.value (levels : Nat) : Reader Value :=
  match levels with
  | 0 => ⟨readFlat, readFlat_length⟩
  | n + 1 => ⟨(Reader.value n).readNested, Reader.readNested_length⟩

def maxLevels : Nat := 79

end PagingGate.Toml
