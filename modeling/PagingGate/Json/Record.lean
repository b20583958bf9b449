import PagingGate.Json.Reader
import PagingGate.Json.Skip

set_option autoImplicit false

/-!
# Records

A record is an object with known members, or a list of their values in declaration order. Members of an
object come in any order; a known one comes at most once, and the values of others are passed over.
-/

namespace PagingGate.Json

structure Member (σ : Type) where
  key : String
  value : Reader (σ → σ)

/-- A kind of record. Its values are built up in drafts of type `σ`; `finish` names the first member
that is missing from a draft. -/
structure Record (σ α : Type) where
  title : String
  members : List (Member σ)
  blank : σ
  finish : σ → Except String α

def Reader.mapped {α β : Type} (r : Reader α) (f : α → β) : Reader β where
  read := fun cs => (r.read cs).map fun (a, rest) => (f a, rest)
  shortens := fun h => by
    obtain ⟨a, ha⟩ := map_ok h
    exact r.shortens ha

namespace Record

variable {σ α : Type}

def member? (r : Record σ α) (key : String) : Option (Member σ) := r.members.find? (·.key == key)

def complete (r : Record σ α) (draft : σ) : Except Error α :=
  match r.finish draft with
  | .ok a => .ok a
  | .error name => .error (.missingField name)

def readMember (r : Record σ α) (seen : List String) (draft : σ) (key : String) (cs : List Char) :
    Except Error ((List String × σ) × List Char) :=
  match r.member? key with
  | some m =>
    if key ∈ seen then .error (.duplicateField key)
    else do
      let (f, rest) ← m.value.read (← expectColon cs)
      pure ((key :: seen, f draft), rest)
  | none => do
    let rest ← skipValue (← expectColon cs)
    pure ((seen, draft), rest)

theorem readMember_length {r : Record σ α} {seen : List String} {draft : σ} {key : String}
    {cs rest : List Char} {v : List String × σ}
    (h : r.readMember seen draft key cs = .ok (v, rest)) : rest.length < cs.length := by
  unfold readMember at h
  split at h
  · rename_i m _
    split at h
    · simp at h
    · obtain ⟨_, hcolon, h⟩ := Except.bind_eq_ok.mp h
      obtain ⟨_, hvalue, h⟩ := Except.bind_eq_ok.mp h
      obtain ⟨_, rfl⟩ := Prod.mk.inj (Except.ok.inj h)
      have := expectColon_length hcolon
      have := m.value.shortens hvalue
      omega
  · obtain ⟨_, hcolon, h⟩ := Except.bind_eq_ok.mp h
    obtain ⟨_, hvalue, h⟩ := Except.bind_eq_ok.mp h
    obtain ⟨_, rfl⟩ := Prod.mk.inj (Except.ok.inj h)
    have := expectColon_length hcolon
    have := skipValue_length hvalue
    omega

def readMembers (r : Record σ α) (first : Bool) (seen : List String) (draft : σ) (cs : List Char) :
    Except Error (σ × List Char) :=
  match _hk : nextKey first cs with
  | .error e => .error e
  | .ok (.done rest) => .ok (draft, rest)
  | .ok (.item rest) =>
    match _hs : readString rest with
    | .error e => .error e
    | .ok (key, rest) =>
      match _hm : r.readMember seen draft (String.ofList key) rest with
      | .error e => .error e
      | .ok ((seen, draft), rest) => r.readMembers false seen draft rest
termination_by cs.length
decreasing_by
  have := nextKey_length (.inr _hk)
  have := readString_length _hs
  have := readMember_length _hm
  omega

def readFields (r : Record σ α) (index : Nat) (draft : σ) : List (Member σ) → List Char →
    Except Error (σ × List Char)
  | [], cs => (expectListEnd cs).map (draft, ·)
  | m :: ms, cs => do
    match ← nextItem (index == 0) cs with
    | .done _ => .error (.wrongLength index r.title r.members.length)
    | .item rest =>
      let (f, rest) ← m.value.read rest
      r.readFields (index + 1) (f draft) ms rest

def read (r : Record σ α) (cs : List Char) : Except Error (α × List Char) :=
  match skipBlank cs with
  | [] => .error .endOfValue
  | c :: rest =>
    if c = '[' then do
      let (draft, rest) ← r.readFields 0 r.blank r.members rest
      pure (← r.complete draft, rest)
    else if c = '\x7b' then do
      let (draft, rest) ← r.readMembers true [] r.blank rest
      pure (← r.complete draft, rest)
    else .error (mismatch r.title (c :: rest))

theorem readMembers_length {r : Record σ α} {first : Bool} {seen : List String} {draft d : σ}
    {cs rest : List Char} (h : r.readMembers first seen draft cs = .ok (d, rest)) :
    rest.length < cs.length := by
  fun_induction readMembers r first seen draft cs with
  | case1 => simp at h
  | case2 _ _ _ _ _ hk =>
    have := nextKey_length (.inl hk)
    simp only [Except.ok.injEq, Prod.mk.injEq] at h
    rw [← h.2]; exact this
  | case3 => simp at h
  | case4 => simp at h
  | case5 _ _ _ _ _ hk _ _ hs _ _ _ hm ih =>
    have := nextKey_length (.inr hk)
    have := readString_length hs
    have := readMember_length hm
    have := ih h
    omega

theorem readFields_length {r : Record σ α} {index : Nat} {draft d : σ} {ms : List (Member σ)}
    {cs rest : List Char} (h : r.readFields index draft ms cs = .ok (d, rest)) :
    rest.length < cs.length := by
  induction ms generalizing index draft cs with
  | nil =>
    simp only [readFields] at h
    exact expectListEnd_length (pair_ok h)
  | cons m ms ih =>
    obtain ⟨next, hn, h⟩ := Except.bind_eq_ok.mp h
    cases next with
    | done => simp at h
    | item =>
      obtain ⟨_, hvalue, h⟩ := Except.bind_eq_ok.mp h
      have := nextItem_item hn
      have := m.value.shortens hvalue
      have := ih h
      omega

theorem read_length {r : Record σ α} {cs rest : List Char} {a : α} (h : r.read cs = .ok (a, rest)) :
    rest.length < cs.length := by
  unfold read at h
  split at h
  · simp at h
  · rename_i hb
    have := length_of_skipBlank hb
    split at h
    · obtain ⟨_, hfields, h⟩ := Except.bind_eq_ok.mp h
      obtain ⟨_, _, h⟩ := Except.bind_eq_ok.mp h
      obtain ⟨_, rfl⟩ := Prod.mk.inj (Except.ok.inj h)
      have := readFields_length hfields
      omega
    · split at h
      · obtain ⟨_, hmembers, h⟩ := Except.bind_eq_ok.mp h
        obtain ⟨_, _, h⟩ := Except.bind_eq_ok.mp h
        obtain ⟨_, rfl⟩ := Prod.mk.inj (Except.ok.inj h)
        have := readMembers_length hmembers
        omega
      · simp at h

def reader (r : Record σ α) : Reader α := ⟨r.read, read_length⟩

end Record
end PagingGate.Json
