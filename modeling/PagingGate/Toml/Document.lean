import PagingGate.Toml.Reader

set_option autoImplicit false

namespace PagingGate.Toml

inductive Statement where
  | assignment (a : Assignment)
  | header (kind : HeaderKind) (path : KeyPath)

def readHeader (kind : HeaderKind) (cs : List Char) : Option (Statement × List Char) :=
  match readKeyPath cs with
  | none => none
  | some (path, rest) =>
    let rest := match kind with
      | .table => expect ']' rest
      | .element => (expect ']' rest).bind (expect ']')
    rest.map (.header kind path, ·)

def readStatement (cs : List Char) : Option (Statement × List Char) :=
  match cs with
  | '[' :: '[' :: rest => readHeader .element rest
  | '[' :: rest => readHeader .table rest
  | cs => ((Reader.value maxLevels).readAssignment cs).map fun (a, rest) => (.assignment a, rest)

theorem readHeader_length {kind : HeaderKind} {cs rest : List Char} {s : Statement}
    (h : readHeader kind cs = some (s, rest)) : rest.length < cs.length := by
  unfold readHeader at h
  split at h
  · simp at h
  · rename_i hp
    have := readKeyPath_length hp
    have he := map_pair h
    cases kind with
    | table =>
      have := expect_length he
      omega
    | element =>
      obtain ⟨_, he, hf⟩ := Option.bind_eq_some_iff.1 he
      have := expect_length he
      have := expect_length hf
      omega

theorem readStatement_length {cs rest : List Char} {s : Statement}
    (h : readStatement cs = some (s, rest)) : rest.length < cs.length := by
  unfold readStatement at h
  split at h
  · exact Nat.lt_succ_of_lt (Nat.lt_succ_of_lt (readHeader_length h))
  · exact Nat.lt_succ_of_lt (readHeader_length h)
  · obtain ⟨_, ha⟩ := map_some h
    exact Reader.readAssignment_length ha

def readStatements (cs : List Char) : Option (List Statement) :=
  match _hg : skipGap cs with
  | [] => some []
  | c :: rest =>
    match _hs : readStatement (c :: rest) with
    | none => none
    | some (s, rest) =>
      match _hl : finishLine? rest with
      | none => none
      | some rest => (readStatements rest).map (s :: ·)
termination_by cs.length
decreasing_by
  have := skipGap_length cs
  rw [_hg] at this
  have := readStatement_length _hs
  have := finishLine?_length _hl
  omega

def sections : List Statement → List Assignment × List Section
  | [] => ([], [])
  | .assignment a :: ss =>
    let (as, below) := sections ss
    (a :: as, below)
  | .header kind path :: ss =>
    let (as, below) := sections ss
    ([], ⟨kind, path, as⟩ :: below)

def skipMark : List Char → List Char
  | '\ufeff' :: rest => rest
  | cs => cs

def document? (text : String) : Option Table := do
  let (front, ss) := sections (← readStatements (skipMark text.toList))
  Table.ofSections front ss

end PagingGate.Toml
