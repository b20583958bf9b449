import PagingGate.Proofs.Toml.Building

set_option autoImplicit false

namespace PagingGate.Toml

variable {v : Value} {cs rest : List Char}

theorem Value.isWritten_of_not_table (h : v.isTable = false) : v.IsWritten := by
  cases v with
  | table origin members => cases h
  | tables items => cases h
  | _ => trivial

theorem not_table_of_scalar? {token : List Char} (h : scalar? token = some v) : v.isTable = false := by
  unfold scalar? at h
  split_ifs at h
  · cases h
    rfl
  · cases h
    rfl
  · cases h
    rfl
  · rcases Option.or_eq_some_iff.mp h with h | ⟨_, h⟩
    · obtain ⟨n, _, rfl⟩ := Option.map_eq_some_iff.mp h
      rfl
    · obtain ⟨x, _, rfl⟩ := Option.map_eq_some_iff.mp h
      rfl

theorem not_table_of_readScalar (h : readScalar cs = some (v, rest)) : v.isTable = false := by
  simp only [readScalar] at h
  split at h
  · split at h
    · cases h
      rfl
    · cases h
  · obtain ⟨w, hw, he⟩ := Option.map_eq_some_iff.mp h
    cases he
    exact not_table_of_scalar? hw

theorem not_table_of_readFlat (h : readFlat cs = some (v, rest)) : v.isTable = false := by
  unfold readFlat at h
  split at h
  · obtain ⟨⟨text, tail⟩, _, he⟩ := Option.map_eq_some_iff.mp h
    cases he
    rfl
  · obtain ⟨⟨text, tail⟩, _, he⟩ := Option.map_eq_some_iff.mp h
    cases he
    rfl
  · exact not_table_of_readScalar h

namespace Reader

variable {r : Reader Value}

theorem isWritten_of_readBraces (h : r.readBraces cs = some (v, rest)) : v.IsWritten := by
  unfold readBraces at h
  split at h
  · cases h
    exact ⟨rfl, [], rfl⟩
  · split at h
    · cases h
    · rename_i as tail _
      obtain ⟨t, ht, he⟩ := Option.map_eq_some_iff.mp h
      cases he
      exact ⟨rfl, as, ht⟩

theorem isWritten_of_readNested (h : r.readNested cs = some (v, rest)) : v.IsWritten := by
  unfold readNested at h
  split at h
  · obtain ⟨⟨items, tail⟩, _, he⟩ := Option.map_eq_some_iff.mp h
    cases he
    trivial
  · exact isWritten_of_readBraces h
  · exact Value.isWritten_of_not_table (not_table_of_readFlat h)

theorem isWritten_of_value {levels : Nat} (h : (Reader.value levels).read cs = some (v, rest)) : v.IsWritten := by
  cases levels with
  | zero => exact Value.isWritten_of_not_table (not_table_of_readFlat h)
  | succ n => exact isWritten_of_readNested h

theorem isWritten_of_readAssignment {levels : Nat} {a : Assignment}
    (h : (Reader.value levels).readAssignment cs = some (a, rest)) : a.value.IsWritten := by
  unfold readAssignment at h
  split at h
  · cases h
  · split at h
    · cases h
    · obtain ⟨⟨w, tail⟩, hw, he⟩ := Option.map_eq_some_iff.mp h
      cases he
      exact isWritten_of_value hw

end Reader

theorem readStatements_nil : readStatements [] = some [] := by
  have hgap : skipGap [] = [] := by rw [skipGap]
  rw [readStatements, hgap]

theorem readStatements_cons {c : Char} (h : skipGap cs = c :: rest) :
    readStatements cs = (readStatement (c :: rest)).bind fun read =>
      (finishLine? read.2).bind fun below => (readStatements below).map (read.1 :: ·) := by
  rw [readStatements, h]
  dsimp only
  cases readStatement (c :: rest) with
  | none => rfl
  | some read =>
    dsimp only [Option.bind_some]
    cases finishLine? read.2 <;> rfl

theorem header_of_readHeader {kind : HeaderKind} {s : Statement} (h : readHeader kind cs = some (s, rest)) :
    ∃ path, s = .header kind path := by
  unfold readHeader at h
  split at h
  · cases h
  · obtain ⟨_, _, he⟩ := Option.map_eq_some_iff.mp h
    cases he
    exact ⟨_, rfl⟩

theorem isWritten_of_readStatement {a : Assignment} (h : readStatement cs = some (.assignment a, rest)) :
    a.value.IsWritten := by
  unfold readStatement at h
  split at h
  · obtain ⟨_, he⟩ := header_of_readHeader h
    cases he
  · obtain ⟨_, he⟩ := header_of_readHeader h
    cases he
  · obtain ⟨⟨b, tail⟩, hb, he⟩ := Option.map_eq_some_iff.mp h
    cases he
    exact Reader.isWritten_of_readAssignment hb

theorem isWritten_of_readStatements {ss : List Statement} (h : readStatements cs = some ss) {a : Assignment}
    (ha : .assignment a ∈ ss) : a.value.IsWritten := by
  fun_induction readStatements cs generalizing ss with
  | case1 =>
    cases h
    cases ha
  | case2 => cases h
  | case3 => cases h
  | case4 cs c tail _ s tail' hs tail'' _ ih =>
    obtain ⟨ss', hss, rfl⟩ := Option.map_eq_some_iff.mp h
    rcases List.mem_cons.mp ha with rfl | ha
    · exact isWritten_of_readStatement hs
    · exact ih hss ha

def Section.statements (s : Section) : List Statement := .header s.kind s.path :: s.body.map .assignment

theorem eq_of_sections (ss : List Statement) :
    ss = (sections ss).1.map .assignment ++ (sections ss).2.flatMap Section.statements := by
  induction ss with
  | nil => rfl
  | cons s ss ih =>
    cases s with
    | assignment a => exact congrArg (.assignment a :: ·) ih
    | header kind path => exact congrArg (.header kind path :: ·) ih

theorem sections_assignments (front : List Assignment) (ss : List Statement) :
    sections (front.map .assignment ++ ss) = (front ++ (sections ss).1, (sections ss).2) := by
  induction front with
  | nil => rfl
  | cons a front ih =>
    rw [List.map_cons, List.cons_append, sections, ih]
    rfl

theorem sections_flatMap (below : List Section) : sections (below.flatMap Section.statements) = ([], below) := by
  induction below with
  | nil => rfl
  | cons s below ih =>
    rw [List.flatMap_cons, Section.statements, List.cons_append, sections, sections_assignments, ih, List.append_nil]

/-- Each assignment belongs to the header above it. -/
theorem sections_eq_iff {ss : List Statement} {front : List Assignment} {below : List Section} :
    sections ss = (front, below) ↔ ss = front.map .assignment ++ below.flatMap Section.statements := by
  constructor
  · intro h
    have hss := eq_of_sections ss
    rwa [h] at hss
  · rintro rfl
    rw [sections_assignments, sections_flatMap, List.append_nil]

theorem document?_eq_some_iff {text : String} {t : Table} : document? text = some t ↔ ∃ front below,
    readStatements (skipMark text.toList) = some (front.map .assignment ++ below.flatMap Section.statements) ∧
      Table.ofSections front below = some t := by
  unfold document?
  simp only [Option.bind_eq_bind, Option.bind_eq_some_iff]
  constructor
  · rintro ⟨ss, hss, ht⟩
    exact ⟨_, _, by rw [hss, ← eq_of_sections], ht⟩
  · rintro ⟨front, below, hss, ht⟩
    exact ⟨_, hss, by rw [sections_eq_iff.mpr rfl]; exact ht⟩

end PagingGate.Toml
