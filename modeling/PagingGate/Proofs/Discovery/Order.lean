import PagingGate.Discovery

set_option autoImplicit false

namespace PagingGate

namespace Time

theorem isBefore_iff (a b : Time) :
    a.isBefore b = true ↔ a.seconds < b.seconds ∨ a.seconds = b.seconds ∧ a.nanos < b.nanos := by
  simp [isBefore]

@[simp] theorem isBefore_irrefl (a : Time) : a.isBefore a = false := by
  simp [isBefore]

theorem isBefore_trans {a b c : Time} (hab : a.isBefore b = true) (hbc : b.isBefore c = true) :
    a.isBefore c = true := by
  rw [isBefore_iff] at *
  omega

theorem isBefore_or_eq_or (a b : Time) :
    a.isBefore b = true ∨ a = b ∨ b.isBefore a = true := by
  obtain ⟨s, n⟩ := a
  obtain ⟨s', n'⟩ := b
  simp only [isBefore_iff, mk.injEq]
  omega

end Time

namespace FoundFile

/-- The newer file comes first; of two files of one time, the one whose names come first. -/
def Before (a b : FoundFile) : Prop :=
  b.modified.isBefore a.modified = true ∨ a.modified = b.modified ∧ a.path.names < b.path.names

/-- Files that the order does not tell apart. -/
def Level (a b : FoundFile) : Prop := a.modified = b.modified ∧ a.path.names = b.path.names

theorem before_trans {a b c : FoundFile} (hab : a.Before b) (hbc : b.Before c) : a.Before c := by
  rcases hab with hab | ⟨hab, nab⟩
  · rcases hbc with hbc | ⟨hbc, _⟩
    · exact .inl (Time.isBefore_trans hbc hab)
    · exact .inl (hbc ▸ hab)
  · rcases hbc with hbc | ⟨hbc, nbc⟩
    · exact .inl (hab ▸ hbc)
    · exact .inr ⟨hab.trans hbc, List.lt_trans nab nbc⟩

theorem before_irrefl (a : FoundFile) : ¬ a.Before a := by
  rintro (h | ⟨_, h⟩)
  · simp at h
  · exact List.lt_irrefl _ h

theorem before_asymm {a b : FoundFile} (hab : a.Before b) : ¬ b.Before a :=
  fun hba => before_irrefl a (before_trans hab hba)

theorem before_or_level_or (a b : FoundFile) : a.Before b ∨ a.Level b ∨ b.Before a := by
  rcases Time.isBefore_or_eq_or a.modified b.modified with h | h | h
  · exact .inr (.inr (.inl h))
  · by_cases hn : a.path.names = b.path.names
    · exact .inr (.inl ⟨h, hn⟩)
    · rcases List.le_total a.path.names b.path.names with hl | hl
      · exact .inl (.inr ⟨h, List.not_le.mp fun hg => hn (List.le_antisymm hl hg)⟩)
      · exact .inr (.inr (.inr ⟨h.symm, List.not_le.mp fun hg => hn (List.le_antisymm hg hl)⟩))
  · exact .inl (.inl h)

theorem before_congr_left {a b c : FoundFile} (hab : a.Level b) (hbc : b.Before c) : a.Before c := by
  obtain ⟨hm, hn⟩ := hab
  rwa [Before, hm, hn]

theorem before_congr_right {a b c : FoundFile} (hab : a.Before b) (hbc : b.Level c) : a.Before c := by
  obtain ⟨hm, hn⟩ := hbc
  rwa [Before, ← hm, ← hn]

theorem precedes_iff (a b : FoundFile) : a.precedes b = true ↔ a.Before b ∨ a.Level b := by
  unfold precedes Before Level
  split
  · rename_i h
    simp [h, List.le_iff_lt_or_eq]
  · rename_i h
    simp [h]

theorem precedes_trans (a b c : FoundFile) (hab : a.precedes b = true) (hbc : b.precedes c = true) :
    a.precedes c = true := by
  rw [precedes_iff] at *
  rcases hab with hab | hab
  · rcases hbc with hbc | hbc
    · exact .inl (before_trans hab hbc)
    · exact .inl (before_congr_right hab hbc)
  · rcases hbc with hbc | hbc
    · exact .inl (before_congr_left hab hbc)
    · exact .inr ⟨hab.1.trans hbc.1, hab.2.trans hbc.2⟩

theorem precedes_total (a b : FoundFile) : (a.precedes b || b.precedes a) = true := by
  rw [Bool.or_eq_true, precedes_iff, precedes_iff]
  rcases before_or_level_or a b with h | h | h
  · exact .inl (.inl h)
  · exact .inl (.inr h)
  · exact .inr (.inl h)

end FoundFile
end PagingGate
