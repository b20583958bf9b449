import Mathlib

set_option autoImplicit false

namespace PagingGate.Text

/-- How many lines begin with `mark`. -/
def countLines (mark text : List Char) : Nat := (text.splitOn '\n').countP mark.isPrefixOf

/-- How many do, leaving out the first line. -/
def countLaterLines (mark text : List Char) : Nat := (text.splitOn '\n').tail.countP mark.isPrefixOf

variable {mark a b : List Char}

@[simp] theorem countLines_append (mark a b : List Char) :
    countLines mark (a ++ '\n' :: b) = countLines mark a + countLines mark b := by
  rw [countLines, List.splitOn_append_cons_self, List.countP_append]
  rfl

theorem countLines_single (h : '\n' ∉ a) :
    countLines mark a = if mark.isPrefixOf a then 1 else 0 := by
  rw [countLines, List.splitOn_eq_singleton h, List.countP_singleton]

@[simp] theorem countLines_nil (hm : mark ≠ []) : countLines mark [] = 0 := by
  cases mark with
  | nil => exact absurd rfl hm
  | cons c mark => rfl

/-- The line that is begun by the last line feed counts for nothing. -/
theorem countLines_flatMap (hm : mark ≠ []) (ls : List (List Char)) :
    countLines mark (ls.flatMap (· ++ ['\n'])) = (ls.map (countLines mark)).sum := by
  induction ls with
  | nil => simp [hm]
  | cons l ls ih => simp [ih]

theorem countLaterLines_single (h : '\n' ∉ a) : countLaterLines mark a = 0 := by
  rw [countLaterLines, List.splitOn_eq_singleton h]
  rfl

theorem countLaterLines_append (h : '\n' ∉ a) :
    countLaterLines mark (a ++ '\n' :: b) = countLines mark b := by
  rw [countLaterLines, List.splitOn_append_cons_self_of_not_mem h]
  rfl

theorem single_or_append (text : List Char) :
    '\n' ∉ text ∨ ∃ a b, text = a ++ '\n' :: b ∧ '\n' ∉ a := by
  by_cases h : '\n' ∈ text
  · obtain ⟨a, b, hab, ha⟩ := List.eq_append_cons_of_mem h
    exact .inr ⟨a, b, hab, ha⟩
  · exact .inl h

theorem isPrefixOf_concat {q : Char} (hq : q ∉ mark) (a : List Char) :
    mark.isPrefixOf (a ++ [q]) = mark.isPrefixOf a := by
  rw [Bool.eq_iff_iff, List.isPrefixOf_iff_prefix, List.isPrefixOf_iff_prefix,
    List.prefix_concat_iff]
  constructor
  · rintro (h | h)
    · exact absurd (h ▸ List.mem_append_right a List.mem_cons_self) hq
    · exact h
  · exact .inr

theorem countLines_concat {q : Char} (hq : q ∉ mark) (hn : q ≠ '\n') (text : List Char) :
    countLines mark (text ++ [q]) = countLines mark text := by
  rcases single_or_append text with h | ⟨a, b, rfl, ha⟩
  · have hq' : '\n' ∉ text ++ [q] := by simp [h, Ne.symm hn]
    rw [countLines_single h, countLines_single hq', isPrefixOf_concat hq]
  · have ih := countLines_concat hq hn b
    simp [ih]
termination_by text.length

/-- Between a lead and a closing character, only the later lines of a text begin lines. -/
theorem countLines_enclosed {lead : List Char} {q : Char} (hlead : '\n' ∉ lead)
    (hm : ∀ rest, mark.isPrefixOf (lead ++ rest) = false) (hq : q ∉ mark) (hn : q ≠ '\n')
    (text : List Char) : countLines mark (lead ++ text ++ [q]) = countLaterLines mark text := by
  rw [countLines_concat hq hn]
  rcases single_or_append text with h | ⟨a, b, rfl, ha⟩
  · rw [countLaterLines_single h, countLines_single (by simp [hlead, h]), hm]
    rfl
  · have hla : '\n' ∉ lead ++ a := by simp [hlead, ha]
    rw [countLaterLines_append ha, ← List.append_assoc, countLines_append, countLines_single hla, hm]
    simp

theorem countLines_intercalate (between : List Char) (hb : '\n' ∉ between) {ls : List (List Char)}
    (hm : mark ≠ []) (hl : ∀ l ∈ ls, '\n' ∉ l)
    (hlead : ∀ l ∈ ls, ∀ rest, mark.isPrefixOf (l ++ rest) = false) :
    countLines mark ((between ++ ['\n']).intercalate ls) = 0 := by
  induction ls with
  | nil => simp [hm]
  | cons l ls ih =>
    have hl' := hl l List.mem_cons_self
    have hlead' := hlead l List.mem_cons_self
    cases ls with
    | nil =>
      have h := hlead' []
      rw [List.append_nil] at h
      simp [countLines_single hl', h]
    | cons m ls =>
      have hlb : '\n' ∉ l ++ between := by simp [hl', hb]
      have hrest := ih (fun l hm => hl l (List.mem_cons_of_mem _ hm))
        fun l hm => hlead l (List.mem_cons_of_mem _ hm)
      rw [List.intercalate_cons_cons, ← List.append_assoc, List.append_assoc (l ++ between),
        List.singleton_append, countLines_append, countLines_single hlb, hlead', hrest]
      rfl

end PagingGate.Text
