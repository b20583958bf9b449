import PagingGate.Proofs.Decimal.Fixed
import PagingGate.Summary

set_option autoImplicit false

namespace PagingGate

open Binary64 Decimal

/-- The parts of a row of digits, each behind a comma except the first. The first has one to three digits, all others
have three. -/
structure Groups where
  first : List Char
  others : List (List Char)
  first_pos : 1 ≤ first.length
  first_le : first.length ≤ 3
  others_length : ∀ g ∈ others, g.length = 3

namespace Groups

def text (g : Groups) : List Char := g.first ++ g.others.flatMap (',' :: ·)

def digits (g : Groups) : List Char := g.first ++ g.others.flatten

theorem length_flatten {others : List (List Char)} (h : ∀ g ∈ others, g.length = 3) :
    others.flatten.length = 3 * others.length := by
  induction others with
  | nil => rfl
  | cons g others ih =>
    rw [List.forall_mem_cons] at h
    rw [List.flatten_cons, List.length_append, h.1, ih h.2, List.length_cons]
    omega

theorem length_digits (g : Groups) : g.digits.length = g.first.length + 3 * g.others.length := by
  rw [digits, List.length_append, length_flatten g.others_length]

theorem filter_eq_self {cs : List Char} (h : ',' ∉ cs) : cs.filter (· ≠ ',') = cs :=
  List.filter_eq_self.mpr fun _ hc => decide_eq_true (ne_of_mem_of_not_mem hc h)

theorem filter_others {others : List (List Char)} (h : ',' ∉ others.flatten) :
    (others.flatMap (',' :: ·)).filter (· ≠ ',') = others.flatten := by
  induction others with
  | nil => rfl
  | cons g others ih =>
    rw [List.flatten_cons, List.mem_append, not_or] at h
    rw [List.flatMap_cons, List.cons_append, List.filter_cons_of_neg (by simp), List.filter_append,
      filter_eq_self h.1, ih h.2, List.flatten_cons]

theorem filter_text (g : Groups) (h : ',' ∉ g.digits) : g.text.filter (· ≠ ',') = g.digits := by
  rw [digits, List.mem_append, not_or] at h
  rw [text, digits, List.filter_append, filter_eq_self h.1, filter_others h.2]

end Groups

/-- The induction is on the digits: a digit joins the first group, or starts a new one if that is full. -/
theorem groupDigits_eq_text {digits : List Char} (h0 : digits ≠ []) :
    ∃ g : Groups, groupDigits digits = g.text ∧ g.digits = digits := by
  induction digits with
  | nil => exact absurd rfl h0
  | cons c cs ih =>
    by_cases hcs : cs = []
    · subst hcs
      exact ⟨⟨[c], [], by simp, by simp, by simp⟩, rfl, rfl⟩
    · obtain ⟨g, htext, hdigits⟩ := ih hcs
      have hlength := g.length_digits
      have hpos := g.first_pos
      have hle := g.first_le
      rw [hdigits] at hlength
      by_cases hfull : cs.length % 3 = 0
      · refine ⟨⟨[c], g.first :: g.others, by simp, by simp, ?_⟩, ?_, ?_⟩
        · rw [List.forall_mem_cons]
          exact ⟨by omega, g.others_length⟩
        · rw [groupDigits, if_pos ⟨hcs, hfull⟩, htext]
          rfl
        · exact congrArg (c :: ·) hdigits
      · refine ⟨⟨c :: g.first, g.others, by simp, ?_, g.others_length⟩, ?_, ?_⟩
        · rw [List.length_cons]
          omega
        · rw [groupDigits, if_neg (fun h => hfull h.2), htext]
          rfl
        · exact congrArg (c :: ·) hdigits

theorem groupThousands_of_fixed {x : Float} {negative : Bool} {digits : List Char} {n : ℕ}
    (h : fixed 0 x = signText negative ++ digits) (hn : IsNumeral digits n) :
    groupThousands x = signText negative ++ groupDigits digits := by
  have hall : digits.all Char.isDigit = true := List.all_eq_true.mpr hn.isDigit
  unfold groupThousands
  split
  · rename_i rest hrest
    rw [h] at hrest
    cases negative with
    | false =>
      obtain rfl : digits = '-' :: rest := hrest
      exact absurd (hn.isDigit '-' List.mem_cons_self) (by decide)
    | true =>
      obtain rfl : digits = rest := (List.cons.inj hrest).2
      rw [if_pos hall]
      rfl
  · rename_i hunsigned
    cases negative with
    | false =>
      rw [show fixed 0 x = digits from h, if_pos hall]
      rfl
    | true => exact absurd h (hunsigned digits)

theorem groupThousands_of_isFinite {x : Float} (h : x.isFinite) : ∃ g : Groups,
    groupThousands x = signText (signBit x) ++ g.text ∧ g.digits = Nat.toDigits 10 (nearestEven (rational x)).natAbs := by
  have hnumeral := isNumeral_toDigits (nearestEven (rational x)).natAbs
  obtain ⟨g, htext, hdigits⟩ := groupDigits_eq_text hnumeral.ne_nil
  refine ⟨g, ?_, hdigits⟩
  rw [groupThousands_of_fixed (fixed_zero_of_isFinite h) hnumeral, htext]

theorem groupThousands_of_not_isFinite {x : Float} (h : ¬ x.isFinite) :
    (x.isNaN ∧ groupThousands x = "NaN".toList) ∨
      (x.isInf ∧ groupThousands x = signText (signBit x) ++ "inf".toList) := by
  change ¬ x.toModel.unpack.isFinite = true at h
  change (x.toModel.unpack.isNaN = true ∧ _) ∨ (x.toModel.unpack.isInf = true ∧ _)
  unfold groupThousands fixed
  cases hu : x.toModel.unpack with
  | notANumber =>
    left
    have hexact : exact x = .notANumber := by rw [exact, hu]
    rw [hexact]
    exact ⟨rfl, by decide⟩
  | infinity s =>
    right
    rw [exact_of_infinity hu]
    refine ⟨rfl, ?_⟩
    cases signBit x <;> decide
  | zero s => exact absurd (by rw [hu]; rfl) h
  | finite s m e hp => exact absurd (by rw [hu]; rfl) h

/-- The text of a finite number is a sign if the sign bit is set, and then groups of digits that make the numeral of the
number rounded to a whole one. Other numbers have the words for them. -/
theorem groupThousands_text (x : Float) :
    (x.isFinite → ∃ g : Groups, groupThousands x = signText (signBit x) ++ g.text ∧
      (groupThousands x).filter (· ≠ ',') = signText (signBit x) ++ g.digits ∧
      IsNumeral g.digits (nearestEven (rational x)).natAbs) ∧
    (¬ x.isFinite → (x.isNaN ∧ groupThousands x = "NaN".toList) ∨
      (x.isInf ∧ groupThousands x = signText (signBit x) ++ "inf".toList)) := by
  refine ⟨fun h => ?_, groupThousands_of_not_isFinite⟩
  obtain ⟨g, htext, hdigits⟩ := groupThousands_of_isFinite h
  have hnumeral := isNumeral_toDigits (nearestEven (rational x)).natAbs
  rw [← hdigits] at hnumeral
  have hcomma : ',' ∉ g.digits := fun hm => absurd (hnumeral.isDigit ',' hm) (by decide)
  have hsign : (signText (signBit x)).filter (· ≠ ',') = signText (signBit x) := by
    cases signBit x <;> rfl
  refine ⟨g, htext, ?_, hnumeral⟩
  rw [htext, List.filter_append, hsign, g.filter_text hcomma]

theorem groupThousands_at_half : (-98764.5 : Float).isFinite ∧ (1e20 : Float).isFinite ∧
    groupThousands (-98764.5) = "-98,764".toList ∧ groupThousands 1e20 = "100,000,000,000,000,000,000".toList ∧
    (∃ g : Groups, groupThousands (-98764.5) = signText (signBit (-98764.5)) ++ g.text ∧
      (groupThousands (-98764.5)).filter (· ≠ ',') = signText (signBit (-98764.5)) ++ g.digits ∧
      IsNumeral g.digits (nearestEven (rational (-98764.5))).natAbs) ∧
    ((1 / 0 : Float).isInf ∧ groupThousands (1 / 0) = "inf".toList) := by
  have hfinite : (-98764.5 : Float).isFinite := by decide +kernel
  have hinfinite : ¬ (1 / 0 : Float).isFinite := by decide +kernel
  refine ⟨hfinite, by decide +kernel, by decide +kernel, by decide +kernel,
    (groupThousands_text (-98764.5)).1 hfinite, ?_⟩
  rcases (groupThousands_text (1 / 0)).2 hinfinite with ⟨hnan, _⟩ | h
  · exact absurd hnan (by decide +kernel)
  · exact h

end PagingGate
