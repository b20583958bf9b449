import PagingGate.Proofs.Decimal.Fixed
import PagingGate.Proofs.Decimal.Reading

set_option autoImplicit false

namespace PagingGate.Decimal

open Binary64
open Float.Model.UnpackedFloat (Sign)

/-- The value of a shown number: an optional sign in front of a numeral or of the word for infinity. -/
def shown? (cs : List Char) : Option Extended :=
  let (negative, rest) := splitSign cs
  if rest = "inf".toList then some (infinite (sign negative))
  else (readUnsigned? negative rest).map fun n => number n.rational

/-- Rounded half to even; infinities stay. -/
def atPlaces (places : ℕ) : Extended → Extended :=
  WithBot.map (WithTop.map fun q => nearestEven (q * 10 ^ places) / 10 ^ places)

theorem atPlaces_mono (places : ℕ) : Monotone (atPlaces places) := by
  refine Monotone.withBot_map (Monotone.withTop_map fun p q h => ?_)
  have hscaled : p * 10 ^ places ≤ q * 10 ^ places := mul_le_mul_of_nonneg_right h (by positivity)
  have hrounded : (nearestEven (p * 10 ^ places) : ℚ) ≤ nearestEven (q * 10 ^ places) := by
    exact_mod_cast nearestEven_mono hscaled
  exact div_le_div_of_nonneg_right hrounded (by positivity)

@[simp] theorem atPlaces_infinite (places : ℕ) (s : Sign) : atPlaces places (infinite s) = infinite s := by
  cases s <;> rfl

@[simp] theorem atPlaces_number (places : ℕ) (q : ℚ) :
    atPlaces places (number q) = number (nearestEven (q * 10 ^ places) / 10 ^ places) := rfl

theorem isDigit_of_mem_padded {places n : ℕ} : ∀ c ∈ padded places n, c.isDigit = true := by
  intro c hc
  rcases List.mem_append.mp hc with hc | hc
  · rw [List.eq_of_mem_replicate hc]
    rfl
  · exact Nat.isDigit_of_mem_toDigits (by decide) (by decide) hc

theorem natOfDigits_padded (places n : ℕ) : natOfDigits (padded places n) = n := by
  rw [natOfDigits, padded, Nat.ofDigitChars_append, Nat.ofDigitChars_replicate_zero, Nat.mul_zero,
    Nat.ofDigitChars_ten_toDigits]

theorem lt_length_padded (places n : ℕ) : places < (padded places n).length := by
  rw [padded, List.length_append, List.length_replicate]
  omega

theorem placed_eq (places n : ℕ) : ∃ whole fraction,
    placed places n = whole ++ (if places = 0 then [] else '.' :: fraction) ∧
      (∀ c ∈ whole ++ fraction, c.isDigit = true) ∧ whole ≠ [] ∧ fraction.length = places ∧
      natOfDigits (whole ++ fraction) = n := by
  have hlength := lt_length_padded places n
  -- there are more digits than places, so some stand in front of the point
  have hsplit := List.take_append_drop ((padded places n).length - places) (padded places n)
  refine ⟨(padded places n).take ((padded places n).length - places),
    (padded places n).drop ((padded places n).length - places), ?_, ?_, ?_, ?_, ?_⟩
  · unfold placed
    simp only
    split
    · rw [List.append_nil]
    · rfl
  · rw [hsplit]
    exact isDigit_of_mem_padded
  · rw [ne_eq, List.take_eq_nil_iff, ← List.length_eq_zero_iff]
    omega
  · rw [List.length_drop]
    omega
  · rw [hsplit, natOfDigits_padded]

theorem readUnsigned?_placed (negative : Bool) (places n : ℕ) :
    readUnsigned? negative (placed places n) = some ⟨negative, n, -places⟩ := by
  obtain ⟨whole, fraction, hplaced, hdigits, h0, hlength, hvalue⟩ := placed_eq places n
  rw [List.forall_mem_append] at hdigits
  have hfraction : IsFraction fraction (if places = 0 then [] else '.' :: fraction) := by
    split
    · rename_i hplaces
      obtain rfl : fraction = [] := List.length_eq_zero_iff.mp (hlength.trans hplaces)
      exact .absent
    · rename_i hplaces
      exact .present ⟨List.ne_nil_of_length_pos (by omega), hdigits.2⟩
  have hread := readUnsigned?_spelled negative ⟨h0, hdigits.1⟩ hfraction .absent
  rwa [List.append_nil, ← hplaced, hvalue, hlength, Int.zero_sub] at hread

theorem placed_head (places n : ℕ) : ∃ c rest, placed places n = c :: rest ∧ c.isDigit = true := by
  obtain ⟨whole, fraction, hplaced, hdigits, h0, _, _⟩ := placed_eq places n
  obtain ⟨c, rest, rfl⟩ := List.exists_cons_of_ne_nil h0
  exact ⟨c, _, hplaced, hdigits c (by simp)⟩

theorem splitSign_placed (negative : Bool) (places n : ℕ) :
    splitSign (signText negative ++ placed places n) = (negative, placed places n) := by
  cases negative with
  | true => rfl
  | false =>
    obtain ⟨c, rest, hplaced, hc⟩ := placed_head places n
    rw [hplaced]
    change splitSign (c :: rest) = _
    unfold splitSign
    split
    · rename_i h
      obtain ⟨rfl, _⟩ := List.cons.inj h
      exact absurd hc (by decide)
    · rename_i h
      obtain ⟨rfl, _⟩ := List.cons.inj h
      exact absurd hc (by decide)
    · rfl

theorem placed_ne_inf (places n : ℕ) : placed places n ≠ "inf".toList := by
  obtain ⟨c, rest, hplaced, hc⟩ := placed_head places n
  rw [hplaced]
  intro h
  obtain ⟨rfl, _⟩ := List.cons.inj (show c :: rest = 'i' :: "nf".toList from h)
  exact absurd hc (by decide)

theorem shown?_infinity (s : Sign) :
    shown? (if s == .negative then "-inf".toList else "inf".toList) = some (infinite s) := by
  cases s <;> decide

theorem rational_placed (negative : Bool) (places m : ℕ) (e : ℤ) :
    Numeral.rational ⟨negative, fixedUnits places m e, -places⟩ =
      nearestEven (signed (sign negative) (m * 2 ^ e) * 10 ^ places) / 10 ^ places := by
  have hunits : (fixedUnits places m e : ℚ) = nearestEven (m * 2 ^ e * 10 ^ places) := by
    exact_mod_cast fixedUnits_eq places m e
  rw [Numeral.rational, hunits, zpow_neg, zpow_natCast, ← div_eq_mul_inv]
  cases negative with
  | false => rfl
  | true =>
    change -(_ : ℚ) = nearestEven (-(_ : ℚ) * _) / _
    rw [neg_mul, nearestEven_neg, Int.cast_neg, neg_div]

/-- What is read back is the value, rounded once. -/
theorem shown?_fixed (places : ℕ) {x : Float} {a : Extended} (h : value? x = some a) :
    shown? (fixed places x) = some (atPlaces places a) := by
  rcases eq_infinite_or_number a with ⟨s, rfl⟩ | ⟨q, rfl⟩
  · have hexact : exact x = .infinite (s == .negative) := by rw [exact, infinity_of_value? h]
    rw [fixed, hexact, atPlaces_infinite]
    exact shown?_infinity s
  · obtain ⟨hfinite, hq⟩ := isFinite_of_value? h
    obtain ⟨negative, m, e, hx⟩ := exists_exact hfinite
    rw [fixed_of_exact places hx, shown?, splitSign_placed]
    simp only
    rw [if_neg (placed_ne_inf _ _), readUnsigned?_placed, Option.map_some, rational_placed, ← rational_of_exact hx, hq,
      atPlaces_number]

end PagingGate.Decimal
