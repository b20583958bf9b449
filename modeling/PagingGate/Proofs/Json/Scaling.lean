import PagingGate.Json.Number
import PagingGate.Proofs.Binary64.Error
import PagingGate.Proofs.Binary64.Scientific
import PagingGate.Proofs.Decimal.Shortest

set_option autoImplicit false

/-!
# Scaling a significand

A significand and a power of ten are rounded each on its own, and so is what they make together. The result is exact
while all of them are, and never more than three units off the number that the digits were written for.
-/

namespace PagingGate.Json

open Binary64

theorem rounded_natCast {s : ℕ} (h : s ≤ 2 ^ 53) : rounded s = s := by
  refine rounded_of_isPoint ?_
  rcases h.lt_or_eq with h | rfl
  · exact isPoint_natCast h
  · exact ⟨1, 53, by norm_num, by decide, by decide⟩

theorem one_le_rounded {q : ℚ} (h : 1 ≤ q) : 1 ≤ rounded q := by
  have hone : rounded (1 : ℕ) = 1 := by rw [rounded_natCast (by decide), Nat.cast_one]
  rw [Nat.cast_one] at hone
  exact hone.ge.trans (rounded_mono h)

def ten (n : ℕ) : ℚ := rounded (10 ^ n)

theorem one_le_ten_pow (n : ℕ) : (1 : ℚ) ≤ 10 ^ n := one_le_pow₀ (by norm_num)

theorem abs_ten_sub_le (n : ℕ) : |ten n - 10 ^ n| ≤ roundoff * 10 ^ n :=
  abs_rounded_sub_le_of_normal (one_normal.trans (one_le_ten_pow n))

theorem one_le_ten (n : ℕ) : 1 ≤ ten n := one_le_rounded (one_le_ten_pow n)

theorem ten_pos (n : ℕ) : 0 < ten n := one_pos.trans_le (one_le_ten n)

theorem ten_eq {n : ℕ} (h : n ≤ 22) : ten n = 10 ^ n := by
  refine rounded_of_isPoint ⟨5 ^ n, n, ?_, ?_, by omega⟩
  · rw [zpow_natCast]
    push_cast
    rw [← mul_pow]
    norm_num
  · rw [abs_of_pos (by positivity)]
    calc (5 : ℤ) ^ n ≤ 5 ^ 22 := pow_le_pow_right₀ (by decide) h
      _ < 2 ^ 53 := by decide

/-- The mantissa of the largest power of ten. -/
def lastMantissa : ℕ := 5010420900022432

theorem lastMantissa_near : 10 ^ 308 < lastMantissa * 2 ^ 971 ∧
    2 * (lastMantissa * 2 ^ 971) < 2 * 10 ^ 308 + 2 ^ 971 ∧
    2 ^ 56 * (lastMantissa * 2 ^ 971) ≤ (2 ^ 56 + 1) * 10 ^ 308 := by
  decide +kernel

theorem canonical_last : Canonical lastMantissa 971 := by
  constructor <;> decide

theorem ten_last : ten 308 = lastMantissa * 2 ^ (971 : ℤ) := by
  obtain ⟨hlow, hhigh, _⟩ := lastMantissa_near
  have hpow : (2 : ℚ) ^ (971 : ℤ) = 2 ^ 971 := zpow_natCast 2 971
  have hlow' : (10 : ℚ) ^ 308 < lastMantissa * 2 ^ 971 := by exact_mod_cast hlow
  have hhigh' : 2 * ((lastMantissa : ℚ) * 2 ^ 971) < 2 * 10 ^ 308 + 2 ^ 971 := by exact_mod_cast hhigh
  have hunit : (0 : ℚ) < 2 ^ 971 := by positivity
  refine Decimal.rounded_of_contains (by decide) canonical_last ⟨?_, ?_, fun _ => rfl⟩
  · rw [Decimal.low_mul (by decide), if_neg (by decide), hpow]
    generalize (2 : ℚ) ^ 971 = u at hhigh' ⊢
    generalize (10 : ℚ) ^ 308 = t at hhigh' ⊢
    linarith
  · rw [Decimal.high_mul, hpow]
    generalize (2 : ℚ) ^ 971 = u at hlow' hunit ⊢
    generalize (10 : ℚ) ^ 308 = t at hlow' ⊢
    linarith

theorem abs_ten_last_sub_le : |ten 308 - 10 ^ 308| ≤ 1 / 2 ^ 56 * 10 ^ 308 := by
  obtain ⟨hlow, _, hhigh⟩ := lastMantissa_near
  have hpow : (2 : ℚ) ^ (971 : ℤ) = 2 ^ 971 := zpow_natCast 2 971
  have hlow' : (10 : ℚ) ^ 308 < lastMantissa * 2 ^ 971 := by exact_mod_cast hlow
  have hhigh' : 2 ^ 56 * ((lastMantissa : ℚ) * 2 ^ 971) ≤ (2 ^ 56 + 1) * 10 ^ 308 := by exact_mod_cast hhigh
  rw [ten_last, hpow, abs_of_pos (sub_pos.mpr hlow')]
  generalize (2 : ℚ) ^ 971 = u at hhigh' ⊢
  generalize (10 : ℚ) ^ 308 = t at hhigh' ⊢
  linarith

theorem abs_rounded_natCast_sub_le {s : ℕ} (h : 0 < s) : |rounded s - s| ≤ roundoff * s :=
  abs_rounded_sub_le_of_normal (one_normal.trans (by exact_mod_cast h))

theorem abs_rounded_sub_le_of_close {a w : ℚ} (ha : 0 < a) (h : |w - a| ≤ 73 / 64 * roundoff * a) :
    |rounded w - a| ≤ 35 / 16 * roundoff * a + underflow := by
  have hsmall : 73 / 64 * roundoff * a ≤ 1 / 64 * a := by
    refine mul_le_mul_of_nonneg_right ?_ ha.le
    rw [roundoff]
    norm_num
  obtain ⟨hlow, hhigh⟩ := abs_le.mp h
  have hw : 0 < w := by linarith
  have hup : roundoff * w ≤ roundoff * (65 / 64 * a) := mul_le_mul_of_nonneg_left (by linarith) roundoff_pos.le
  have hra : 0 < roundoff * a := mul_pos roundoff_pos ha
  calc |rounded w - a|
      ≤ |rounded w - w| + |w - a| := abs_sub_le _ _ _
    _ ≤ roundoff * w + underflow + 73 / 64 * roundoff * a := add_le_add (abs_rounded_sub_le hw) h
    _ ≤ 35 / 16 * roundoff * a + underflow := by linarith

theorem abs_rounded_div_sub_le {a w t : ℚ} (ha : 0 < a) (ht : 8 ≤ t) (h : |w - a| ≤ 73 / 64 * roundoff * a) :
    |rounded w / t - a / t| ≤ 35 / 16 * roundoff * (a / t) + underflow / 8 := by
  have ht0 : 0 < t := by linarith
  have hunderflow : underflow ≤ underflow / 8 * t := by
    have hscaled := mul_le_mul_of_nonneg_left ht underflow_pos.le
    linarith
  rw [← sub_div, abs_div, abs_of_pos ht0, div_le_iff₀ ht0]
  calc |rounded w - a|
      ≤ 35 / 16 * roundoff * a + underflow := abs_rounded_sub_le_of_close ha h
    _ ≤ 35 / 16 * roundoff * a + underflow / 8 * t := by linarith
    _ = (35 / 16 * roundoff * (a / t) + underflow / 8) * t := by field_simp

def unrounded (s : ℕ) (p : ℤ) : ℚ :=
  if 0 ≤ p then rounded s * ten p.natAbs
  else if -308 ≤ p then rounded s / ten p.natAbs
  else rounded (rounded s / ten 308) / ten (p + 308).natAbs

theorem unrounded_exact {s : ℕ} {p : ℤ} (hs : s ≤ 2 ^ 53) (hp : p.natAbs ≤ 22) : unrounded s p = s * 10 ^ p := by
  rw [unrounded, rounded_natCast hs, ten_eq hp]
  by_cases h : 0 ≤ p
  · rw [if_pos h, ten_zpow_of_nonneg h]
  · rw [if_neg h, if_pos (by omega), mul_ten_zpow_of_neg (not_le.mp h)]

section
variable {s : ℕ} {p : ℤ} (hs : 0 < s)
include hs

theorem abs_unrounded_sub_le_of_nonneg (hp : 0 ≤ p) :
    |unrounded s p - s * 10 ^ p| ≤ 35 / 16 * roundoff * (s * 10 ^ p) := by
  rw [unrounded, if_pos hp, ten_zpow_of_nonneg hp]
  refine (abs_mul_sub_mul_le (Nat.cast_nonneg s) (by positivity) roundoff_pos.le (abs_rounded_natCast_sub_le hs)
    (abs_ten_sub_le p.natAbs)).trans ?_
  refine mul_le_mul_of_nonneg_right ?_ (by positivity)
  rw [roundoff]
  norm_num

theorem abs_unrounded_sub_le_of_neg (hp : p < 0) (hl : -308 ≤ p) :
    |unrounded s p - s * 10 ^ p| ≤ 35 / 16 * roundoff * (s * 10 ^ p) := by
  rw [unrounded, if_neg (not_le.mpr hp), if_pos hl, mul_ten_zpow_of_neg hp]
  refine (abs_div_sub_div_le (Nat.cast_nonneg s) (by positivity) roundoff_pos.le (by rw [roundoff]; norm_num)
    (abs_rounded_natCast_sub_le hs) (abs_ten_sub_le p.natAbs)).trans ?_
  refine mul_le_mul_of_nonneg_right ?_ (by positivity)
  rw [roundoff]
  norm_num

theorem abs_quotient_sub_le : |rounded s / ten 308 - s / 10 ^ 308| ≤ 73 / 64 * roundoff * (s / 10 ^ 308) := by
  refine (abs_div_sub_div_le (Nat.cast_nonneg s) (by positivity) (by norm_num) (by norm_num)
    (abs_rounded_natCast_sub_le hs) abs_ten_last_sub_le).trans ?_
  refine mul_le_mul_of_nonneg_right ?_ (by positivity)
  rw [roundoff]
  norm_num

theorem abs_unrounded_sub_le_of_low (hp : p < -308) (hl : -330 ≤ p) :
    |unrounded s p - s * 10 ^ p| ≤ 35 / 16 * roundoff * (s * 10 ^ p) + underflow / 8 := by
  have hsplit : p.natAbs = 308 + (p + 308).natAbs := by omega
  have hproduct : (s : ℚ) * 10 ^ p = s / 10 ^ 308 / 10 ^ (p + 308).natAbs := by
    rw [mul_ten_zpow_of_neg (by omega), hsplit, pow_add, div_div]
  have hten : (10 : ℚ) ≤ 10 ^ (p + 308).natAbs := le_self_pow₀ (by norm_num) (by omega)
  rw [unrounded, if_neg (by omega), if_neg (by omega), ten_eq (n := (p + 308).natAbs) (by omega), hproduct]
  exact abs_rounded_div_sub_le (by positivity) (by linarith) (abs_quotient_sub_le hs)

end

theorem nearest_of_rounded_lt {q : ℚ} (h0 : 0 ≤ q) (h : rounded q < limit) : nearest q = number (rounded q) := by
  rw [nearest, capped_of_abs_lt]
  rwa [abs_of_nonneg (rounded_nonneg h0)]

theorem value?_powerOfTen {n : ℕ} (h : n ≤ 308) : value? (powerOfTen n) = some (number (ten n)) := by
  have hvalue := value?_ofScientific_up 1 n
  rw [Nat.cast_one, one_mul] at hvalue
  refine hvalue.trans (congrArg some (nearest_of_rounded_lt (by positivity) ?_))
  calc rounded (10 ^ n)
      ≤ rounded (10 ^ 308) := rounded_mono (pow_le_pow_right₀ (by norm_num) h)
    _ = lastMantissa * 2 ^ (971 : ℤ) := ten_last
    _ < limit := canonical_last.lt_limit

theorem rounded_natCast_pos {s : ℕ} (h : 0 < s) : 0 < rounded s :=
  one_pos.trans_le (one_le_rounded (by exact_mod_cast h))

theorem rounded_le {q : ℚ} (h : q ≤ 2 ^ (57 : ℤ)) : rounded q ≤ 2 ^ (57 : ℤ) := by
  have hcap : rounded (2 ^ (57 : ℤ)) = 2 ^ (57 : ℤ) :=
    rounded_of_isPoint ⟨1, 57, by rw [Int.cast_one, one_mul], by decide, by decide⟩
  exact (rounded_mono h).trans hcap.le

theorem two_pow_lt_limit : (2 : ℚ) ^ (57 : ℤ) < limit := zpow_lt_zpow_right₀ one_lt_two (by decide)

theorem natCast_le {s : ℕ} (h : s < 2 ^ 57) : (s : ℚ) ≤ 2 ^ (57 : ℤ) := by exact_mod_cast h.le

theorem value?_significand {s : ℕ} (h : s < 2 ^ 57) : value? (Float.ofNat s) = some (number (rounded s)) := by
  rw [value?_ofNat_nearest, nearest_of_rounded_lt (Nat.cast_nonneg s)]
  exact (rounded_le (natCast_le h)).trans_lt two_pow_lt_limit

section
variable {f : Float} {q : ℚ} (hf : value? f = some (number q))
include hf

theorem scale_of_nonneg {p : ℤ} (hp : 0 ≤ p) (hhigh : p ≤ 308) (h0 : 0 ≤ q)
    (hfit : rounded (q * ten p.natAbs) < limit) :
    ∃ x, scale f p = .ok x ∧ value? x = some (number (rounded (q * ten p.natAbs))) := by
  have hten := ten_pos p.natAbs
  have hvalue := value?_mul_of_pos hf (value?_powerOfTen (show p.natAbs ≤ 308 by omega)) hten
  rw [lift_number, nearest_of_rounded_lt (mul_nonneg h0 hten.le) hfit] at hvalue
  refine ⟨_, ?_, hvalue⟩
  rw [scale, if_pos (by omega), if_pos hp]
  simp only [isInf_of_number hvalue, Bool.false_eq_true, if_false]

theorem scale_of_neg {p : ℤ} (hp : p < 0) (hl : -308 ≤ p) (h0 : 0 ≤ q)
    (hfit : rounded (q / ten p.natAbs) < limit) :
    ∃ x, scale f p = .ok x ∧ value? x = some (number (rounded (q / ten p.natAbs))) := by
  have hten := ten_pos p.natAbs
  have hvalue := value?_div_of_pos hf (value?_powerOfTen (show p.natAbs ≤ 308 by omega)) hten
  rw [lift_number, nearest_of_rounded_lt (div_nonneg h0 hten.le) hfit] at hvalue
  refine ⟨_, ?_, hvalue⟩
  rw [scale, if_pos (by omega), if_neg (not_le.mpr hp)]

/-- In two steps, the first of which cannot overflow. -/
theorem scale_of_low {p : ℤ} (hp : p < -308) (hl : -330 ≤ p) (h0 : 0 < q) (hq : rounded (q / ten 308) < limit)
    (hfit : rounded (rounded (q / ten 308) / ten (p + 308).natAbs) < limit) :
    ∃ x, scale f p = .ok x ∧ value? x = some (number (rounded (rounded (q / ten 308) / ten (p + 308).natAbs))) := by
  have hten := ten_pos 308
  have hvalue := value?_div_of_pos hf (value?_powerOfTen le_rfl) hten
  rw [lift_number, nearest_of_rounded_lt (div_nonneg h0.le hten.le) hq] at hvalue
  obtain ⟨x, hx, hxvalue⟩ := scale_of_neg hvalue (show p + 308 < 0 by omega) (by omega)
    (rounded_nonneg (div_nonneg h0.le hten.le)) hfit
  have hne : ¬ (f == 0) = true := by
    rw [beq_iff hf value?_zero]
    exact fun h => h0.ne' (number_injective h)
  refine ⟨x, ?_, hxvalue⟩
  rw [scale, if_neg (by omega), if_neg hne, if_neg (by omega), hx]

end

/-- The number that a scaled significand becomes, unless it is out of range. -/
theorem scale_value {s : ℕ} {p : ℤ} (hs : 0 < s) (hsmall : s < 2 ^ 57) (hlow : -330 ≤ p) (hhigh : p ≤ 308)
    (hfit : rounded (unrounded s p) < limit) :
    ∃ x, scale (Float.ofNat s) p = .ok x ∧ value? x = some (number (rounded (unrounded s p))) := by
  have hf := value?_significand hsmall
  have h0 := rounded_natCast_pos hs
  unfold unrounded at hfit ⊢
  by_cases hp : 0 ≤ p
  · rw [if_pos hp] at hfit ⊢
    exact scale_of_nonneg hf hp hhigh h0.le hfit
  · rw [if_neg hp] at hfit ⊢
    by_cases hl : -308 ≤ p
    · rw [if_pos hl] at hfit ⊢
      exact scale_of_neg hf (not_le.mp hp) hl h0.le hfit
    · rw [if_neg hl] at hfit ⊢
      have hfirst : rounded s / ten 308 ≤ 2 ^ (57 : ℤ) :=
        (div_le_self h0.le (one_le_ten 308)).trans (rounded_le (natCast_le hsmall))
      exact scale_of_low hf (not_le.mp hl) hlow h0 ((rounded_le hfirst).trans_lt two_pow_lt_limit) hfit

end PagingGate.Json
