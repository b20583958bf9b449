import PagingGate.Proofs.Binary64.Arithmetic

set_option autoImplicit false

namespace PagingGate.Binary64

open Float.Model (Format UnpackedFloat)
open Float.Model.UnpackedFloat

def isWhole (n : ℕ) : UnpackedFloat → Bool
  | .finite .positive m e _ => m * 2 ^ e.toNat == n * 2 ^ (-e).toNat
  | _ => false

theorem value_of_isWhole {n : ℕ} {u : UnpackedFloat} (h : isWhole n u = true) : unpackedValue? u = some (number n) := by
  cases u with
  | finite s m e hp =>
    cases s with
    | negative => cases h
    | positive =>
      have heq : (m : ℚ) * 2 ^ e.toNat = n * 2 ^ (-e).toNat := by exact_mod_cast eq_of_beq h
      have he : e = e.toNat - (-e).toNat := by omega
      have hvalue : (m : ℚ) * 2 ^ e = n := by
        rw [he, zpow_sub₀ two_ne_zero, zpow_natCast, zpow_natCast, ← mul_div_assoc, heq]
        exact mul_div_cancel_right₀ _ (by positivity)
      exact congrArg (fun q => some (number q)) hvalue
  | notANumber => cases h
  | infinity s => cases h
  | zero s => cases h

theorem powersOfTen_exact : ∀ e : Fin 23,
    isWhole (10 ^ e.val) (Float.exactlyRepresentablePowersOfTen[e]).toModel.unpack = true := by
  decide +kernel

theorem value?_powerOfTen {e : ℕ} (h : e < 23) :
    value? (Float.exactlyRepresentablePowersOfTen[e]) = some (number (10 ^ e : ℕ)) :=
  value_of_isWhole (powersOfTen_exact ⟨e, h⟩)

theorem ten_zpow_of_nonneg {p : ℤ} (h : 0 ≤ p) : (10 : ℚ) ^ p = 10 ^ p.natAbs := by
  rw [← zpow_natCast, Int.natAbs_of_nonneg h]

theorem mul_ten_zpow_of_neg {p : ℤ} (h : p < 0) (q : ℚ) : q * 10 ^ p = q / 10 ^ p.natAbs := by
  have hp : p = -(p.natAbs : ℤ) := by omega
  conv_lhs => rw [hp, zpow_neg, zpow_natCast]
  exact (div_eq_mul_inv _ _).symm

theorem packedValue?_mul_whole {m n : ℕ} (hm : 0 < m <<< 53) (hn : 0 < n) :
    packedValue? (UnpackedFloat.mul .binary64 (.finite .positive (m <<< 53) (-53) hm) (.finite .positive n 0 hn)) =
      some (nearest (m * n)) := by
  have hpos : 0 < m <<< 53 * n := Nat.mul_pos hm hn
  have hample : Ample (m <<< 53 * n) (-53 + 0) := by
    left
    have hlarge : 2 ^ 52 ≤ m <<< 53 := by
      rw [Nat.shiftLeft_eq] at hm ⊢
      have := Nat.pos_of_mul_pos_right hm
      omega
    exact (Nat.le_log2 hpos.ne').mpr (hlarge.trans (Nat.le_mul_of_pos_right _ hn))
  refine (roundWithAccuracy_value (Nat.cast_pos.mpr hpos) (describes_exact _) hample).trans ?_
  have hvalue : ((m <<< 53 * n : ℕ) : ℚ) * 2 ^ (-53 + 0 : ℤ) = m * n := by
    rw [Nat.shiftLeft_eq, add_zero, zpow_neg]
    push_cast
    field_simp
  rw [hvalue]
  rfl

theorem packedValue?_div_whole {m n : ℕ} (hm : 0 < m) (hn : 0 < n) :
    packedValue? (UnpackedFloat.div .binary64 (.finite .positive m 0 hm) (.finite .positive n 0 hn)) =
      some (nearest (m / n)) := by
  have hvalue : ∀ {k : ℕ} (hk : 0 < k), unpackedValue? (.finite .positive k 0 hk) = some (number k) := by
    intro k hk
    have hone : (k : ℚ) * 2 ^ (0 : ℤ) = k := by rw [zpow_zero, mul_one]
    exact congrArg (fun q => some (number q)) hone
  exact div_value (hvalue hm) (hvalue hn) (Nat.cast_pos.mpr hn).ne'

theorem limit_le_of_large {m e : ℕ} (hm : 0 < m) (he : 2 ^ 11 < e) : limit ≤ m * 10 ^ e := by
  have hm1 : (1 : ℚ) ≤ m := by exact_mod_cast hm
  have hlimit : limit = 2 ^ 1024 := zpow_natCast 2 1024
  calc limit
      = 2 ^ 1024 := hlimit
    _ ≤ 2 ^ e := pow_le_pow_right₀ one_le_two (by omega)
    _ ≤ 10 ^ e := pow_le_pow_left₀ two_pos.le (by norm_num) e
    _ ≤ m * 10 ^ e := le_mul_of_one_le_left (by positivity) hm1

theorem tiny_of_large {m e : ℕ} (he : 2 ^ 11 + m.log2 < e) : (m : ℚ) / 10 ^ e ≤ 1 / 2 * 2 ^ (-1074 : ℤ) := by
  have hm : (m : ℚ) ≤ 2 ^ (m.log2 + 1) := by exact_mod_cast Nat.lt_log2_self.le
  have hexp : (2 : ℚ) ^ (m.log2 + 1) * 2 ^ 1075 ≤ 10 ^ e := by
    calc (2 : ℚ) ^ (m.log2 + 1) * 2 ^ 1075
        = 2 ^ (m.log2 + 1 + 1075) := (pow_add 2 _ _).symm
      _ ≤ 2 ^ e := pow_le_pow_right₀ one_le_two (by omega)
      _ ≤ 10 ^ e := pow_le_pow_left₀ two_pos.le (by norm_num) e
  have hunit : (1 : ℚ) / 2 * 2 ^ (-1074 : ℤ) = 1 / 2 ^ 1075 := by
    have hneg : (2 : ℚ) ^ (-1074 : ℤ) = (2 ^ 1074)⁻¹ := by rw [zpow_neg, ← zpow_natCast]; rfl
    rw [hneg, pow_succ 2 1074, ← one_div, one_div_mul_one_div, mul_comm]
  rw [hunit, div_le_div_iff₀ (by positivity) (by positivity), one_mul]
  exact (mul_le_mul_of_nonneg_right hm (by positivity)).trans hexp

theorem packedValue?_ofScientific_up (m e : ℕ) :
    packedValue? (UnpackedFloat.ofScientific .binary64 m e) = some (nearest (m * 10 ^ e)) := by
  unfold UnpackedFloat.ofScientific
  by_cases hm : m = 0
  · rw [dif_pos hm, hm, Nat.cast_zero, zero_mul, nearest_zero]
    exact packedValue?_zero .positive
  · have hm0 : 0 < m := Nat.pos_of_ne_zero hm
    rw [dif_neg hm]
    by_cases hlarge : (e : ℤ) > 2 ^ Format.binary64.exponentBits
    · have he : 2 ^ 11 < e := by exact_mod_cast hlarge
      rw [if_pos hlarge, nearest_of_limit_le (limit_le_of_large hm0 he)]
      exact packedValue?_infinity .positive
    · have hlow : ¬ (e : ℤ) < -((2 ^ Format.binary64.exponentBits : ℤ) + m.log2) := by
        have : (0 : ℤ) < 2 ^ Format.binary64.exponentBits := by positivity
        omega
      rw [if_neg hlarge, if_neg hlow, if_pos (Int.natCast_nonneg e)]
      refine (packedValue?_mul_whole _ _).trans ?_
      push_cast
      rfl

theorem packedValue?_ofScientific_down (m : ℕ) {e : ℕ} (he : 0 < e) :
    packedValue? (UnpackedFloat.ofScientific .binary64 m (-e)) = some (nearest (m / 10 ^ e)) := by
  unfold UnpackedFloat.ofScientific
  by_cases hm : m = 0
  · rw [dif_pos hm, hm, Nat.cast_zero, zero_div, nearest_zero]
    exact packedValue?_zero .positive
  · have hm0 : 0 < m := Nat.pos_of_ne_zero hm
    have hsmall : ¬ (-e : ℤ) > 2 ^ Format.binary64.exponentBits := by
      have : (0 : ℤ) < 2 ^ Format.binary64.exponentBits := by positivity
      omega
    rw [dif_neg hm, if_neg hsmall]
    by_cases hlow : (-e : ℤ) < -((2 ^ Format.binary64.exponentBits : ℤ) + m.log2)
    · have he' : 2 ^ 11 + m.log2 < e := by
        change (-e : ℤ) < -((2 ^ 11 : ℤ) + m.log2) at hlow
        omega
      have hq : (0 : ℚ) < m / 10 ^ e := div_pos (Nat.cast_pos.mpr hm0) (by positivity)
      rw [if_pos hlow, nearest_of_tiny hq (tiny_of_large he')]
      exact packedValue?_zero .positive
    · rw [if_neg hlow, if_neg (by omega)]
      refine (packedValue?_div_whole hm0 _).trans ?_
      rw [neg_neg, Int.toNat_natCast]
      push_cast
      rfl

theorem value?_ofScientific_up (m e : ℕ) : value? (Float.ofScientific m false e) = some (nearest (m * 10 ^ e)) := by
  unfold Float.ofScientific
  split
  · rename_i h
    obtain ⟨hm, he⟩ := h
    have hten := value?_powerOfTen (show e < 23 by omega)
    have hvalue := value?_mul_of_pos (value?_toFloat hm) hten (by positivity)
    rw [lift_number, Nat.cast_pow] at hvalue
    exact hvalue
  · exact packedValue?_ofScientific_up m e

theorem value?_ofScientific_down (m : ℕ) {e : ℕ} (h0 : 0 < e) :
    value? (Float.ofScientific m true e) = some (nearest (m / 10 ^ e)) := by
  unfold Float.ofScientific
  split
  · rename_i h
    obtain ⟨hm, he⟩ := h
    have hten := value?_powerOfTen (show e < 23 by omega)
    have hvalue := value?_div_of_pos (value?_toFloat hm) hten (by positivity)
    rw [lift_number, Nat.cast_pow] at hvalue
    exact hvalue
  · have hneg : Int.negOfNat e = -e := Int.negOfNat_eq
    refine Eq.trans ?_ (packedValue?_ofScientific_down m h0)
    rw [← hneg]
    rfl

theorem value?_ofNat_nearest (n : ℕ) : value? (Float.ofNat n) = some (nearest n) := by
  have hvalue := value?_ofScientific_up n 0
  rwa [pow_zero, mul_one] at hvalue

theorem value?_ofNat {n : ℕ} (h : n < 2 ^ 53) : value? (Float.ofNat n) = some (number n) := by
  rw [value?_ofNat_nearest, nearest_natCast h]

theorem value?_one : value? 1 = some (number 1) := by
  have h := value?_ofNat (n := 1) (by decide)
  rwa [Nat.cast_one] at h

theorem isFinite_ofNat {n : ℕ} (h : n < 2 ^ 53) : (Float.ofNat n).isFinite :=
  (isFinite_of_value? (value?_ofNat h)).1

theorem rational_ofNat {n : ℕ} (h : n < 2 ^ 53) : rational (Float.ofNat n) = n :=
  (isFinite_of_value? (value?_ofNat h)).2

end PagingGate.Binary64
