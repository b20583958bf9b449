import PagingGate.Proofs.Binary64.Value

set_option autoImplicit false

namespace PagingGate.Binary64

open Float.Model (Format UnpackedFloat totalExponent)
open Float.Model.UnpackedFloat

/-- What a mantissa and its two bits say about a number. -/
def Describes : ExtendedMantissa → ℚ → Prop
  | ⟨m, false, false⟩, q => q = m
  | ⟨m, false, true⟩, q => (m : ℚ) < q ∧ q < m + 1 / 2
  | ⟨m, true, false⟩, q => q = m + 1 / 2
  | ⟨m, true, true⟩, q => (m : ℚ) + 1 / 2 < q ∧ q < m + 1

theorem Describes.bounds {em : ExtendedMantissa} {q : ℚ} (h : Describes em q) :
    (em.mantissa : ℚ) ≤ q ∧ q < em.mantissa + 1 := by
  obtain ⟨m, r, s⟩ := em
  change (m : ℚ) ≤ q ∧ q < m + 1
  cases r <;> cases s
  · change q = m at h
    constructor <;> linarith
  · obtain ⟨hl, hr⟩ := h
    constructor <;> linarith
  · change q = m + 1 / 2 at h
    constructor <;> linarith
  · obtain ⟨hl, hr⟩ := h
    constructor <;> linarith

theorem Describes.nearestEven {em : ExtendedMantissa} {q : ℚ} (h : Describes em q) :
    nearestEven q = em.roundedMantissa := by
  have hf : ⌊q⌋ = (em.mantissa : ℤ) := Int.floor_eq_iff.mpr (by exact_mod_cast h.bounds)
  unfold Binary64.nearestEven
  rw [hf]
  obtain ⟨m, r, s⟩ := em
  push_cast
  cases r <;> cases s
  · change q = m at h
    rw [if_pos (by linarith)]
    rfl
  · obtain ⟨hl, hr⟩ := h
    rw [if_pos (by linarith)]
    rfl
  · change q = m + 1 / 2 at h
    rw [if_neg (by linarith), if_neg (by linarith)]
    rfl
  · obtain ⟨hl, hr⟩ := h
    rw [if_neg (by linarith), if_pos (by linarith)]
    rfl

theorem describes_half {k : ℕ} {b r s : Bool} {q : ℚ} (h : Describes ⟨2 * k + b.toNat, r, s⟩ q) :
    Describes ⟨k, b, r || s⟩ (q / 2) := by
  cases b <;> cases r <;> cases s <;>
    simp only [Describes, Bool.toNat_false, Bool.toNat_true, Bool.or_false, Bool.or_true] at h ⊢ <;>
    push_cast at h
  · linarith
  · constructor <;> linarith [h.1, h.2]
  · constructor <;> linarith
  · constructor <;> linarith [h.1, h.2]
  · linarith
  · constructor <;> linarith [h.1, h.2]
  · constructor <;> linarith
  · constructor <;> linarith [h.1, h.2]

theorem Describes.shiftRightOne {em : ExtendedMantissa} {q : ℚ} (h : Describes em q) :
    Describes em.shiftRightOne (q / 2) := by
  obtain ⟨m, r, s⟩ := em
  have hm : m = 2 * (m / 2) + (m % 2 != 0).toNat := by
    rcases Nat.mod_two_eq_zero_or_one m with hmod | hmod
    · rw [hmod]
      change m = 2 * (m / 2) + 0
      omega
    · rw [hmod]
      change m = 2 * (m / 2) + 1
      omega
  rw [hm] at h
  exact describes_half h

theorem Describes.shiftRight {em : ExtendedMantissa} {q : ℚ} (h : Describes em q) (n : ℕ) :
    Describes (em >>> n) (q / 2 ^ n) := by
  change Describes (n.repeat ExtendedMantissa.shiftRightOne em) _
  induction n with
  | zero => rwa [pow_zero, div_one]
  | succ n ih =>
    rw [pow_succ, ← div_div]
    exact ih.shiftRightOne

theorem mantissa_ofMantissaAndAccuracy (m : ℕ) (a : Accuracy) :
    (ExtendedMantissa.ofMantissaAndAccuracy m a).mantissa = m := by
  cases a with
  | exact => rfl
  | inexact o => cases o <;> rfl

theorem describes_exact (m : ℕ) : Describes (.ofMantissaAndAccuracy m .exact) m :=
  (rfl : (m : ℚ) = m)

theorem targetExponent_binary64 (t : ℤ) : Format.binary64.targetExponent t = max (t - 53) (-1074) := rfl

theorem log_of_bounds {q : ℚ} {l : ℤ} (hl : 2 ^ l ≤ q) (hr : q < 2 ^ (l + 1)) : Int.log 2 q = l := by
  have hq : 0 < q := lt_of_lt_of_le (two_zpow_pos l) hl
  have hle : l ≤ Int.log 2 q := (Int.zpow_le_iff_le_log one_lt_two hq).mp (by exact_mod_cast hl)
  have hlt : Int.log 2 q < l + 1 := (Int.lt_zpow_iff_log_lt one_lt_two hq).mp (by exact_mod_cast hr)
  omega

/-- Enough digits for every rounding: a full mantissa, or an exponent that is not too large. -/
def Ample (m : ℕ) (e : ℤ) : Prop := 52 ≤ m.log2 ∨ e ≤ -1074

theorem log_of_digits {m : ℕ} {q : ℚ} (e : ℤ) (hm : 0 < m) (hl : (m : ℚ) ≤ q) (hr : q < m + 1) :
    Int.log 2 (q * 2 ^ e) = m.log2 + e := by
  have hlow : (2 : ℚ) ^ m.log2 ≤ m := by exact_mod_cast Nat.log2_self_le hm.ne'
  have hhigh : (m : ℚ) + 1 ≤ 2 ^ (m.log2 + 1) := by exact_mod_cast Nat.lt_log2_self (n := m)
  apply log_of_bounds
  · rw [zpow_add₀ two_ne_zero, zpow_natCast]
    exact mul_le_mul_of_nonneg_right (hlow.trans hl) (two_zpow_pos e).le
  · rw [add_right_comm, zpow_add₀ two_ne_zero, ← Nat.cast_succ, zpow_natCast]
    exact mul_lt_mul_of_pos_right (lt_of_lt_of_le hr hhigh) (two_zpow_pos e)

theorem targetExponent_eq_grid {m : ℕ} {e : ℤ} {q : ℚ} (h0 : 0 < q) (hl : (m : ℚ) ≤ q) (hr : q < m + 1)
    (h : Ample m e) : Format.binary64.targetExponent (totalExponent m e) = grid (q * 2 ^ e) := by
  have hpos : 0 < q * 2 ^ e := mul_pos h0 (two_zpow_pos e)
  rw [targetExponent_binary64, totalExponent, grid, abs_of_pos hpos]
  by_cases hm : m = 0
  · -- Such a number is smaller than every positive point.
    subst hm
    have he : e ≤ -1074 := h.resolve_left (by decide)
    have hlt : q * 2 ^ e < 2 ^ e := by
      rw [Nat.cast_zero, zero_add] at hr
      exact mul_lt_of_lt_one_left (two_zpow_pos e) hr
    have hlog : Int.log 2 (q * 2 ^ e) < e :=
      (Int.lt_zpow_iff_log_lt one_lt_two hpos).mp (by exact_mod_cast hlt)
    have hz : Nat.log2 0 = 0 := rfl
    rw [hz]
    omega
  · rw [log_of_digits e (Nat.pos_of_ne_zero hm) hl hr]
    omega

theorem le_targetExponent {m : ℕ} {e : ℤ} (h : Ample m e) :
    e ≤ Format.binary64.targetExponent (totalExponent m e) := by
  rw [targetExponent_binary64, totalExponent]
  rcases h with h | h <;> omega

theorem shiftToTargetExponent_describes {m : ℕ} {e : ℤ} {a : Accuracy} {q : ℚ} (h0 : 0 < q)
    (hd : Describes (.ofMantissaAndAccuracy m a) q) (h : Ample m e) :
    ∃ em, shiftToTargetExponent .binary64 m e a = (em, grid (q * 2 ^ e)) ∧
      Describes em (q * 2 ^ e / 2 ^ grid (q * 2 ^ e)) := by
  obtain ⟨hl, hr⟩ := hd.bounds
  rw [mantissa_ofMantissaAndAccuracy] at hl hr
  have ht := targetExponent_eq_grid h0 hl hr h
  have hle := le_targetExponent h
  rw [ht] at hle
  have hexp : e + ((grid (q * 2 ^ e) - e).toNat : ℤ) = grid (q * 2 ^ e) := by omega
  refine ⟨ExtendedMantissa.ofMantissaAndAccuracy m a >>> (grid (q * 2 ^ e) - e).toNat, ?_, ?_⟩
  · unfold shiftToTargetExponent
    rw [ht]
    exact Prod.ext rfl hexp
  · have hq : q * 2 ^ e / 2 ^ grid (q * 2 ^ e) = q / 2 ^ (grid (q * 2 ^ e) - e).toNat := by
      conv_lhs => rw [← hexp]
      rw [zpow_add₀ two_ne_zero, zpow_natCast, mul_comm q, mul_div_mul_left _ _ (two_zpow_pos e).ne']
    rw [hq]
    exact hd.shiftRight _

theorem shiftToTargetExponent_small {m : ℕ} {e : ℤ} (hm : m < 2 ^ 53) (he : -1074 ≤ e) :
    shiftToTargetExponent .binary64 m e .exact = (⟨m, false, false⟩, e) := by
  have hlog : m.log2 ≤ 52 := by
    by_cases h0 : m = 0
    · rw [h0]
      decide
    · have := (Nat.log2_lt h0).mpr hm
      omega
  have hshift : (max ((m.log2 : ℤ) + 1 + e - 53) (-1074) - e).toNat = 0 := by omega
  unfold shiftToTargetExponent shiftToExponent
  dsimp only
  rw [targetExponent_binary64, totalExponent, hshift]
  exact Prod.ext rfl (add_zero e)

theorem shiftToTargetExponent_carry {e : ℤ} (he : -1074 ≤ e) :
    shiftToTargetExponent .binary64 (2 ^ 53) e .exact = (⟨2 ^ 52, false, false⟩, e + 1) := by
  have hlog : (2 ^ 53 : ℕ).log2 = 53 := Nat.log2_two_pow
  have hshift : (max (((2 ^ 53 : ℕ).log2 : ℤ) + 1 + e - 53) (-1074) - e).toNat = 1 := by omega
  unfold shiftToTargetExponent shiftToExponent
  dsimp only
  rw [targetExponent_binary64, totalExponent, hshift]
  rfl

def packedValue? (u : UnpackedFloat) : Option Extended := unpackedValue? (unpack .binary64 (pack .binary64 u))

@[simp] theorem packedValue?_zero (s : Sign) : packedValue? (.zero s) = some (number 0) :=
  congrArg unpackedValue? unpack_packedZero

@[simp] theorem packedValue?_infinity (s : Sign) : packedValue? (.infinity s) = some (infinite s) :=
  congrArg unpackedValue? (unpack_packedInfinity s)

theorem packedValue?_finite {s : Sign} {m : ℕ} {e : ℤ} (hp : 0 < m) (hsmall : m < 2 ^ 53) (hlow : -1074 ≤ e)
    (hnormal : 2 ^ 52 ≤ m ∨ e = -1074) :
    packedValue? (.finite s m e hp) = some (capped (signed s (m * 2 ^ e))) := by
  have hpow := two_zpow_pos e
  by_cases he : e ≤ 971
  · have hc : Canonical m e := ⟨hsmall, hlow, he, hnormal⟩
    rw [packedValue?, unpack_pack_of_canonical hc, capped_signed_of_lt (by positivity) hc.lt_limit]
    rfl
  · have hle : limit ≤ (m : ℚ) * 2 ^ e := by
      have hm : (2 : ℚ) ^ 52 ≤ m := by exact_mod_cast hnormal.resolve_right (by omega)
      calc limit
          = 2 ^ 52 * 2 ^ (972 : ℤ) := limit_eq
        _ ≤ 2 ^ 52 * 2 ^ e :=
          mul_le_mul_of_nonneg_left (zpow_le_zpow_right₀ one_le_two (by omega)) (by positivity)
        _ ≤ m * 2 ^ e := mul_le_mul_of_nonneg_right hm hpow.le
    rw [packedValue?, unpack_pack_of_large (by omega), capped_signed_of_le hle]
    rfl

theorem roundWithAccuracy_of_shift {s : Sign} {m : ℕ} {e d : ℤ} {a : Accuracy} {em : ExtendedMantissa}
    (h : shiftToTargetExponent .binary64 m e a = (em, d)) (hd : -1074 ≤ d)
    (hle : em.roundedMantissa ≤ 2 ^ 53) (hnormal : 2 ^ 52 ≤ em.roundedMantissa ∨ d = -1074) :
    packedValue? (roundWithAccuracy .binary64 s m e a) =
      some (capped (signed s (em.roundedMantissa * 2 ^ d))) := by
  unfold roundWithAccuracy
  rw [h]
  dsimp only
  rcases lt_or_eq_of_le hle with hlt | heq
  · rw [shiftToTargetExponent_small hlt hd]
    by_cases h0 : em.roundedMantissa = 0
    · have hz : signed s 0 = 0 := by
        cases s with
        | negative => exact neg_zero
        | positive => rfl
      rw [dif_pos h0, packedValue?_zero, h0, Nat.cast_zero, zero_mul, hz,
        capped_of_abs_lt (by rw [abs_zero]; exact limit_pos)]
    · rw [dif_neg h0]
      exact packedValue?_finite _ hlt hd hnormal
  · rw [heq, shiftToTargetExponent_carry hd]
    have hcarry : (((2 ^ 53 : ℕ) : ℚ)) * 2 ^ d = ((2 ^ 52 : ℕ) : ℚ) * 2 ^ (d + 1) := by
      rw [zpow_add_one₀ two_ne_zero]
      push_cast
      ring
    rw [dif_neg (show (2 : ℕ) ^ 52 ≠ 0 by decide), hcarry]
    exact packedValue?_finite _ (show (2 : ℕ) ^ 52 < 2 ^ 53 by decide) (by omega) (Or.inl (le_refl _))

theorem roundWithAccuracy_value {s : Sign} {m : ℕ} {e : ℤ} {a : Accuracy} {q : ℚ} (h0 : 0 < q)
    (hd : Describes (.ofMantissaAndAccuracy m a) q) (h : Ample m e) :
    packedValue? (roundWithAccuracy .binary64 s m e a) = some (nearest (signed s (q * 2 ^ e))) := by
  obtain ⟨em, hshift, hem⟩ := shiftToTargetExponent_describes h0 hd h
  have hpos : 0 < q * 2 ^ e := mul_pos h0 (two_zpow_pos e)
  have hnear := hem.nearestEven
  have hle : em.roundedMantissa ≤ 2 ^ 53 := by
    have := nearestEven_div_grid_le hpos
    rw [hnear] at this
    exact_mod_cast this
  have hnormal : 2 ^ 52 ≤ em.roundedMantissa ∨ grid (q * 2 ^ e) = -1074 := by
    refine (le_nearestEven_div_grid hpos).imp_left ?_
    intro hl
    rw [hnear] at hl
    exact_mod_cast hl
  rw [roundWithAccuracy_of_shift hshift (le_max_right _ _) hle hnormal, nearest, rounded_signed, rounded,
    onGrid, hnear]
  rfl

end PagingGate.Binary64
