import PagingGate.Proofs.Json.Scaling
import PagingGate.Proofs.Json.Written

set_option autoImplicit false

/-!
# Reading back what was written

The digits that are written for a number lie next to it, but a reader that scales a rounded significand by a rounded
power of ten may miss it. It stays within three units in the last place and keeps the sign; with few enough digits
it finds the number itself.
-/

namespace PagingGate.Json

open Binary64
open Decimal (exact roundingInterval withSign)

section
variable {m s : ℕ} {e p : ℤ}

theorem le_of_contains {q : ℚ} (h : Canonical m e) (hq : (roundingInterval m e).Contains q) : q ≤ 2 ^ 53 * 2 ^ e := by
  have hhigh := hq.le_high
  rw [Decimal.high_mul] at hhigh
  have hsmall : (m : ℚ) + 1 ≤ 2 ^ 53 := by exact_mod_cast h.small
  exact hhigh.trans (mul_le_mul_of_nonneg_right (by linarith) (two_zpow_pos e).le)

theorem underflow_le (he : -1074 ≤ e) : underflow ≤ 2 ^ e / 2 := by
  rw [underflow, ← zpow_sub_one₀ two_ne_zero e |>.trans (div_eq_mul_inv _ _).symm]
  exact zpow_le_zpow_right₀ one_le_two (by omega)

theorem abs_unrounded_sub_le (hs : 0 < s) (hlow : -330 ≤ p) :
    |unrounded s p - s * 10 ^ p| ≤ 35 / 16 * roundoff * (s * 10 ^ p) + underflow / 8 := by
  have hunderflow := underflow_pos
  rcases lt_or_ge p (-308) with hp | hp
  · exact abs_unrounded_sub_le_of_low hs hp hlow
  · rcases lt_or_ge p 0 with hneg | hnonneg
    · linarith [abs_unrounded_sub_le_of_neg hs hneg hp]
    · linarith [abs_unrounded_sub_le_of_nonneg hs hnonneg]

/-- Two roundings make two units at most, and the digits are half a unit off. -/
theorem abs_unrounded_sub_le_of_contains (h : Canonical m e) (hm : 0 < m) (hs : 0 < s) (hlow : -330 ≤ p)
    (hq : (roundingInterval m e).Contains (s * 10 ^ p)) : |unrounded s p - m * 2 ^ e| ≤ 11 / 4 * 2 ^ e := by
  have hcomputed := abs_unrounded_sub_le hs hlow
  have hdigits := Decimal.abs_sub_le_of_contains hm hq
  have hunderflow := underflow_le h.low
  have hunit : roundoff * (s * 10 ^ p) ≤ 2 ^ e := by
    calc roundoff * (s * 10 ^ p)
        ≤ roundoff * (2 ^ 53 * 2 ^ e) := mul_le_mul_of_nonneg_left (le_of_contains h hq) roundoff_pos.le
      _ = 2 ^ e := by
        rw [roundoff]
        field_simp
  calc |unrounded s p - m * 2 ^ e|
      ≤ |unrounded s p - s * 10 ^ p| + |(s : ℚ) * 10 ^ p - m * 2 ^ e| := abs_sub_le _ _ _
    _ ≤ 11 / 4 * 2 ^ e := by linarith

theorem underflow_lt_unrounded (he : -1074 ≤ e) (hs : 0 < s) (hlow : -330 ≤ p) (hq : 3 / 4 * 2 ^ e ≤ (s : ℚ) * 10 ^ p) :
    underflow < unrounded s p := by
  have hcomputed := (abs_le.mp (abs_unrounded_sub_le hs hlow)).1
  have hunderflow := underflow_le he
  have hpos := two_zpow_pos e
  have hsmall : 35 / 16 * roundoff * (s * 10 ^ p) ≤ 1 / 64 * (s * 10 ^ p) := by
    refine mul_le_mul_of_nonneg_right ?_ (by positivity)
    rw [roundoff]
    norm_num
  linarith

end

namespace Literal

variable {n : Literal} {negative : Bool} {m : ℕ} {e : ℤ}

theorem shortest_least : Decimal.shortest 1 (-1074) = (5, -324) := by decide +kernel

theorem least_le : (3 : ℚ) / 4 * 2 ^ (-1074 : ℤ) ≤ 5 * 10 ^ (-324 : ℤ) := by
  have hnat : 3 * 10 ^ 324 ≤ 20 * 2 ^ 1074 := by decide +kernel
  have hrat : 3 * (10 : ℚ) ^ (324 : ℤ) ≤ 20 * 2 ^ (1074 : ℤ) := by exact_mod_cast hnat
  rw [zpow_neg, zpow_neg, ← div_eq_mul_inv, ← div_eq_mul_inv, div_le_div_iff₀ (by positivity) (by positivity)]
  generalize (10 : ℚ) ^ (324 : ℤ) = t at hrat ⊢
  generalize (2 : ℚ) ^ (1074 : ℤ) = u at hrat ⊢
  linarith

/-- The digits of the least number are known, and others lie above the lower half of their interval. -/
theorem Shows.three_quarters_le (h : n.Shows negative m e) (hc : Canonical m e) (hm : 0 < m) :
    3 / 4 * 2 ^ e ≤ (n.significand : ℚ) * 10 ^ n.power := by
  rcases (Nat.succ_le_of_lt hm).eq_or_lt with rfl | hm2
  · obtain rfl : e = -1074 := hc.normal.resolve_left (by decide)
    obtain ⟨j, hs, hp⟩ := h.shortest hm
    rw [shortest_least] at hs hp
    have hlow := h.low
    obtain rfl : j = 0 := by omega
    have hpower : (-324 : ℤ) - (0 : ℕ) = -324 := by decide
    rw [hs, hp, hpower, pow_zero, mul_one]
    exact least_le
  · have hlow := (h.contains hm).2.low_le
    rw [Decimal.low_mul hm] at hlow
    have hm' : (2 : ℚ) ≤ m := by exact_mod_cast hm2
    refine le_trans (mul_le_mul_of_nonneg_right ?_ (two_zpow_pos e).le) hlow
    split_ifs <;> linarith

section
variable (h : n.Shows negative m e)
include h

theorem Shows.le_power : -330 ≤ n.power := by
  have := h.low
  omega

variable (hc : Canonical m e) (hm : 0 < m)
include hc hm

theorem Shows.underflow_lt : underflow < unrounded n.significand n.power :=
  underflow_lt_unrounded hc.low (h.contains hm).1 h.le_power (h.three_quarters_le hc hm)

theorem Shows.abs_rounded_sub_le : |rounded (unrounded n.significand n.power) - m * 2 ^ e| ≤ 3 * 2 ^ e := by
  obtain ⟨hs, hq⟩ := h.contains hm
  exact abs_rounded_sub_le_three hc (underflow_pos.trans (h.underflow_lt hc hm))
    (abs_unrounded_sub_le_of_contains hc hm hs h.le_power hq)

end

theorem shortest_top : ∀ i : Fin 4,
    Decimal.shortest (2 ^ 53 - 1 - i.val) 971 = (17976931348623157 - 2 * i.val, 292) := by
  decide +kernel

theorem product_top : ∀ i : Fin 4, (Float.ofNat (17976931348623157 - 2 * i.val) * powerOfTen 292).isInf = false := by
  decide +kernel

theorem rounded_lt_limit_of_isInf {s : ℕ} (hs : s < 2 ^ 57) {k : ℕ} (hk : k ≤ 308)
    (h : (Float.ofNat s * powerOfTen k).isInf = false) : rounded (rounded s * ten k) < limit := by
  by_contra hlarge
  have hvalue := value?_mul_of_pos (value?_significand hs) (value?_powerOfTen hk) (ten_pos k)
  have htop : nearest (rounded s * ten k) = infinite .positive := by
    have hl := limit_pos
    rw [nearest, capped, if_neg (by linarith), if_pos (not_lt.mp hlarge)]
    rfl
  rw [lift_number, htop] at hvalue
  change (Float.ofNat s * powerOfTen k).toModel.unpack.isInf = false at h
  rw [infinity_of_value? hvalue] at h
  cases h

theorem three_above_lt_limit (hc : Canonical m e) (h : ¬ (e = 971 ∧ 2 ^ 53 - 4 ≤ m)) :
    ((m : ℚ) + 3) * 2 ^ e < limit := by
  have hpos := two_zpow_pos e
  rcases hc.high.eq_or_lt with rfl | he
  · have hm : (m : ℚ) + 3 < 2 ^ 53 := by
      have : m + 3 < 2 ^ 53 := by omega
      exact_mod_cast this
    have hlimit : limit = 2 ^ 53 * 2 ^ (971 : ℤ) := by
      rw [limit, ← zpow_natCast, ← zpow_add₀ two_ne_zero]
      rfl
    rw [hlimit]
    exact mul_lt_mul_of_pos_right hm hpos
  · have hm : (m : ℚ) + 3 < 2 ^ 54 := by
      have : m + 3 < 2 ^ 54 := by have := hc.small; omega
      exact_mod_cast this
    calc ((m : ℚ) + 3) * 2 ^ e
        < 2 ^ 54 * 2 ^ e := mul_lt_mul_of_pos_right hm hpos
      _ ≤ 2 ^ 54 * 2 ^ (970 : ℤ) :=
        mul_le_mul_of_nonneg_left (zpow_le_zpow_right₀ one_le_two (by omega)) (by positivity)
      _ = limit := by
        rw [limit, ← zpow_natCast, ← zpow_add₀ two_ne_zero]
        rfl

theorem Shows.rounded_lt_limit_of_top (h : n.Shows negative m 971) (hsmall : m < 2 ^ 53) (hlarge : 2 ^ 53 - 4 ≤ m) :
    rounded (unrounded n.significand n.power) < limit := by
  obtain ⟨i, rfl⟩ : ∃ i : Fin 4, m = 2 ^ 53 - 1 - i := ⟨⟨2 ^ 53 - 1 - m, by omega⟩, by simp only; omega⟩
  have hi := i.isLt
  obtain ⟨j, hsignificand, hpower⟩ := h.shortest (by omega)
  rw [shortest_top i] at hsignificand hpower
  cases j with
  | succ j =>
    -- One more digit would not fit.
    have hten : 10 ≤ 10 ^ (j + 1) := Nat.le_self_pow (by omega) 10
    have hle := Nat.mul_le_mul_left (17976931348623157 - 2 * i.val) hten
    have hfit := h.small
    rw [← hsignificand] at hle
    omega
  | zero =>
    have hlast : n.power = 292 := hpower
    rw [pow_zero, mul_one] at hsignificand
    rw [hsignificand, hlast]
    exact rounded_lt_limit_of_isInf (by omega) (by decide) (product_top i)

theorem Shows.rounded_lt_limit (h : n.Shows negative m e) (hc : Canonical m e) (hm : 0 < m) :
    rounded (unrounded n.significand n.power) < limit := by
  by_cases htop : e = 971 ∧ 2 ^ 53 - 4 ≤ m
  · obtain ⟨rfl, hlarge⟩ := htop
    exact h.rounded_lt_limit_of_top hc.small hlarge
  · have hhigh := (abs_le.mp (h.abs_rounded_sub_le hc hm)).2
    linarith [three_above_lt_limit hc htop]

/-- What a number comes back as, once it has been written as this literal. -/
structure Rereads (n : Literal) (x y : Float) : Prop where
  signed : ∃ negative m e m' e', exact x = .finite negative m e ∧ exact y = .finite negative m' e'
  value : |rational y| = rounded (unrounded n.significand n.power)
  near : |rational y - rational x| ≤ 3 * 2 ^ grid (rational x)
  same_iff : y = x ↔ rounded (unrounded n.significand n.power) = |rational x|
  same_of_zero : rational x = 0 → y = x
  same_of_short : n.significand ≤ 2 ^ 53 → n.power.natAbs ≤ 22 → y = x

theorem abs_signed_sub (s : Float.Model.UnpackedFloat.Sign) (a b : ℚ) :
    |Binary64.signed s a - Binary64.signed s b| = |a - b| := by
  cases s with
  | negative =>
    change |-a - -b| = |a - b|
    rw [← abs_neg, neg_sub, sub_neg_eq_add, neg_add_eq_sub]
  | positive => rfl

theorem scale_zero : scale (Float.ofNat 0) (-1) = .ok 0 := by
  have hzero : Float.ofNat 0 / powerOfTen 1 = 0 := by decide +kernel
  rw [scale, if_pos (by decide), if_neg (by decide)]
  exact congrArg Except.ok hzero

theorem rounded_unrounded_zero : rounded (unrounded 0 (-1)) = 0 := by
  rw [unrounded_exact (by decide) (by decide), Nat.cast_zero, zero_mul, rounded_zero]

theorem Shows.rounded_of_zero (h : n.Shows negative m e) (hm : m = 0) :
    rounded (unrounded n.significand n.power) = m * 2 ^ e := by
  obtain ⟨hs, hp⟩ := h.zero hm
  rw [hs, hp, rounded_unrounded_zero, hm, Nat.cast_zero, zero_mul]

theorem Shows.scale (h : n.Shows negative m e) (hc : 0 < m → Canonical m e) : ∃ z m' e',
    Json.scale (Float.ofNat n.significand) n.power = .ok z ∧ exact z = .finite false m' e' ∧
      (m' : ℚ) * 2 ^ e' = rounded (unrounded n.significand n.power) := by
  rcases Nat.eq_zero_or_pos m with hm | hm
  · obtain ⟨hs, hp⟩ := h.zero hm
    rw [hs, hp]
    exact ⟨0, 0, 0, scale_zero, rfl, by rw [rounded_unrounded_zero, Nat.cast_zero, zero_mul]⟩
  · obtain ⟨z, hz, hvalue⟩ := scale_value (h.contains hm).1 h.small h.le_power h.high
      (h.rounded_lt_limit (hc hm) hm)
    have hpos := rounded_pos (h.underflow_lt (hc hm) hm)
    obtain ⟨m', e', hexact⟩ := Decimal.exact_of_value? hvalue hpos
    refine ⟨z, m', e', hz, hexact, ?_⟩
    rw [← Decimal.abs_rational_of_exact hexact, (isFinite_of_value? hvalue).2, abs_of_pos hpos]

theorem Shows.near (h : n.Shows negative m e) (hc : 0 < m → Canonical m e) :
    |rounded (unrounded n.significand n.power) - m * 2 ^ e| ≤ 3 * 2 ^ grid (m * 2 ^ e) := by
  rcases Nat.eq_zero_or_pos m with hm | hm
  · have := two_zpow_pos (grid (m * 2 ^ e))
    rw [h.rounded_of_zero hm, sub_self, abs_zero]
    positivity
  · rw [(hc hm).grid_eq hm]
    exact h.abs_rounded_sub_le (hc hm) hm

theorem Shows.rounded_of_short (h : n.Shows negative m e) (hc : 0 < m → Canonical m e) (hs : n.significand ≤ 2 ^ 53)
    (hp : n.power.natAbs ≤ 22) : rounded (unrounded n.significand n.power) = m * 2 ^ e := by
  rcases Nat.eq_zero_or_pos m with hm | hm
  · exact h.rounded_of_zero hm
  · rw [unrounded_exact hs hp, Decimal.rounded_of_contains hm (hc hm) (h.contains hm).2]

theorem Shows.rereads (h : n.Shows negative m e) {x : Float} (hx : exact x = .finite negative m e) :
    ∃ y, n.value = .ok y ∧ n.Rereads x y := by
  have hc := Decimal.canonical_of_exact hx
  obtain ⟨z, m', e', hz, hexact, hvalue⟩ := h.scale hc
  have hy := Decimal.exact_withSign hexact negative
  refine ⟨withSign negative z, ?_, ?_⟩
  · have hfit : n.significand < 2 ^ 64 := h.small.trans (by decide)
    rw [value_of_isScaled h.isScaled hfit, Json.scaled, hz, h.negative_eq]
    rfl
  · have habs : |rational (withSign negative z)| = rounded (unrounded n.significand n.power) :=
      (Decimal.abs_rational_of_exact hy).trans hvalue
    have hsame : withSign negative z = x ↔ rounded (unrounded n.significand n.power) = |rational x| := by
      constructor
      · rintro rfl
        exact habs.symm
      · exact fun heq => Decimal.eq_of_abs_rational hy hx (habs.trans heq)
    refine ⟨⟨negative, m, e, m', e', hx, hy⟩, habs, ?_, hsame, fun hzero => hsame.mpr ?_, fun hs hp => hsame.mpr ?_⟩
    · have hgrid : grid (rational x) = grid (m * 2 ^ e) := by
        rw [Decimal.rational_of_exact hx]
        cases negative with
        | true => exact grid_neg _
        | false => rfl
      rw [hgrid, Decimal.rational_of_exact hy, Decimal.rational_of_exact hx, abs_signed_sub, hvalue]
      exact h.near hc
    · have hm : (m : ℚ) * 2 ^ e = 0 := by rw [← Decimal.abs_rational_of_exact hx, hzero, abs_zero]
      have hm0 : m = 0 := by exact_mod_cast (mul_eq_zero.mp hm).resolve_right (two_zpow_pos e).ne'
      rw [h.rounded_of_zero hm0, Decimal.abs_rational_of_exact hx]
    · rw [h.rounded_of_short hc hs hp, Decimal.abs_rational_of_exact hx]

end Literal

end PagingGate.Json
