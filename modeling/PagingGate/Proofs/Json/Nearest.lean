import PagingGate.Proofs.Json.Finite
import PagingGate.Proofs.Json.Significand

set_option autoImplicit false

namespace PagingGate.Json

open Binary64
open Decimal (exact exact_of_value? exact_withSign natOfDigits value?_neg withSign)
open Float.Model (UnpackedFloat)

namespace Literal

/-- The number that a literal denotes. -/
def exactValue (n : Literal) : ℚ := signed (Decimal.sign n.negative) (n.significand * 10 ^ n.power)

def IsPlain (n : Literal) : Prop := n.fraction = [] ∧ n.exponent = none

/-- Whole numbers, and others with few digits near the point. -/
inductive IsRealistic (n : Literal) : Prop where
  | whole : n.IsPlain → n.significand < 2 ^ 63 → IsRealistic n
  | scaled : n.significand ≤ 2 ^ 53 → n.power.natAbs ≤ 22 → IsRealistic n

/-- The nearest binary64 number, ties to even, with the sign of the literal. -/
structure IsNearest (n : Literal) (x : Float) : Prop where
  value_eq : value? x = some (nearest n.exactValue)
  sign_eq : ∃ m e, exact x = .finite n.negative m e

end Literal

structure IsUnsigned (q : ℚ) (x : Float) : Prop where
  nonneg : 0 ≤ q
  value_eq : value? x = some (nearest q)
  sign_eq : ∃ m e, exact x = .finite false m e

variable {f x : Float} {q : ℚ} {s : ℕ} {p : ℤ} {n : Literal}

theorem isUnsigned_of_pos (h0 : 0 ≤ q) (hlt : rounded q < limit) (hpos : 0 < rounded q)
    (hx : value? x = some (number (rounded q))) : IsUnsigned q x :=
  ⟨h0, hx.trans (congrArg some (nearest_of_rounded_lt h0 hlt).symm), exact_of_value? hx hpos⟩

theorem isUnsigned_zero (hx : exact x = .finite false 0 0) : IsUnsigned 0 x := by
  refine ⟨le_rfl, ?_, 0, 0, hx⟩
  have hvalue := Decimal.value?_of_exact hx
  rw [Nat.cast_zero, zero_mul] at hvalue
  exact hvalue.trans (congrArg some nearest_zero.symm)

theorem IsUnsigned.isNearest (h : IsUnsigned (n.significand * 10 ^ n.power) x) : n.IsNearest (withSign n.negative x) := by
  obtain ⟨m, e, hexact⟩ := h.sign_eq
  refine ⟨?_, m, e, exact_withSign hexact n.negative⟩
  rw [Literal.exactValue]
  cases n.negative with
  | false => exact h.value_eq
  | true => exact value?_neg h.value_eq h.nonneg

theorem isUnsigned_ofNat (h : s < 2 ^ 64) : IsUnsigned s (Float.ofNat s) := by
  rcases Nat.eq_zero_or_pos s with rfl | hs
  · rw [Nat.cast_zero]
    exact isUnsigned_zero (by decide +kernel)
  · have hlt := rounded_natCast_lt_limit h
    have hvalue := value?_ofNat_nearest s
    rw [nearest_of_rounded_lt (Nat.cast_nonneg s) hlt] at hvalue
    exact isUnsigned_of_pos (Nat.cast_nonneg s) hlt (rounded_natCast_pos hs) hvalue

theorem exact_of_zero {u : UnpackedFloat} (hx : x.toModel.unpack = .unpack .binary64 (u.pack .binary64))
    (hu : u = .zero .positive) : exact x = .finite false 0 0 := by
  rw [Decimal.exact_eq_finite_iff, hx, hu]
  exact Or.inl ⟨rfl, rfl, rfl⟩

theorem unpack_of_zero (hf : exact f = .finite false 0 0) : f.toModel.unpack = .zero .positive := by
  rcases Decimal.exact_eq_finite_iff.mp hf with ⟨hu, -⟩ | ⟨hp, -⟩
  · exact hu
  · exact absurd hp (lt_irrefl 0)

section
variable (hf : exact f = .finite false 0 0) (hx : value? x = some (number q)) (h0 : 0 < q)
include hf hx h0

theorem exact_zero_mul : exact (f * x) = .finite false 0 0 := by
  obtain ⟨m, e, hp, hv⟩ := finite_of_pos h0 hx
  refine exact_of_zero (u := .mul .binary64 f.toModel.unpack x.toModel.unpack) rfl ?_
  rw [unpack_of_zero hf, hv]
  rfl

theorem exact_zero_div : exact (f / x) = .finite false 0 0 := by
  obtain ⟨m, e, hp, hv⟩ := finite_of_pos h0 hx
  refine exact_of_zero (u := .div .binary64 f.toModel.unpack x.toModel.unpack) rfl ?_
  rw [unpack_of_zero hf, hv]
  rfl

end

theorem scale_zero (hp : p.natAbs ≤ 308) : ∃ x, scale (Float.ofNat 0) p = .ok x ∧ IsUnsigned 0 x := by
  have hzero : exact (Float.ofNat 0) = .finite false 0 0 := by decide +kernel
  have hten := value?_powerOfTen hp
  rw [scale, if_pos hp]
  split
  · have hmul := exact_zero_mul hzero hten (ten_pos _)
    have hfinite := isInf_of_number (Decimal.value?_of_exact hmul)
    exact ⟨_, by simp only [hfinite, Bool.false_eq_true, if_false], isUnsigned_zero hmul⟩
  · exact ⟨_, rfl, isUnsigned_zero (exact_zero_div hzero hten (ten_pos _))⟩

theorem mul_ten_zpow_le (hs : s ≤ 2 ^ 53) (hp : p.natAbs ≤ 22) : (s : ℚ) * 10 ^ p ≤ 2 ^ (127 : ℤ) := by
  have hs' : (s : ℚ) ≤ 2 ^ 53 := by exact_mod_cast hs
  have hp' : (10 : ℚ) ^ p ≤ 10 ^ (22 : ℤ) := zpow_le_zpow_right₀ (by norm_num) (by omega)
  calc (s : ℚ) * 10 ^ p
      ≤ 2 ^ 53 * 10 ^ (22 : ℤ) := mul_le_mul hs' hp' (by positivity) (by positivity)
    _ ≤ 2 ^ (127 : ℤ) := by norm_num

theorem rounded_mul_ten_zpow_lt (hs : s ≤ 2 ^ 53) (hp : p.natAbs ≤ 22) : rounded (s * 10 ^ p) < limit := by
  have hcap : rounded (2 ^ (127 : ℤ)) = 2 ^ (127 : ℤ) :=
    rounded_of_isPoint ⟨1, 127, by rw [Int.cast_one, one_mul], by decide, by decide⟩
  exact (rounded_mono (mul_ten_zpow_le hs hp)).trans_lt (hcap.trans_lt (zpow_lt_zpow_right₀ one_lt_two (by decide)))

theorem rounded_mul_ten_zpow_pos (hs : 0 < s) (hp : p.natAbs ≤ 22) : 0 < rounded ((s : ℚ) * 10 ^ p) := by
  have hs' : (1 : ℚ) ≤ s := by exact_mod_cast hs
  have hp' : (10 : ℚ) ^ (-22 : ℤ) ≤ 10 ^ p := zpow_le_zpow_right₀ (by norm_num) (by omega)
  refine rounded_pos ?_
  calc underflow
      ≤ 2 ^ (-74 : ℤ) := zpow_le_zpow_right₀ one_le_two (by decide)
    _ < 10 ^ (-22 : ℤ) := by norm_num
    _ ≤ 10 ^ p := hp'
    _ ≤ s * 10 ^ p := le_mul_of_one_le_left (by positivity) hs'

theorem scale_exact (hs : s ≤ 2 ^ 53) (hp : p.natAbs ≤ 22) :
    ∃ x, scale (Float.ofNat s) p = .ok x ∧ IsUnsigned (s * 10 ^ p) x := by
  rcases Nat.eq_zero_or_pos s with rfl | hpos
  · rw [Nat.cast_zero, zero_mul]
    exact scale_zero (by omega)
  · have hlt := rounded_mul_ten_zpow_lt hs hp
    have hexact := unrounded_exact hs hp
    obtain ⟨x, hx, hvalue⟩ := scale_value hpos (hs.trans_lt (by decide)) (by omega) (by omega) (hexact.symm ▸ hlt)
    rw [hexact] at hvalue
    exact ⟨x, hx, isUnsigned_of_pos (by positivity) hlt (rounded_mul_ten_zpow_pos hpos hp) hvalue⟩

theorem isNearest_of_scaled (hs : n.significand ≤ 2 ^ 53) (hp : n.power.natAbs ≤ 22) :
    ∃ x, Json.scaled n.negative n.significand n.power = .ok x ∧ n.IsNearest x := by
  obtain ⟨x, hx, hunsigned⟩ := scale_exact hs hp
  refine ⟨withSign n.negative x, ?_, hunsigned.isNearest⟩
  rw [Json.scaled, hx]
  rfl

theorem toFloat_wholeNumber (negative : Bool) (s : ℕ) :
    (wholeNumber negative s).toFloat = withSign negative (Float.ofNat s) := by
  cases negative with
  | false => rfl
  | true =>
    rw [wholeNumber, if_pos rfl]
    split <;> rfl

namespace Literal

theorem value_of_isPlain (h : n.IsPlain) (hfit : n.significand < 2 ^ 64) :
    n.value = .ok (withSign n.negative (Float.ofNat n.significand)) := by
  obtain ⟨hf, hx⟩ := h
  have hwhole : natOfDigits n.whole = n.significand := by rw [significand, digits, hf, List.append_nil]
  have hplain : ([] : List Char) = [] ∧ n.fraction = [] ∧ n.exponent.isNone = true := ⟨rfl, hf, by rw [hx]; rfl⟩
  have hnumber : n.number = .ok (wholeNumber n.negative n.significand) := by
    rw [number, gather_whole hfit]
    dsimp only
    rw [if_pos hplain, hwhole]
  rw [value, hnumber, ← toFloat_wholeNumber]
  rfl

theorem power_of_isPlain (h : n.IsPlain) : n.power = 0 := by
  rw [power, writtenPower, h.1, h.2]
  rfl

theorem isNearest_of_isPlain (h : n.IsPlain) (hfit : n.significand < 2 ^ 64) : ∃ x, n.value = .ok x ∧ n.IsNearest x := by
  refine ⟨_, value_of_isPlain h hfit, IsUnsigned.isNearest ?_⟩
  rw [power_of_isPlain h, zpow_zero, mul_one]
  exact isUnsigned_ofNat hfit

/-- An exponent that is too long to be looked at belongs to zero. -/
theorem isNearest_of_far {x : Exponent} (hx : n.exponent = some x) (hfar : largestExponent < natOfDigits x.digits)
    (hs : n.significand ≤ 2 ^ 53) (hp : n.power.natAbs ≤ 22) {y : Float} (hy : n.value = .ok y) : n.IsNearest y := by
  have hsign : x.sign ≠ ['-'] := by
    intro hminus
    rw [power, writtenPower, hx, Option.map_some, Option.getD_some, Exponent.written, if_pos hminus] at hp
    rw [largestExponent] at hfar
    omega
  rw [value_of_real (Or.inr (by rw [hx]; rfl)) (hs.trans_lt (by decide)), hx, scaledBy, Exponent.scaled,
    if_pos hfar] at hy
  split at hy
  · cases hy
  · rename_i hzero
    have hs0 : n.significand = 0 := by
      by_contra hne
      exact hzero ⟨hne, hsign⟩
    obtain rfl := Except.ok.inj hy
    refine IsUnsigned.isNearest ?_
    rw [hs0, Nat.cast_zero, zero_mul]
    exact isUnsigned_zero (by decide +kernel)

def IsFar (n : Literal) : Prop := ∃ x, n.exponent = some x ∧ largestExponent < natOfDigits x.digits

theorem IsRealistic.nearest_or_far (h : n.IsRealistic) :
    (∃ x, n.value = .ok x ∧ n.IsNearest x) ∨ n.IsFar ∧ n.significand ≤ 2 ^ 53 ∧ n.power.natAbs ≤ 22 := by
  cases h with
  | whole hplain hs => exact Or.inl (isNearest_of_isPlain hplain (hs.trans (by decide)))
  | scaled hs hp =>
    have hfit : n.significand < 2 ^ 64 := hs.trans_lt (by decide)
    by_cases hreal : n.fraction ≠ [] ∨ n.exponent.isSome = true
    · by_cases hfar : n.IsFar
      · exact Or.inr ⟨hfar, hs, hp⟩
      · have hsmall : ∀ x ∈ n.exponent, natOfDigits x.digits ≤ largestExponent := fun x hx =>
          not_lt.mp fun hlt => hfar ⟨x, hx, hlt⟩
        rw [value_of_isScaled ⟨hreal, hsmall⟩ hfit]
        exact Or.inl (isNearest_of_scaled hs hp)
    · rw [not_or, not_not, Bool.not_eq_true, Option.isSome_eq_false_iff, Option.isNone_iff_eq_none] at hreal
      exact Or.inl (isNearest_of_isPlain hreal hfit)

/-- A realistic literal that has a value has the nearest. -/
theorem IsRealistic.isNearest (h : n.IsRealistic) {x : Float} (hx : n.value = .ok x) : n.IsNearest x := by
  rcases h.nearest_or_far with ⟨y, hy, hnearest⟩ | ⟨⟨e, he, hfar⟩, hs, hp⟩
  · obtain rfl := Except.ok.inj (hx.symm.trans hy)
    exact hnearest
  · exact isNearest_of_far he hfar hs hp hx

/-- It has one, unless the digits behind its point outnumber the exponents that are looked at. -/
theorem IsRealistic.exists_value (h : n.IsRealistic) (hlength : n.fraction.length + 22 ≤ largestExponent) :
    ∃ x, n.value = .ok x := by
  rcases h.nearest_or_far with ⟨x, hx, -⟩ | ⟨⟨e, he, hfar⟩, -, hp⟩
  · exact ⟨x, hx⟩
  · rw [power, writtenPower, he, Option.map_some, Option.getD_some, Exponent.written] at hp
    split at hp <;> omega

end Literal

end PagingGate.Json
