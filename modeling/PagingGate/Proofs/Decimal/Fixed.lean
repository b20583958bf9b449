import PagingGate.Decimal.Exact
import PagingGate.Proofs.Decimal.Digits
import PagingGate.Proofs.Decimal.Exact

set_option autoImplicit false

namespace PagingGate.Decimal

open Binary64
open Float.Model (UnpackedFloat)
open Float.Model.UnpackedFloat

theorem nearestEven_div (n : ℕ) {d : ℕ} (hd : 0 < d) : nearestEven ((n : ℚ) / d) = roundHalfEven n d := by
  have hd' : (0 : ℚ) < d := Nat.cast_pos.mpr hd
  have hmod : (d : ℚ) * (n / d : ℕ) + (n % d : ℕ) = n := by exact_mod_cast Nat.div_add_mod n d
  have hlt : ((n % d : ℕ) : ℚ) < d := Nat.cast_lt.mpr (Nat.mod_lt n hd)
  unfold roundHalfEven
  dsimp only
  generalize n / d = a at hmod ⊢
  generalize n % d = r at hmod hlt ⊢
  have hquotient : (n : ℚ) / d = a + r / d := by
    rw [← hmod, add_div, mul_div_cancel_left₀ _ hd'.ne']
  have hlow : (0 : ℚ) ≤ r / d := div_nonneg (Nat.cast_nonneg r) hd'.le
  have hhigh : (r : ℚ) / d < 1 := (div_lt_one hd').mpr hlt
  have hfloor : ⌊(n : ℚ) / d⌋ = a := by
    rw [hquotient, Int.floor_eq_iff, Int.cast_natCast]
    constructor <;> linarith
  have hrest : (n : ℚ) / d - (a : ℤ) = r / d := by
    rw [hquotient, Int.cast_natCast, add_sub_cancel_left]
  have hbelow : (r : ℚ) / d < 1 / 2 ↔ 2 * r < d := by
    rw [div_lt_div_iff₀ hd' two_pos, one_mul, mul_comm]
    exact_mod_cast Iff.rfl
  have habove : 1 / 2 < (r : ℚ) / d ↔ d < 2 * r := by
    rw [div_lt_div_iff₀ two_pos hd', one_mul, mul_comm (r : ℚ)]
    exact_mod_cast Iff.rfl
  unfold nearestEven
  rw [hfloor, hrest, if_congr hbelow rfl rfl, if_congr habove rfl rfl]
  push_cast
  rfl

theorem twoPow_div (e : ℤ) : ((twoPow e).1 : ℚ) / (twoPow e).2 = 2 ^ e := by
  unfold twoPow
  dsimp only
  rw [Nat.pow_eq, Nat.pow_eq]
  push_cast
  rcases le_total 0 e with h | h
  · have hneg : (-e).toNat = 0 := by omega
    rw [hneg, pow_zero, div_one, ← zpow_natCast, Int.toNat_of_nonneg h]
  · have hpos : e.toNat = 0 := by omega
    rw [hpos, pow_zero, one_div, ← zpow_natCast, Int.toNat_of_nonneg (by omega), zpow_neg, inv_inv]

theorem fixedUnits_eq (places m : ℕ) (e : ℤ) :
    (fixedUnits places m e : ℤ) = nearestEven (m * 2 ^ e * 10 ^ places) := by
  have hpos : 0 < (twoPow e).2 := Nat.pow_pos two_pos
  have hquotient : (m : ℚ) * 2 ^ e * 10 ^ places =
      ((m * (twoPow e).1 * Nat.pow 10 places : ℕ) : ℚ) / (twoPow e).2 := by
    rw [← twoPow_div, Nat.pow_eq]
    push_cast
    ring
  rw [hquotient, nearestEven_div _ hpos]
  rfl

def signBit (x : Float) : Bool := x.toBits.toBitVec.msb

theorem ofBitVec_unpackSign (b : BitVec 64) : Sign.ofBitVec (@unpackSign .binary64 b) = sign b.msb := by
  have hbit : @unpackSign .binary64 b = BitVec.ofBool b.msb := by
    refine BitVec.eq_of_getLsbD_eq fun i hi => ?_
    obtain rfl : i = 0 := by omega
    rw [BitVec.msb_eq_getLsbD_last, BitVec.getLsbD_ofBool, unpackSign, BitVec.getLsbD_cast,
      BitVec.getLsbD_extractLsb]
    rfl
  rw [hbit]
  cases b.msb <;> rfl

theorem sign_injective {a b : Bool} (h : sign a = sign b) : a = b := by
  cases a <;> cases b <;> first | rfl | cases h

variable {x : Float} {negative : Bool} {m : ℕ} {e : ℤ}

theorem signBit_of_exact (h : exact x = .finite negative m e) : signBit x = negative := by
  refine sign_injective ((ofBitVec_unpackSign _).symm.trans ?_)
  rcases exact_eq_finite_iff.mp h with ⟨hu, _⟩ | ⟨_, hu⟩
  · exact (fields_of_zero hu).1
  · exact (fields_of_unpack hu).1

theorem sign_of_infinity {b : BitVec 64} {s : Sign} (h : unpack .binary64 b = .infinity s) :
    Sign.ofBitVec (@unpackSign .binary64 b) = s := by
  unfold unpack at h
  simp only at h
  split at h
  · split at h
    · exact UnpackedFloat.infinity.inj h
    · cases h
  · split at h
    · split at h <;> cases h
    · cases h

theorem exact_of_infinity {s : Sign} (h : x.toModel.unpack = .infinity s) : exact x = .infinite (signBit x) := by
  obtain rfl : s = sign (signBit x) := (sign_of_infinity h).symm.trans (ofBitVec_unpackSign _)
  rw [exact, h]
  exact congrArg Exact.infinite (beq_sign _)

def signText (negative : Bool) : List Char := if negative then ['-'] else []

theorem fixed_of_exact (places : ℕ) (h : exact x = .finite negative m e) :
    fixed places x = signText negative ++ placed places (fixedUnits places m e) := by
  rw [fixed, h]
  cases negative <;> rfl

theorem placed_zero (n : ℕ) : placed 0 n = Nat.toDigits 10 n := by
  have hpos : 0 < (Nat.toDigits 10 n).length := Nat.length_toDigits_pos
  have hpadded : padded 0 n = Nat.toDigits 10 n := by
    rw [padded, Nat.zero_add, Nat.sub_eq_zero_of_le hpos]
    rfl
  rw [placed, hpadded, if_pos rfl, Nat.sub_zero, List.take_length]

theorem fixed_zero_of_isFinite (h : x.isFinite) :
    fixed 0 x = signText (signBit x) ++ Nat.toDigits 10 (nearestEven (rational x)).natAbs := by
  obtain ⟨negative, m, e, hx⟩ := exists_exact h
  have hunits : (fixedUnits 0 m e : ℤ) = nearestEven |rational x| := by
    rw [fixedUnits_eq, abs_rational_of_exact hx, pow_zero, mul_one]
  have habs : fixedUnits 0 m e = (nearestEven (rational x)).natAbs := by
    rw [← Int.natAbs_natCast (fixedUnits 0 m e), hunits]
    rcases abs_cases (rational x) with ⟨hr, _⟩ | ⟨hr, _⟩
    · rw [hr]
    · rw [hr, nearestEven_neg, Int.natAbs_neg]
  rw [fixed_of_exact 0 hx, signBit_of_exact hx, placed_zero, habs]

end PagingGate.Decimal
