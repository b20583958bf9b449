import PagingGate.Proofs.Binary64.Scientific
import PagingGate.Proofs.Decimal.Exact

set_option autoImplicit false

namespace PagingGate.Decimal

open Binary64
open Float.Model (UnpackedFloat)

/-- The number that a numeral stands for. -/
def Numeral.rational (n : Numeral) : ℚ := signed (sign n.negative) (n.digits * 10 ^ n.exponent)

theorem value?_neg {x : Float} {q : ℚ} (h : value? x = some (nearest q)) (h0 : 0 ≤ q) :
    value? (-x) = some (nearest (-q)) := by
  have hneg : value? (-x) = packedValue? x.toModel.unpack.neg := rfl
  rw [hneg, nearest, rounded_neg]
  rcases lt_or_ge (rounded q) limit with hlt | hge
  · rw [nearest, capped_of_abs_lt ((abs_of_nonneg (rounded_nonneg h0)).trans_lt hlt)] at h
    rcases zero_or_finite h with ⟨s, hu, hq⟩ | ⟨s, m, e, hp, hu, hq⟩
    · rw [hu, hq, neg_zero, ← rounded_zero, ← nearest, nearest_zero]
      exact packedValue?_zero (-s)
    · have hc := inForm_unpack x s m e hp hu
      rw [hu, hq, ← signed_neg_sign]
      exact packedValue?_finite hp hc.small hc.low hc.normal
  · have htop : nearest q = infinite .positive := capped_signed_of_le (s := .positive) hge
    rw [htop] at h
    rw [infinity_of_value? h]
    exact (packedValue?_infinity .negative).trans (congrArg some (capped_signed_of_le (s := .negative) hge).symm)

theorem value?_ofScientific (d : ℕ) (e : ℤ) :
    value? (Float.ofScientific d (e < 0) e.natAbs) = some (nearest (d * 10 ^ e)) := by
  rcases lt_or_ge e 0 with he | he
  · rw [decide_eq_true he, mul_ten_zpow_of_neg he]
    exact value?_ofScientific_down d (by omega)
  · rw [decide_eq_false (not_lt.mpr he), ten_zpow_of_nonneg he]
    exact value?_ofScientific_up d e.natAbs

theorem Numeral.value?_toFloat (n : Numeral) : value? n.toFloat = some (nearest n.rational) := by
  have hvalue := value?_ofScientific n.digits n.exponent
  obtain ⟨negative, d, e⟩ := n
  cases negative with
  | false => exact hvalue
  | true => exact value?_neg hvalue (by positivity)

theorem value?_ofInt (n : ℤ) : value? (Float.ofInt n) = some (nearest n) := by
  cases n with
  | ofNat n => exact value?_ofNat_nearest n
  | negSucc n =>
    rw [Int.cast_negSucc]
    exact value?_neg (value?_ofNat_nearest (n + 1)) (by positivity)

end PagingGate.Decimal
