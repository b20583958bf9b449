import PagingGate.Decimal.Exact
import PagingGate.Decimal.Numeral
import PagingGate.Proofs.Binary64.Value

set_option autoImplicit false

namespace PagingGate.Decimal

open Binary64
open Float.Model (UnpackedFloat)
open Float.Model.UnpackedFloat (Sign)

def sign (negative : Bool) : Sign := if negative then .negative else .positive

@[simp] theorem beq_sign (negative : Bool) : (sign negative == .negative) = negative := by
  cases negative <;> rfl

@[simp] theorem sign_beq (s : Sign) : sign (s == .negative) = s := by
  cases s <;> rfl

variable {x y : Float} {negative : Bool} {m m' : ℕ} {e e' : ℤ}

theorem exact_eq_finite_iff : exact x = .finite negative m e ↔
    (x.toModel.unpack = .zero (sign negative) ∧ m = 0 ∧ e = 0) ∨
      ∃ hp : 0 < m, x.toModel.unpack = .finite (sign negative) m e hp := by
  unfold exact
  cases x.toModel.unpack with
  | notANumber => simp
  | infinity s => simp
  | zero s =>
    simp only [Exact.finite.injEq, UnpackedFloat.zero.injEq, reduceCtorEq, exists_false, or_false]
    constructor
    · rintro ⟨rfl, rfl, rfl⟩
      exact ⟨(sign_beq s).symm, rfl, rfl⟩
    · rintro ⟨rfl, rfl, rfl⟩
      exact ⟨beq_sign negative, rfl, rfl⟩
  | finite s n d hn =>
    simp only [Exact.finite.injEq, UnpackedFloat.finite.injEq, reduceCtorEq, false_and, false_or]
    constructor
    · rintro ⟨rfl, rfl, rfl⟩
      exact ⟨hn, (sign_beq s).symm, rfl, rfl⟩
    · rintro ⟨hp, rfl, rfl, rfl⟩
      exact ⟨beq_sign negative, rfl, rfl⟩

theorem canonical_of_exact (h : exact x = .finite negative m e) (hm : 0 < m) : Canonical m e := by
  rcases exact_eq_finite_iff.mp h with ⟨_, rfl, _⟩ | ⟨hp, hu⟩
  · exact absurd hm (lt_irrefl 0)
  · exact canonical_of_unpack hu

theorem exists_exact (h : x.isFinite) : ∃ negative m e, exact x = .finite negative m e := by
  change x.toModel.unpack.isFinite = true at h
  unfold exact
  cases hu : x.toModel.unpack with
  | notANumber => rw [hu] at h; cases h
  | infinity s => rw [hu] at h; cases h
  | zero s => exact ⟨_, _, _, rfl⟩
  | finite s m e hp => exact ⟨_, _, _, rfl⟩

theorem value?_of_exact (h : exact x = .finite negative m e) :
    value? x = some (number (signed (sign negative) (m * 2 ^ e))) := by
  unfold value?
  rcases exact_eq_finite_iff.mp h with ⟨hu, rfl, rfl⟩ | ⟨hp, hu⟩
  · rw [hu, Nat.cast_zero, zero_mul]
    cases negative <;> rfl
  · rw [hu]
    rfl

theorem rational_of_exact (h : exact x = .finite negative m e) : rational x = signed (sign negative) (m * 2 ^ e) :=
  (isFinite_of_value? (value?_of_exact h)).2

theorem abs_rational_of_exact (h : exact x = .finite negative m e) : |rational x| = m * 2 ^ e := by
  rw [rational_of_exact h, abs_signed]
  have := two_zpow_pos e
  positivity

theorem eq_of_toBitVec (h : x.toModel.toBits.toBitVec = y.toModel.toBits.toBitVec) : x = y := by
  obtain ⟨⟨⟨b⟩, hb⟩⟩ := x
  obtain ⟨⟨⟨c⟩, hc⟩⟩ := y
  obtain rfl : b = c := h
  rfl

theorem exact_injective (hx : exact x = .finite negative m e) (hy : exact y = .finite negative m e) : x = y := by
  refine eq_of_toBitVec ?_
  rcases exact_eq_finite_iff.mp hx with ⟨hux, rfl, rfl⟩ | ⟨hp, hux⟩
  · rcases exact_eq_finite_iff.mp hy with ⟨huy, _, _⟩ | ⟨hp, _⟩
    · exact unpack_injective_of_zero hux huy
    · exact absurd hp (lt_irrefl 0)
  · rcases exact_eq_finite_iff.mp hy with ⟨_, rfl, _⟩ | ⟨_, huy⟩
    · exact absurd hp (lt_irrefl 0)
    · exact unpack_injective_of_finite hux huy

theorem eq_of_abs_rational (hx : exact x = .finite negative m e) (hy : exact y = .finite negative m' e')
    (h : |rational x| = |rational y|) : x = y := by
  rw [abs_rational_of_exact hx, abs_rational_of_exact hy] at h
  have hzero : ∀ {n : ℕ} {d : ℤ}, (n : ℚ) * 2 ^ d = 0 → n = 0 := by
    intro n d hn
    exact_mod_cast (mul_eq_zero.mp hn).resolve_right (two_zpow_pos d).ne'
  have hexponent : ∀ {z : Float} {n : ℕ} {d : ℤ}, exact z = .finite negative n d → n = 0 → d = 0 := by
    intro z n d hz hn
    rcases exact_eq_finite_iff.mp hz with ⟨_, _, hd⟩ | ⟨hp, _⟩
    · exact hd
    · omega
  rcases Nat.eq_zero_or_pos m with hm | hm
  · have hm' : m' = 0 := hzero (h.symm.trans (by rw [hm, Nat.cast_zero, zero_mul]))
    have he := hexponent hx hm
    have he' := hexponent hy hm'
    subst hm hm' he he'
    exact exact_injective hx hy
  · rcases Nat.eq_zero_or_pos m' with hm' | hm'
    · have := hzero (h.trans (by rw [hm', Nat.cast_zero, zero_mul]))
      omega
    · obtain ⟨rfl, rfl⟩ := (canonical_of_exact hx hm).eq_of_value (canonical_of_exact hy hm') h
      exact exact_injective hx hy

theorem exact_of_value? {q : ℚ} (h : value? x = some (number q)) (h0 : 0 < q) :
    ∃ m e, exact x = .finite false m e := by
  rcases zero_or_finite h with ⟨s, _, rfl⟩ | ⟨s, m, e, hp, hu, rfl⟩
  · exact absurd h0 (lt_irrefl 0)
  · cases s with
    | negative => exact absurd h0 (not_lt.mpr (signed_neg hp e).le)
    | positive => exact ⟨m, e, exact_eq_finite_iff.mpr (Or.inr ⟨hp, hu⟩)⟩

theorem exact_withSign (h : exact x = .finite false m e) (negative : Bool) :
    exact (withSign negative x) = .finite negative m e := by
  cases negative with
  | false => exact h
  | true =>
    change exact (-x) = _
    have hneg : (-x).toModel.unpack = Float.Model.UnpackedFloat.unpack .binary64
        (Float.Model.UnpackedFloat.pack .binary64 x.toModel.unpack.neg) := rfl
    rw [exact_eq_finite_iff, hneg]
    rcases exact_eq_finite_iff.mp h with ⟨hu, rfl, rfl⟩ | ⟨hp, hu⟩
    · rw [hu]
      exact Or.inl ⟨rfl, rfl, rfl⟩
    · rw [hu]
      exact Or.inr ⟨hp, unpack_pack_of_canonical (canonical_of_exact h hp)⟩

end PagingGate.Decimal
