import PagingGate.Proofs.Decimal.Numeral
import PagingGate.Proofs.Json.Numbers
import PagingGate.Proofs.Json.Scaling

set_option autoImplicit false

namespace PagingGate.Json

open Binary64
open Decimal (withSign value?_neg)

/-- A finite number that is not below zero. -/
def IsMagnitude (f : Float) : Prop := ∃ q, 0 ≤ q ∧ value? f = some (number q)

variable {f x : Float}

theorem isMagnitude_of_nearest {q : ℚ} (h0 : 0 ≤ q) (h : value? x = some (nearest q)) (hfit : x.isInf = false) :
    IsMagnitude x := by
  have hlt : |rounded q| < limit := by
    rw [← not_le, ← isInf_of_nearest h, hfit]
    exact Bool.false_ne_true
  exact ⟨rounded q, rounded_nonneg h0, by rw [h, nearest, capped_of_abs_lt hlt]⟩

theorem IsMagnitude.rounded_lt_limit {q : ℚ} (h : value? f = some (number q)) : rounded q < limit := by
  obtain ⟨_, rfl⟩ := isFinite_of_value? h
  rw [rounded_of_isPoint (isPoint_rational f)]
  exact (le_abs_self _).trans_lt (abs_rational_lt_limit f)

theorem IsMagnitude.mul_powerOfTen (h : IsMagnitude f) {n : ℕ} (hn : n ≤ 308)
    (hfit : (f * powerOfTen n).isInf = false) : IsMagnitude (f * powerOfTen n) := by
  obtain ⟨q, h0, hf⟩ := h
  have hvalue := value?_mul_of_pos hf (value?_powerOfTen hn) (ten_pos n)
  rw [lift_number] at hvalue
  exact isMagnitude_of_nearest (mul_nonneg h0 (ten_pos n).le) hvalue hfit

theorem IsMagnitude.div_powerOfTen (h : IsMagnitude f) {n : ℕ} (hn : n ≤ 308) : IsMagnitude (f / powerOfTen n) := by
  obtain ⟨q, h0, hf⟩ := h
  have hvalue := value?_div_of_pos hf (value?_powerOfTen hn) (ten_pos n)
  have hquotient : 0 ≤ q / ten n := div_nonneg h0 (ten_pos n).le
  have hlt : rounded (q / ten n) < limit :=
    (rounded_mono (div_le_self h0 (one_le_ten n))).trans_lt (IsMagnitude.rounded_lt_limit hf)
  rw [lift_number, nearest_of_rounded_lt hquotient hlt] at hvalue
  exact ⟨_, rounded_nonneg hquotient, hvalue⟩

theorem rounded_natCast_lt_limit {s : ℕ} (h : s < 2 ^ 64) : rounded s < limit := by
  have hcap : rounded (2 ^ (64 : ℤ)) = 2 ^ (64 : ℤ) :=
    rounded_of_isPoint ⟨1, 64, by rw [Int.cast_one, one_mul], by decide, by decide⟩
  have hle : (s : ℚ) ≤ 2 ^ (64 : ℤ) := by exact_mod_cast h.le
  exact (rounded_mono hle).trans_lt (hcap.trans_lt (zpow_lt_zpow_right₀ one_lt_two (by decide)))

theorem isMagnitude_ofNat {s : ℕ} (h : s < 2 ^ 64) : IsMagnitude (Float.ofNat s) := by
  have h0 : (0 : ℚ) ≤ s := Nat.cast_nonneg s
  exact ⟨_, rounded_nonneg h0, by rw [value?_ofNat_nearest, nearest_of_rounded_lt h0 (rounded_natCast_lt_limit h)]⟩

theorem IsMagnitude.isFinite_withSign (h : IsMagnitude f) (negative : Bool) : (withSign negative f).isFinite := by
  obtain ⟨q, h0, hf⟩ := h
  cases negative with
  | false => exact (isFinite_of_value? hf).1
  | true =>
    obtain ⟨_, rfl⟩ := isFinite_of_value? hf
    have hnearest : nearest (rational f) = number (rational f) :=
      nearest_of_isPoint (isPoint_rational f) (abs_rational_lt_limit f)
    have hneg : nearest (-rational f) = number (-rational f) :=
      nearest_of_isPoint (isPoint_rational f).neg (by rw [abs_neg]; exact abs_rational_lt_limit f)
    have hvalue := value?_neg (by rw [hf, hnearest]) h0
    rw [hneg] at hvalue
    exact (isFinite_of_value? hvalue).1

theorem IsMagnitude.of_scale {e : Int} (hf : IsMagnitude f) (h : scale f e = .ok x) : IsMagnitude x := by
  fun_induction scale f e with
  | case1 => cases h
  | case2 f e hreach _ y hfit =>
    obtain rfl := Except.ok.inj h
    exact hf.mul_powerOfTen hreach (by simpa using hfit)
  | case3 f e hreach =>
    obtain rfl := Except.ok.inj h
    exact hf.div_powerOfTen hreach
  | case4 =>
    obtain rfl := Except.ok.inj h
    exact hf
  | case5 => cases h
  | case6 f e _ _ _ ih => exact ih (hf.div_powerOfTen le_rfl) h

theorem gather_lt {s : ℕ} (k : ℕ) (ds : List Char) (h : s < 2 ^ 64) : (gather s k ds).1 < 2 ^ 64 := by
  induction ds generalizing s k with
  | nil => exact h
  | cons d ds ih =>
    rw [gather]
    split
    · rename_i hnext
      rw [Bool.and_eq_true, decide_eq_true_iff] at hnext
      exact ih _ hnext.2
    · exact h

section
variable {negative : Bool} {significand : ℕ} {e : Int} (hs : significand < 2 ^ 64)
include hs

theorem isFinite_of_scaled (h : Json.scaled negative significand e = .ok x) : x.isFinite := by
  rw [Json.scaled] at h
  obtain ⟨_, hscale, h⟩ := Except.bind_eq_ok.mp h
  obtain rfl := Except.ok.inj h
  exact ((isMagnitude_ofNat hs).of_scale hscale).isFinite_withSign negative

theorem isFinite_of_scaledBy {exponent : Option Exponent}
    (h : scaledBy exponent negative significand e = .ok x) : x.isFinite := by
  cases exponent with
  | none => exact isFinite_of_scaled hs h
  | some exponent =>
    rw [scaledBy, Exponent.scaled] at h
    split at h
    · split at h
      · cases h
      · rw [← Except.ok.inj h]
        exact IsMagnitude.isFinite_withSign ⟨0, le_rfl, value?_zero⟩ negative
    · exact isFinite_of_scaled hs h

theorem isFinite_wholeNumber : (wholeNumber negative significand).toFloat.isFinite := by
  have hplain := (isMagnitude_ofNat hs).isFinite_withSign
  unfold wholeNumber
  split
  · split
    · exact hplain true
    · exact hplain true
  · exact hplain false

end

/-- Every literal that has a value has a finite one. -/
theorem Literal.isFinite_of_value {n : Literal} (h : n.value = .ok x) : x.isFinite := by
  obtain ⟨number, hn, rfl⟩ := Except.map_eq_ok.mp h
  have hwhole : (gather 0 0 n.whole).1 < 2 ^ 64 := gather_lt 0 n.whole (by decide)
  simp only [Literal.number] at hn
  split at hn
  · rw [← Except.ok.inj hn]
    exact isFinite_wholeNumber hwhole
  · have hall := gather_lt 0 n.fraction hwhole
    obtain ⟨_, hs, rfl⟩ := Except.map_eq_ok.mp hn
    exact isFinite_of_scaledBy hall hs

end PagingGate.Json
