import Mathlib.Algebra.Group.Nat.Defs
import PagingGate.Proofs.Json.Numbers

set_option autoImplicit false

namespace PagingGate.Json

open Decimal (natOfDigits withSign)

def Exponent.written (x : Exponent) : Int := if x.sign = ['-'] then -natOfDigits x.digits else natOfDigits x.digits

namespace Literal

def digits (n : Literal) : List Char := n.whole ++ n.fraction

def significand (n : Literal) : Nat := natOfDigits n.digits

def writtenPower (n : Literal) : Int := (n.exponent.map Exponent.written).getD 0

def power (n : Literal) : Int := n.writtenPower - n.fraction.length

/-- A literal that does not look like a whole number, and whose exponent is in reach. -/
structure IsScaled (n : Literal) : Prop where
  real : n.fraction ≠ [] ∨ n.exponent.isSome = true
  small : ∀ x ∈ n.exponent, natOfDigits x.digits ≤ largestExponent

end Literal

theorem le_ofDigitChars (s : Nat) (ds : List Char) : s ≤ Nat.ofDigitChars 10 ds s := by
  rw [Nat.ofDigitChars_eq_ofDigitChars_zero]
  have hpow : 0 < 10 ^ ds.length := Nat.pow_pos (by decide)
  exact (Nat.le_mul_of_pos_left s hpow).trans (Nat.le_add_right _ _)

theorem gather_of_fits {s : Nat} (k : Nat) {ds : List Char} (hds : ∀ c ∈ ds, c.isDigit = true)
    (hfit : Nat.ofDigitChars 10 ds s < 2 ^ 64) : gather s k ds = (Nat.ofDigitChars 10 ds s, k + ds.length, []) := by
  induction ds generalizing s k with
  | nil => rfl
  | cons d ds ih =>
    simp only [List.mem_cons, forall_eq_or_imp] at hds
    have hnext : 10 * s + (d.toNat - '0'.toNat) = s * 10 + digitValue d := by rw [Nat.mul_comm, digitValue]
    rw [Nat.ofDigitChars_cons, hnext] at hfit ⊢
    have hlt : s * 10 + digitValue d < 0x10000000000000000 := (le_ofDigitChars _ ds).trans_lt hfit
    simp only [gather, hds.1, Bool.true_and, decide_eq_true hlt, if_true]
    rw [ih (k + 1) hds.2 hfit, List.length_cons, Nat.add_assoc, Nat.add_comm 1]

namespace Literal

theorem gather_whole {n : Literal} (hfit : n.significand < 2 ^ 64) :
    gather 0 0 n.whole = (natOfDigits n.whole, n.whole.length, []) := by
  have hle : natOfDigits n.whole ≤ n.significand := by
    rw [significand, digits, natOfDigits, natOfDigits, Nat.ofDigitChars_append]
    exact le_ofDigitChars _ _
  have h := gather_of_fits 0 n.isWhole.1.2 (hle.trans_lt hfit)
  rwa [Nat.zero_add] at h

theorem gather_fraction {n : Literal} (hfit : n.significand < 2 ^ 64) :
    gather (natOfDigits n.whole) 0 n.fraction = (n.significand, n.fraction.length, []) := by
  have hsignificand : n.significand = Nat.ofDigitChars 10 n.fraction (natOfDigits n.whole) :=
    Nat.ofDigitChars_append 0
  rw [hsignificand] at hfit ⊢
  have h := gather_of_fits 0 n.isFraction hfit
  rwa [Nat.zero_add] at h

theorem scaledBy_exponent {n : Literal} (h : n.IsScaled) (s : Nat) :
    scaledBy n.exponent n.negative s (-n.fraction.length) = Json.scaled n.negative s n.power := by
  rw [power, writtenPower]
  cases hx : n.exponent with
  | none => rw [scaledBy, Option.map_none, Option.getD_none, Int.zero_sub]
  | some x =>
    rw [scaledBy, Exponent.scaled, if_neg (not_lt.mpr (h.small x hx)), Option.map_some, Option.getD_some,
      Exponent.written]
    congr 1
    split <;> omega

/-- Where no digit is dropped, the significand is scaled by the power that goes with the fraction and the exponent. -/
theorem value_of_real {n : Literal} (hreal : n.fraction ≠ [] ∨ n.exponent.isSome = true) (hfit : n.significand < 2 ^ 64) :
    n.value = scaledBy n.exponent n.negative n.significand (-n.fraction.length) := by
  have hplain : ¬ (True ∧ n.fraction = [] ∧ n.exponent.isNone = true) := by
    rintro ⟨_, hf, hx⟩
    rcases hreal with hreal | hreal
    · exact hreal hf
    · rw [← Option.not_isSome, hreal] at hx
      cases hx
  have hnumber : n.number = (scaledBy n.exponent n.negative n.significand (-n.fraction.length)).map .real := by
    have hzero : ((0 : Nat) : Int) = 0 := rfl
    simp only [number, gather_whole hfit, gather_fraction hfit, if_neg hplain, List.length_nil, hzero, Int.zero_sub]
  rw [value, hnumber]
  cases scaledBy n.exponent n.negative n.significand (-n.fraction.length) <;> rfl

theorem value_of_isScaled {n : Literal} (h : n.IsScaled) (hfit : n.significand < 2 ^ 64) :
    n.value = Json.scaled n.negative n.significand n.power := by
  rw [value_of_real h.real hfit, scaledBy_exponent h]

end Literal

end PagingGate.Json
