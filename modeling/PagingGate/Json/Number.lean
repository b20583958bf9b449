import PagingGate.Decimal.Numeral
import PagingGate.Json.Error

set_option autoImplicit false

/-!
# Reading JSON numbers

Digits are gathered in a significand of 64 bits; digits that no longer fit are dropped. The value is the
nearest binary64 number to the significand, scaled by one multiplication or division by a power of ten.
The result is quick to compute, and it is the nearest number only while nothing is dropped and both
the significand and the power of ten are exact.
-/

namespace PagingGate.Json

open Decimal (natOfDigits withSign splitSign)

/-- A number as it was written: a whole number that fits 64 bits stays exact. -/
inductive Number where
  | natural (n : Nat)
  | negative (n : Nat)
  | real (x : Float)

def Number.toFloat : Number → Float
  | .natural n => Float.ofNat n
  | .negative n => -Float.ofNat n
  | .real x => x

def Number.found : Number → Found
  | .natural n => .integer n
  | .negative n => .integer (-(n : Int))
  | .real x => .number x

def digitValue (c : Char) : Nat := c.toNat - '0'.toNat

def powerOfTen (e : Nat) : Float := Float.ofScientific 1 false e

/-- `f * 10 ^ e`, at most one rounding for exponents up to 308. Smaller numbers are divided by
`10 ^ 308` until the exponent is in reach or nothing is left. -/
def scale (f : Float) (e : Int) : Except Error Float :=
  if e.natAbs ≤ 308 then
    if 0 ≤ e then
      let x := f * powerOfTen e.natAbs
      if x.isInf then .error .numberOutOfRange else .ok x
    else .ok (f / powerOfTen e.natAbs)
  else if f == 0 then .ok f
  else if 0 ≤ e then .error .numberOutOfRange
  else scale (f / powerOfTen 308) (e + 308)
termination_by e.natAbs
decreasing_by omega

def scaled (negative : Bool) (significand : Nat) (e : Int) : Except Error Float := do
  let x ← scale (Float.ofNat significand) e
  pure (withSign negative x)

/-- Takes digits from the front while the significand stays below `2 ^ 64`. Gives the significand, how
many digits it took and what follows them. -/
def gather (significand count : Nat) : List Char → Nat × Nat × List Char
  | [] => (significand, count, [])
  | c :: cs =>
    let next := significand * 10 + digitValue c
    if c.isDigit && decide (next < 0x10000000000000000) then gather next (count + 1) cs
    else (significand, count, c :: cs)

/-- The largest exponent that is looked at; a longer one gives zero or is out of range. -/
def largestExponent : Nat := 0x7fffffff

def readExponent (negative : Bool) (significand : Nat) (e : Int) (cs : List Char) :
    Except Error (Float × List Char) :=
  let (down, rest) := splitSign cs
  match rest with
  | [] => .error .endOfValue
  | c :: _ =>
    if c.isDigit then
      let written := natOfDigits (rest.takeWhile Char.isDigit)
      let rest := rest.dropWhile Char.isDigit
      if largestExponent < written then
        if significand ≠ 0 ∧ down = false then .error .numberOutOfRange
        else .ok (withSign negative 0, rest)
      else do
        let x ← scaled negative significand (if down then e - written else e + written)
        pure (x, rest)
    else .error .invalidNumber

def readScale (negative : Bool) (significand : Nat) (e : Int) (cs : List Char) :
    Except Error (Float × List Char) :=
  match cs with
  | c :: rest =>
    if c = 'e' ∨ c = 'E' then readExponent negative significand e rest
    else do
      let x ← scaled negative significand e
      pure (x, c :: rest)
  | [] => do
    let x ← scaled negative significand e
    pure (x, [])

def startsWithDigit : List Char → Bool
  | c :: _ => c.isDigit
  | [] => false

def readFraction (negative : Bool) (significand : Nat) (e : Int) (cs : List Char) :
    Except Error (Float × List Char) :=
  let (significand, count, rest) := gather significand 0 cs
  if startsWithDigit rest then
    readScale negative significand (e - count) (rest.dropWhile Char.isDigit)
  else if count = 0 then .error (if rest = [] then .endOfValue else .invalidNumber)
  else readScale negative significand (e - count) rest

/-- A whole number without fraction and exponent. Minus zero and what lies below the range of 64 bits
are not kept exact. -/
def wholeNumber (negative : Bool) (significand : Nat) : Number :=
  if negative then
    if significand = 0 ∨ 0x8000000000000000 < significand then .real (-Float.ofNat significand)
    else .negative significand
  else .natural significand

def readAfterWhole (negative : Bool) (significand dropped : Nat) (cs : List Char) :
    Except Error (Number × List Char) :=
  match cs with
  | '.' :: rest => do
    let (x, rest) ← readFraction negative significand dropped rest
    pure (.real x, rest)
  | cs =>
    if dropped = 0 ∧ ¬ (cs.head? = some 'e' ∨ cs.head? = some 'E') then
      .ok (wholeNumber negative significand, cs)
    else do
      let (x, rest) ← readScale negative significand dropped cs
      pure (.real x, rest)

def readNumber (negative : Bool) (cs : List Char) : Except Error (Number × List Char) :=
  match cs with
  | [] => .error .endOfValue
  | c :: rest =>
    if c = '0' then
      if startsWithDigit rest then .error .invalidNumber else readAfterWhole negative 0 0 rest
    else if c.isDigit then
      let (significand, _, rest) := gather (digitValue c) 0 rest
      readAfterWhole negative significand (rest.takeWhile Char.isDigit).length
        (rest.dropWhile Char.isDigit)
    else .error .invalidNumber

theorem gather_length (s n : Nat) (cs : List Char) : (gather s n cs).2.2.length ≤ cs.length := by
  induction cs generalizing s n with
  | nil => simp [gather]
  | cons c cs ih =>
    simp only [gather]
    split
    · exact Nat.le_succ_of_le (ih _ _)
    · exact Nat.le_refl _

theorem splitSign_length (cs : List Char) : (splitSign cs).2.length ≤ cs.length := by
  unfold splitSign
  split <;> simp

theorem readExponent_length {negative : Bool} {s : Nat} {e : Int} {cs rest : List Char} {x : Float}
    (h : readExponent negative s e cs = .ok (x, rest)) : rest.length ≤ cs.length := by
  have hs := splitSign_length cs
  simp only [readExponent] at h
  split at h
  · simp at h
  · rename_i c tail hc
    have hd : ((c :: tail).dropWhile Char.isDigit).length ≤ (c :: tail).length := (List.dropWhile_sublist _).length_le
    rw [hc] at hs
    split at h
    · split at h
      · split at h
        · simp at h
        · simp only [Except.ok.injEq, Prod.mk.injEq] at h
          rw [← h.2, hc]; omega
      · obtain ⟨_, _, h⟩ := Except.bind_eq_ok.mp h
        obtain ⟨_, rfl⟩ := Prod.mk.inj (Except.ok.inj h)
        rw [hc]; omega
    · simp at h

theorem readScale_length {negative : Bool} {s : Nat} {e : Int} {cs rest : List Char} {x : Float}
    (h : readScale negative s e cs = .ok (x, rest)) : rest.length ≤ cs.length := by
  simp only [readScale] at h
  split at h
  · split at h
    · exact Nat.le_succ_of_le (readExponent_length h)
    · obtain ⟨_, _, h⟩ := Except.bind_eq_ok.mp h
      obtain ⟨_, rfl⟩ := Prod.mk.inj (Except.ok.inj h)
      exact Nat.le_refl _
  · obtain ⟨_, _, h⟩ := Except.bind_eq_ok.mp h
    obtain ⟨_, rfl⟩ := Prod.mk.inj (Except.ok.inj h)
    exact Nat.le_refl _

theorem readFraction_length {negative : Bool} {s : Nat} {e : Int} {cs rest : List Char} {x : Float}
    (h : readFraction negative s e cs = .ok (x, rest)) : rest.length ≤ cs.length := by
  have hg := gather_length s 0 cs
  simp only [readFraction] at h
  split at h
  · exact Nat.le_trans (readScale_length h) (Nat.le_trans (List.dropWhile_sublist _).length_le hg)
  · split at h
    · simp at h
    · exact Nat.le_trans (readScale_length h) hg

theorem readAfterWhole_length {negative : Bool} {s d : Nat} {cs rest : List Char} {n : Number}
    (h : readAfterWhole negative s d cs = .ok (n, rest)) : rest.length ≤ cs.length := by
  unfold readAfterWhole at h
  split at h
  · obtain ⟨_, hfraction, h⟩ := Except.bind_eq_ok.mp h
    obtain ⟨_, rfl⟩ := Prod.mk.inj (Except.ok.inj h)
    exact Nat.le_succ_of_le (readFraction_length hfraction)
  · split at h
    · simp only [Except.ok.injEq, Prod.mk.injEq] at h
      exact Nat.le_of_eq (by rw [← h.2])
    · obtain ⟨_, hscale, h⟩ := Except.bind_eq_ok.mp h
      obtain ⟨_, rfl⟩ := Prod.mk.inj (Except.ok.inj h)
      exact readScale_length hscale

theorem readNumber_length {negative : Bool} {cs rest : List Char} {n : Number}
    (h : readNumber negative cs = .ok (n, rest)) : rest.length < cs.length := by
  unfold readNumber at h
  split at h
  · simp at h
  · rename_i c tail
    split at h
    · split at h
      · simp at h
      · exact Nat.lt_succ_of_le (readAfterWhole_length h)
    · split at h
      · exact Nat.lt_succ_of_le (Nat.le_trans (readAfterWhole_length h)
          (Nat.le_trans (List.dropWhile_sublist _).length_le (gather_length _ _ _)))
      · simp at h

end PagingGate.Json
