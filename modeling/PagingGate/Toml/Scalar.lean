import PagingGate.Decimal.Numeral
import PagingGate.Toml.Value

set_option autoImplicit false

namespace PagingGate.Toml

open Decimal (splitSign withSign)
open Text (hexValue?)

/-- Digits with single underscores between them; the digits alone. -/
def digits? (isDigit : Char → Bool) : List Char → Option (List Char)
  | [] => none
  | [c] => if isDigit c then some [c] else none
  | c :: '_' :: rest => if isDigit c then (digits? isDigit rest).map (c :: ·) else none
  | c :: rest => if isDigit c then (digits? isDigit rest).map (c :: ·) else none

def valueOfDigits (radix : Nat) (digits : List Char) : Nat :=
  digits.foldl (fun n c => n * radix + (hexValue? c).getD 0) 0

/-- A decimal number has no zero in front of other digits. -/
def decimalDigits? (cs : List Char) : Option (List Char) :=
  (digits? Char.isDigit cs).filter fun ds => ds.length = 1 || ds.head? ≠ some '0'

def inRange (n : Int) : Bool := decide (-0x8000000000000000 ≤ n) && decide (n < 0x8000000000000000)

def decimalInteger? (cs : List Char) : Option Int :=
  let (negative, rest) := splitSign cs
  (decimalDigits? rest).map fun ds =>
    if negative then -(valueOfDigits 10 ds : Int) else valueOfDigits 10 ds

def isDigitOf (radix : Nat) (c : Char) : Bool := (hexValue? c).any (· < radix)

def radixInteger? (radix : Nat) (cs : List Char) : Option Int :=
  (digits? (isDigitOf radix) cs).map fun ds => (valueOfDigits radix ds : Int)

/-- Only decimal integers have a sign. -/
def integer? (token : List Char) : Option Int :=
  Option.filter inRange <|
    match token with
    | '0' :: 'x' :: cs => radixInteger? 16 cs
    | '0' :: 'o' :: cs => radixInteger? 8 cs
    | '0' :: 'b' :: cs => radixInteger? 2 cs
    | cs => decimalInteger? cs

def isExponent : List Char → Bool
  | c :: cs => (c = 'e' || c = 'E') && (digits? Char.isDigit (splitSign cs).2).isSome
  | [] => false

def isDigitOrSeparator (c : Char) : Bool := c.isDigit || c = '_'

def isFraction : List Char → Bool
  | '.' :: cs =>
    let rest := cs.dropWhile isDigitOrSeparator
    (digits? Char.isDigit (cs.takeWhile isDigitOrSeparator)).isSome && (rest.isEmpty || isExponent rest)
  | _ => false

def isFloat (cs : List Char) : Bool :=
  let rest := cs.dropWhile isDigitOrSeparator
  (decimalDigits? (cs.takeWhile isDigitOrSeparator)).isSome && (isFraction rest || isExponent rest)

/-- A number too large is refused, but a negative one that is too large is infinite. -/
def float? (token : List Char) : Option Float :=
  let (negative, rest) := splitSign token
  if rest = "inf".toList then some (withSign negative (1 / 0))
  else if rest = "nan".toList then some (withSign negative (0 / 0))
  else if isFloat rest then
    (Decimal.readFloat? (token.filter (· ≠ '_'))).filter fun x => !(x == 1 / 0)
  else none

def twoDigits? (low high : Nat) (a b : Char) : Option Nat :=
  if a.isDigit && b.isDigit then
    Option.filter (fun n => decide (low ≤ n) && decide (n ≤ high)) (some (valueOfDigits 10 [a, b]))
  else none

def isLeapYear (year : Nat) : Bool := year % 4 = 0 && (year % 100 ≠ 0 || year % 400 = 0)

def daysInMonth (year month : Nat) : Nat :=
  if month = 2 then (if isLeapYear year then 29 else 28)
  else if month = 4 || month = 6 || month = 9 || month = 11 then 30
  else 31

def date? : List Char → Option (List Char)
  | y₁ :: y₂ :: y₃ :: y₄ :: '-' :: m₁ :: m₂ :: '-' :: d₁ :: d₂ :: rest => do
    if [y₁, y₂, y₃, y₄].all Char.isDigit then
      let month ← twoDigits? 1 12 m₁ m₂
      let _ ← twoDigits? 1 (daysInMonth (valueOfDigits 10 [y₁, y₂, y₃, y₄]) month) d₁ d₂
      pure rest
    else none
  | _ => none

def secondFraction? : List Char → Option (List Char)
  | '.' :: c :: cs => if c.isDigit then some (cs.dropWhile Char.isDigit) else none
  | '.' :: [] => none
  | cs => some cs

/-- What follows a time at the front. A minute may have a leap second. -/
def time? : List Char → Option (List Char)
  | h₁ :: h₂ :: ':' :: m₁ :: m₂ :: ':' :: s₁ :: s₂ :: rest => do
    let _ ← twoDigits? 0 23 h₁ h₂
    let _ ← twoDigits? 0 59 m₁ m₂
    let _ ← twoDigits? 0 60 s₁ s₂
    secondFraction? rest
  | _ => none

def isOffset : List Char → Bool
  | [] => true
  | ['Z'] | ['z'] => true
  | [s, h₁, h₂, ':', m₁, m₂] =>
    (s = '+' || s = '-') && (twoDigits? 0 23 h₁ h₂).isSome && (twoDigits? 0 59 m₁ m₂).isSome
  | _ => false

def isTimeWithOffset (cs : List Char) : Bool := (time? cs).any isOffset

def isDateTime (token : List Char) : Bool :=
  match date? token with
  | some [] => true
  | some (c :: rest) => (c = 'T' || c = 't') && isTimeWithOffset rest
  | none => time? token = some []

def scalar? (token : List Char) : Option Value :=
  if token = "true".toList then some (.flag true)
  else if token = "false".toList then some (.flag false)
  else if isDateTime token then some .dateTime
  else ((integer? token).map Value.integer).or ((float? token).map Value.float)

def isScalarChar (c : Char) : Bool :=
  c.isAlphanum || c = '+' || c = '-' || c = '_' || c = '.' || c = ':'

def timeBehind? (date : List Char) : List Char → Option (List Char × List Char)
  | ' ' :: c :: rest =>
    if date? date = some [] && c.isDigit then
      some ((c :: rest).takeWhile isScalarChar, (c :: rest).dropWhile isScalarChar)
    else none
  | _ => none

def readScalar (cs : List Char) : Option (Value × List Char) :=
  let token := cs.takeWhile isScalarChar
  let rest := cs.dropWhile isScalarChar
  match timeBehind? token rest with
  | some (time, rest) => if isTimeWithOffset time then some (.dateTime, rest) else none
  | none => (scalar? token).map (·, rest)

theorem scalar?_nil : scalar? [] = none := by
  simp [scalar?, isDateTime, date?, time?, integer?, decimalInteger?, decimalDigits?, digits?, float?,
    splitSign, isFloat]

theorem timeBehind?_length {date cs time rest : List Char} (h : timeBehind? date cs = some (time, rest)) :
    rest.length < cs.length := by
  unfold timeBehind? at h
  split at h
  · split at h
    · simp only [Option.some.injEq, Prod.mk.injEq] at h
      rw [← h.2]
      exact Nat.lt_succ_of_le (List.dropWhile_sublist _).length_le
    · simp at h
  · simp at h

theorem readScalar_length {cs rest : List Char} {v : Value} (h : readScalar cs = some (v, rest)) :
    rest.length < cs.length := by
  have hl := congrArg List.length (List.takeWhile_append_dropWhile (p := isScalarChar) (l := cs))
  rw [List.length_append] at hl
  simp only [readScalar] at h
  split at h
  · rename_i ht
    have := timeBehind?_length ht
    split at h
    · simp only [Option.some.injEq, Prod.mk.injEq] at h
      rw [← h.2]; omega
    · simp at h
  · obtain ⟨_, hs, he⟩ := Option.map_eq_some_iff.1 h
    simp only [Prod.mk.injEq] at he
    cases hc : cs.takeWhile isScalarChar with
    | nil => rw [hc, scalar?_nil] at hs; simp at hs
    | cons c token => rw [hc, List.length_cons] at hl; rw [← he.2]; omega

end PagingGate.Toml
