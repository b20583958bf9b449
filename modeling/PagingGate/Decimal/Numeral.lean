set_option autoImplicit false

namespace PagingGate.Decimal

/-- `± digits * 10 ^ exponent`. -/
structure Numeral where
  negative : Bool
  digits : Nat
  exponent : Int
  deriving DecidableEq, Repr

def withSign (negative : Bool) (x : Float) : Float := if negative then -x else x

def Numeral.toFloat (n : Numeral) : Float :=
  withSign n.negative (Float.ofScientific n.digits (n.exponent < 0) n.exponent.natAbs)

def splitSign : List Char → Bool × List Char
  | '-' :: cs => (true, cs)
  | '+' :: cs => (false, cs)
  | cs => (false, cs)

def splitDigits (cs : List Char) : List Char × List Char :=
  (cs.takeWhile Char.isDigit, cs.dropWhile Char.isDigit)

def natOfDigits (cs : List Char) : Nat := Nat.ofDigitChars 10 cs 0

def readExponent? : List Char → Option Int
  | [] => some 0
  | c :: cs =>
    if c = 'e' ∨ c = 'E' then
      let (negative, rest) := splitSign cs
      let (digits, rest) := splitDigits rest
      if digits = [] ∨ rest ≠ [] then none
      else
        let n : Int := natOfDigits digits
        some (if negative then -n else n)
    else none

/-- Digits with an optional point and exponent. One side of the point may be empty. -/
def readUnsigned? (negative : Bool) (cs : List Char) : Option Numeral :=
  let (whole, rest) := splitDigits cs
  let (fraction, rest) := match rest with
    | '.' :: rest => splitDigits rest
    | _ => ([], rest)
  if whole = [] ∧ fraction = [] then none
  else (readExponent? rest).map fun e =>
    ⟨negative, natOfDigits (whole ++ fraction), e - fraction.length⟩

def readWord? (negative : Bool) (cs : List Char) : Option Float :=
  let word := cs.map Char.toLower
  if word = "inf".toList ∨ word = "infinity".toList then some (withSign negative (1 / 0))
  else if word = "nan".toList then some (0 / 0)
  else none

def readFloat? (cs : List Char) : Option Float :=
  let (negative, rest) := splitSign cs
  (readWord? negative rest).or ((readUnsigned? negative rest).map Numeral.toFloat)

end PagingGate.Decimal

namespace PagingGate.Text

def hexValue? (c : Char) : Option Nat :=
  if c.isDigit then some (c.toNat - '0'.toNat)
  else if 'a' ≤ c ∧ c ≤ 'f' then some (c.toNat - 'a'.toNat + 10)
  else if 'A' ≤ c ∧ c ≤ 'F' then some (c.toNat - 'A'.toNat + 10)
  else none

def hexNumber? (cs : List Char) : Option Nat :=
  cs.foldlM (fun n c => (hexValue? c).map (n * 16 + ·)) 0

end PagingGate.Text
