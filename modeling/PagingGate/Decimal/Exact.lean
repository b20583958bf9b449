set_option autoImplicit false

namespace PagingGate.Decimal

/-- What a binary64 number stands for; a finite one is `± mantissa * 2 ^ exponent`. -/
inductive Exact where
  | notANumber
  | infinite (negative : Bool)
  | finite (negative : Bool) (mantissa : Nat) (exponent : Int)
  deriving DecidableEq, Repr

def exact (x : Float) : Exact :=
  match x.toModel.unpack with
  | .notANumber => .notANumber
  | .infinity s => .infinite (s == .negative)
  | .zero s => .finite (s == .negative) 0 0
  | .finite s m e _ => .finite (s == .negative) m e

/-- `2 ^ e` as a numerator and a denominator, one of which is 1. -/
def twoPow (e : Int) : Nat × Nat := (Nat.pow 2 e.toNat, Nat.pow 2 (-e).toNat)

def tenPow (k : Int) : Nat × Nat := (Nat.pow 10 k.toNat, Nat.pow 10 (-k).toNat)

def nonFiniteText : Exact → Option String
  | .notANumber => some "NaN"
  | .infinite negative => some (if negative then "-inf" else "inf")
  | .finite _ _ _ => none

/-- The nearest natural number to `num / den`; of two equally near ones the even one. -/
def roundHalfEven (num den : Nat) : Nat :=
  let q := num / den
  let r := num % den
  if 2 * r < den then q else if den < 2 * r then q + 1 else q + q % 2

def fixedUnits (places mantissa : Nat) (exponent : Int) : Nat :=
  let (p, q) := twoPow exponent
  roundHalfEven (mantissa * p * Nat.pow 10 places) q

def padded (places n : Nat) : List Char :=
  let digits := Nat.toDigits 10 n
  List.replicate (places + 1 - digits.length) '0' ++ digits

def placed (places n : Nat) : List Char :=
  let digits := padded places n
  let whole := digits.take (digits.length - places)
  if places = 0 then whole else whole ++ '.' :: digits.drop (digits.length - places)

/-- A number with `places` decimal places; `inf`, `-inf` and `NaN` otherwise. -/
def fixed (places : Nat) (x : Float) : List Char :=
  match exact x with
  | .notANumber => "NaN".toList
  | .infinite negative => if negative then "-inf".toList else "inf".toList
  | .finite negative m e =>
    let text := placed places (fixedUnits places m e)
    if negative then '-' :: text else text

end PagingGate.Decimal
