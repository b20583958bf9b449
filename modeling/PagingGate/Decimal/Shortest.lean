import PagingGate.Decimal.Exact

set_option autoImplicit false

/-!
# Shortest decimal digits

Around each binary64 number lies the interval of reals that round to it. The shortest digits are the
point of the coarsest decimal grid that has a point in that interval; of two points the nearer, and of
two equally near ones the even one.
-/

namespace PagingGate.Decimal

/-- The reals that round to one positive number, in units of `2 ^ unit`. The ends belong to the
interval when the mantissa is even. -/
structure RoundingInterval where
  low : Nat
  middle : Nat
  high : Nat
  unit : Int
  closed : Bool
  deriving DecidableEq, Repr

def roundingInterval (m : Nat) (e : Int) : RoundingInterval where
  low := 4 * m - (if m = 0x10000000000000 ∧ -1074 < e then 1 else 2)
  middle := 4 * m
  high := 4 * m + 2
  unit := e - 2
  closed := m % 2 = 0

/-- The multiple of `10 ^ k` in the interval that is nearest to its middle, in units of `10 ^ k`. -/
def RoundingInterval.onGrid (i : RoundingInterval) (k : Int) : Option Nat :=
  let (twos, halves) := twoPow i.unit
  let (tens, tenths) := tenPow k
  let p := twos * tenths
  let q := halves * tens
  let d := i.middle * p / q
  let within := fun (x y : Nat) => decide (x < y) || (i.closed && decide (x = y))
  let below := within (i.low * p) (d * q)
  let above := within ((d + 1) * q) (i.high * p)
  if below && above then
    let twice := 2 * (i.middle * p)
    let half := (2 * d + 1) * q
    some (if twice < half then d else if half < twice then d + 1 else d + d % 2)
  else if below then some d
  else if above then some (d + 1)
  else none

/-- The exponents of the decimal grids, coarsest first: none coarser than the first has a point near
a binary64 number, and the last is finer than every interval. -/
def gridExponents : List Int := (List.range 652).map fun (i : Nat) => 309 - (i : Int)

/-- Shortest digits of `m * 2 ^ e` as `(d, k)` with value `d * 10 ^ k`. -/
def shortest (m : Nat) (e : Int) : Nat × Int :=
  let i := roundingInterval m e
  (gridExponents.findSome? fun k => (i.onGrid k).map (·, k)).getD (0, 0)

structure Layout where
  window : Option (Int × Int)

def Layout.positional (l : Layout) (e : Int) : Bool :=
  match l.window with
  | none => true
  | some (lowest, highest) => decide (lowest ≤ e) && decide (e ≤ highest)

def positionalText (digits : List Char) (k : Int) : List Char :=
  let point := (digits.length : Int) + k
  if 0 ≤ k then digits ++ List.replicate k.toNat '0' ++ ".0".toList
  else if 0 < point then digits.take point.toNat ++ '.' :: digits.drop point.toNat
  else "0.".toList ++ List.replicate (-point).toNat '0' ++ digits

def scientificText (digits : List Char) (e : Int) : List Char :=
  let mantissa := match digits with
    | [] => []
    | [d] => [d]
    | d :: rest => d :: '.' :: rest
  mantissa ++ 'e' :: (if 0 ≤ e then '+' else '-') :: Nat.toDigits 10 e.natAbs

def Layout.text (l : Layout) (d : Nat) (k : Int) : List Char :=
  let digits := Nat.toDigits 10 d
  let e := (digits.length : Int) - 1 + k
  if l.positional e then positionalText digits k else scientificText digits e

def Layout.finiteText (l : Layout) (negative : Bool) (m : Nat) (e : Int) : List Char :=
  let text := if m = 0 then "0.0".toList else
    let (d, k) := shortest m e
    l.text d k
  if negative then '-' :: text else text

def jsonLayout : Layout := ⟨some (-5, 15)⟩

def plainLayout : Layout := ⟨none⟩

end PagingGate.Decimal
