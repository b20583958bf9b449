import PagingGate.Json.Text
import PagingGate.Thresholds

set_option autoImplicit false

/-!
# The verdict on a pair of measurements

Adaptive paging may allocate more than fixed paging by at most a given percentage. The comparison does
not apply when both allocate less than a given number of bytes.
-/

namespace PagingGate

structure Measurement where
  method : String
  perOperation : Float

structure MeasurementPair where
  fixed : Measurement
  adaptive : Measurement

inductive Status where
  | pass
  | fail
  deriving DecidableEq, Repr

def Status.word : Status → String
  | .pass => "PASS"
  | .fail => "FAIL"

structure Verdict where
  fixed : Float
  adaptive : Float
  delta : Float
  threshold : Float
  minBytes : Float
  underMinimum : Bool
  status : Status

/-- The increase of `adaptive` over `fixed` in percent; infinite when `fixed` is zero. -/
def deltaPercent (fixed adaptive : Float) : Float :=
  if fixed == 0 then 1 / 0 else (adaptive - fixed) / fixed * 100

def isUnderMinimum (fixed adaptive minBytes : Float) : Bool :=
  decide (adaptive < minBytes) && decide (fixed < minBytes)

/-- A delta equal to the threshold passes. -/
def judge (fixed adaptive : Float) (t : Thresholds) : Verdict :=
  let delta := deltaPercent fixed adaptive
  let under := isUnderMinimum fixed adaptive t.minBytes
  { fixed, adaptive, delta
    threshold := t.maxPercent
    minBytes := t.minBytes
    underMinimum := under
    status := if under || decide (delta ≤ t.maxPercent) then .pass else .fail }

def MeasurementPair.judge (p : MeasurementPair) (t : Thresholds) : Verdict :=
  PagingGate.judge p.fixed.perOperation p.adaptive.perOperation t

def Measurement.json (m : Measurement) : List Char :=
  Json.compactObject
    [("method", Json.stringText m.method), ("allocated_per_op", Json.numberText m.perOperation)]

def MeasurementPair.json (p : MeasurementPair) : List Char :=
  Json.compactObject [("fixed", p.fixed.json), ("adaptive", p.adaptive.json)]

def Verdict.members (v : Verdict) : List (String × List Char) :=
  [("fixed_alloc", Json.numberText v.fixed),
   ("adaptive_alloc", Json.numberText v.adaptive),
   ("delta_pct", Json.numberText v.delta),
   ("threshold_pct", Json.numberText v.threshold),
   ("min_bytes", Json.numberText v.minBytes),
   ("under_minimum", Json.flagText v.underMinimum),
   ("status", Json.stringText v.status.word)]

def Verdict.json (v : Verdict) : List Char := Json.compactObject v.members

end PagingGate
