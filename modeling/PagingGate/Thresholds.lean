set_option autoImplicit false

namespace PagingGate

structure Thresholds where
  maxPercent : Float
  minBytes : Float

/-- What one layer of configuration sets; a layer may leave either number open. -/
structure ThresholdChoice where
  maxPercent : Option Float
  minBytes : Option Float

namespace Thresholds

def defaultMaxPercent : Float := 20
def defaultMinBytes : Float := 4096
def default : Thresholds := ⟨defaultMaxPercent, defaultMinBytes⟩

def maxPercentVariable : String := "ADAPTIVE_ALLOC_MAX_PCT"
def minBytesVariable : String := "ADAPTIVE_ALLOC_MIN_BYTES"

inductive Fault where
  | maxPercentNaN
  | minBytesNaN
  deriving DecidableEq, Repr

def Fault.message : Fault → String
  | .maxPercentNaN => "invalid threshold: max delta percentage must be a number, got NaN"
  | .minBytesNaN => "invalid threshold: min bytes must be a number, got NaN"

/-- Every number is accepted, infinite and negative ones too; only NaN is refused. -/
def validate (t : Thresholds) : Except Fault Unit :=
  if t.maxPercent.isNaN then .error .maxPercentNaN
  else if t.minBytes.isNaN then .error .minBytesNaN
  else .ok ()

/-- The first layer that sets a number decides it, and the default comes last. -/
def select (layers : List ThresholdChoice) : Thresholds where
  maxPercent := (layers.findSome? ThresholdChoice.maxPercent).getD defaultMaxPercent
  minBytes := (layers.findSome? ThresholdChoice.minBytes).getD defaultMinBytes

def resolve (layers : List ThresholdChoice) : Except Fault Thresholds := do
  let t := select layers
  t.validate
  pure t

end Thresholds
end PagingGate
