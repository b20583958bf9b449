import PagingGate.Text.Lowercase
import PagingGate.Verdict

set_option autoImplicit false

namespace PagingGate

inductive Strategy where
  | fixed
  | adaptive
  deriving DecidableEq, Repr

def Strategy.word : Strategy → List Char
  | .fixed => "fixed".toList
  | .adaptive => "adaptive".toList

structure Statistics where
  allocatedBytes : Option Float
  operations : Option Float
  allocatedPerOperation : Option Float

structure Entry where
  method : Option String
  displayInfo : Option String
  statistics : Option Statistics

structure Report where
  entries : List Entry

/-- Operations that are missing or zero count as one. -/
def Statistics.operationCount (s : Statistics) : Float :=
  match s.operations with
  | some n => if n == 0 then 1 else n
  | none => 1

/-- Total bytes over operations, or else the figure that is already per operation. -/
def Statistics.perOperation (s : Statistics) : Option Float :=
  match s.allocatedBytes with
  | some total => some (total / s.operationCount)
  | none => s.allocatedPerOperation

def holds (word : List Char) : List Char → Bool
  | [] => word.isEmpty
  | c :: cs => word.isPrefixOf (c :: cs) || holds word cs

/-- The strategy whose word stands in a text that is already in lower case; `fixed` is looked for first. -/
def Strategy.namedIn (text : List Char) : Option Strategy :=
  if holds Strategy.fixed.word text then some .fixed
  else if holds Strategy.adaptive.word text then some .adaptive
  else none

namespace Entry

/-- The method unless it is missing or empty, then the description, then nothing. -/
def label (e : Entry) : String :=
  match e.method with
  | some m => if m = "" then e.displayInfo.getD "" else m
  | none => e.displayInfo.getD ""

def strategy (e : Entry) : Option Strategy := Strategy.namedIn (Text.lowercase e.label)

def perOperation (e : Entry) : Option Float := e.statistics.bind Statistics.perOperation

end Entry

structure Findings where
  fixed : Option Measurement
  adaptive : Option Measurement

namespace Findings

/-- An entry without a value or a strategy changes nothing; any other takes the place of an earlier one. -/
def note (f : Findings) (e : Entry) : Findings :=
  match e.perOperation with
  | none => f
  | some x =>
    match e.strategy with
    | some .fixed => { f with fixed := some ⟨e.label, x⟩ }
    | some .adaptive => { f with adaptive := some ⟨e.label, x⟩ }
    | none => f

def pair? (f : Findings) : Option MeasurementPair := do
  let fixed ← f.fixed
  let adaptive ← f.adaptive
  pure ⟨fixed, adaptive⟩

end Findings

def measurementPair? (entries : List Entry) : Option MeasurementPair :=
  (entries.foldl Findings.note ⟨none, none⟩).pair?

end PagingGate
