import PagingGate.Decimal.Exact
import PagingGate.Verdict

set_option autoImplicit false

/-!
# How a verdict is told

The markdown summary is what is kept as an artifact. The JSON summary holds the same figures for
programs. Workflow commands are single lines that a build server shows as errors and warnings.
-/

namespace PagingGate

def groupDigits : List Char → List Char
  | [] => []
  | c :: cs =>
    if cs ≠ [] ∧ cs.length % 3 = 0 then c :: ',' :: groupDigits cs else c :: groupDigits cs

/-- A number rounded to a whole one, in groups of three digits; `inf`, `-inf` and `NaN` otherwise. -/
def groupThousands (x : Float) : List Char :=
  match Decimal.fixed 0 x with
  | '-' :: digits => '-' :: (if digits.all Char.isDigit then groupDigits digits else digits)
  | digits => if digits.all Char.isDigit then groupDigits digits else digits

def percentText (x : Float) : List Char := Decimal.fixed 2 x ++ ['%']

namespace Verdict

def checkWord (v : Verdict) : List Char :=
  if v.underMinimum then "skipped".toList else "applied".toList

def summaryLines (v : Verdict) (path : List Char) : List (List Char) :=
  ["# Adaptive Paging Allocation Delta".toList,
   [],
   "Report: `".toList ++ path ++ "`".toList,
   "Fixed Alloc (B/op): ".toList ++ groupThousands v.fixed,
   "Adaptive Alloc (B/op): ".toList ++ groupThousands v.adaptive,
   "Delta: ".toList ++ percentText v.delta ++ " (threshold ".toList ++ percentText v.threshold ++
     ")".toList,
   "Min Bytes Threshold: ".toList ++ groupThousands v.minBytes ++ " B/op (check ".toList ++
     v.checkWord ++ ")".toList,
   "Result: **".toList ++ v.status.word.toList ++ "**".toList]

def summary (v : Verdict) (path : List Char) : List Char :=
  (v.summaryLines path).flatMap (· ++ ['\n'])

def jsonSummary (v : Verdict) (path : List Char) : List Char :=
  Json.prettyObject (("report", Json.stringText (String.ofList path)) :: v.members)

def errorCommand (v : Verdict) : Option (List Char) :=
  match v.status with
  | .pass => none
  | .fail => some ("::error::Adaptive allocations exceed fixed by ".toList ++ percentText v.delta ++
      " (> ".toList ++ percentText v.threshold ++ ")".toList)

end Verdict

def warningCommand (message : List Char) : List Char := "::warning::".toList ++ message

end PagingGate
