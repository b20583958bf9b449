import PagingGate.Discovery
import PagingGate.Report.Reader

set_option autoImplicit false

namespace PagingGate

abbrev Content := Except FileFault (List UInt8)

inductive LoadFault where
  | unreadable (fault : FileFault)
  | malformed (error : Json.Error)

def LoadFault.message (path : Path) : LoadFault → List Char
  | .unreadable fault =>
    "failed to read report ".toList ++ path.shown ++ ": ".toList ++ fault.message.toList
  | .malformed error => "malformed report ".toList ++ path.shown ++ ": ".toList ++ error.message

def textOf (content : Content) : Except FileFault String :=
  match content with
  | .error e => .error e
  | .ok bytes =>
    match Text.decode? bytes with
    | some cs => .ok (String.ofList cs)
    | none => .error .invalidText

def loadReport (content : Content) : Except LoadFault Report :=
  match textOf content with
  | .error e => .error (.unreadable e)
  | .ok text =>
    match Report.ofJson text with
    | .error e => .error (.malformed e)
    | .ok r => .ok r

def loadPair (content : Content) : Except LoadFault (Option MeasurementPair) :=
  (loadReport content).map fun r => measurementPair? r.entries

def usablePair? (content : Content) : Option MeasurementPair :=
  match loadPair content with
  | .ok pair => pair
  | .error _ => none

def firstUsable? (read : Path → Content) (paths : List Path) : Option (Path × MeasurementPair) :=
  paths.findSome? fun p => (usablePair? (read p)).map (p, ·)

end PagingGate
