import PagingGate.CommandLine.Options
import PagingGate.Selection
import PagingGate.Thresholds.Reader

set_option autoImplicit false

namespace PagingGate

inductive ConfigurationFault where
  | unreadable (path : Path) (fault : FileFault)
  | refused (path : Path) (error : Settings.Error)
  | threshold (fault : Thresholds.Fault)

def unreadableSettings (path : Path) (fault : FileFault) : List Char :=
  "failed to read config file ".toList ++ path.shown ++ ": ".toList ++ fault.message.toList

/-- What is said of a settings file that is refused does not go into the reason. -/
def ConfigurationFault.message : ConfigurationFault → List Char
  | .unreadable path fault => unreadableSettings path fault
  | .refused path _ => "invalid config file ".toList ++ path.shown
  | .threshold fault => fault.message.toList

def readSettings (path : Path) (content : Content) : Except ConfigurationFault ThresholdChoice :=
  match textOf content with
  | .error e => .error (.unreadable path e)
  | .ok text => (Settings.ofText text).mapError (.refused path)

def settingsLayer (config : Option Path) (read : Path → Content) :
    Except ConfigurationFault (List ThresholdChoice) :=
  match config with
  | none => .ok []
  | some path => (readSettings path (read path)).map ([·])

def CommandLine.Request.resolve (r : Request) (read : Path → Content) :
    Except ConfigurationFault Thresholds := do
  let file ← settingsLayer r.config read
  (Thresholds.resolve (r.thresholds :: file)).mapError .threshold

end PagingGate
