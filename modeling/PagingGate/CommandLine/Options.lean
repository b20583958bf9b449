import PagingGate.FileTree.Path
import PagingGate.Text.Terminal
import PagingGate.Thresholds

set_option autoImplicit false

namespace PagingGate.CommandLine

inductive Parameter where
  | root
  | output
  | maxPercent
  | minBytes
  | config
  | format
  deriving DecidableEq, Repr

inductive Flag where
  | debug
  | help
  | version
  deriving DecidableEq, Repr

inductive Format where
  | markdown
  | json
  deriving DecidableEq, Repr

def Format.ofText? (text : String) : Option Format :=
  if text = "markdown" then some .markdown else if text = "json" then some .json else none

def Parameter.name : Parameter → String
  | .root => "root"
  | .output => "output"
  | .maxPercent => "max-pct"
  | .minBytes => "min-bytes"
  | .config => "config"
  | .format => "format"

def Parameter.placeholder : Parameter → String
  | .root => "DIR"
  | .output => "FILE"
  | .maxPercent => "PCT"
  | .minBytes => "BYTES"
  | .config => "FILE"
  | .format => "FORMAT"

def Flag.name : Flag → String
  | .debug => "debug"
  | .help => "help"
  | .version => "version"

def Parameter.all : List Parameter := [.root, .output, .maxPercent, .minBytes, .config, .format]

def Flag.all : List Flag := [.debug, .help, .version]

def Parameter.ofName? (name : String) : Option Parameter := Parameter.all.find? (·.name = name)

def Flag.ofName? (name : String) : Option Flag := Flag.all.find? (·.name = name)

def Parameter.shown (p : Parameter) : String := "--" ++ p.name ++ " <" ++ p.placeholder ++ ">"

def Flag.shown (f : Flag) : String := "--" ++ f.name

inductive Misuse where
  | unknown (word : String)
  | missingValue (option : Parameter)
  | notANumber (option : Parameter) (value : String)
  | unknownFormat (value : String)
  | repeated (option : Parameter)
  | repeatedFlag (flag : Flag)
  | unwantedValue (flag : Flag) (value : String)
  deriving DecidableEq, Repr

def quoted (style : Text.Style) (s : String) : String := "'" ++ Text.styled style s ++ "'"

def Misuse.message : Misuse → String
  | .unknown word => "unexpected argument " ++ quoted .invalid word ++ " found"
  | .missingValue p =>
    "a value is required for " ++ quoted .invalid p.shown ++ " but none was supplied"
  | .notANumber p value =>
    "invalid value " ++ quoted .invalid value ++ " for " ++ quoted .literal p.shown ++ ": " ++
      (if value = "" then "cannot parse float from empty string" else "invalid float literal")
  | .unknownFormat value =>
    "invalid value " ++ quoted .invalid value ++ " for " ++ quoted .literal Parameter.format.shown
  | .repeated p => "the argument " ++ quoted .invalid p.shown ++ " cannot be used multiple times"
  | .repeatedFlag f => "the argument " ++ quoted .invalid f.shown ++ " cannot be used multiple times"
  | .unwantedValue f value =>
    "unexpected value " ++ quoted .invalid value ++ " for " ++ quoted .literal f.shown ++
      " found; no more were expected"

inductive Stop where
  | misuse (misuse : Misuse)
  | help (long : Bool)
  | version
  deriving DecidableEq, Repr

abbrev Environment := String → Option String

def styledVariable : String := "CLICOLOR_FORCE"
def unstyledVariable : String := "NO_COLOR"

def knownVariables : List String :=
  [Thresholds.maxPercentVariable, Thresholds.minBytesVariable, styledVariable, unstyledVariable]

/-- A variable that is empty counts as one that is not set. -/
def Environment.isSet (env : Environment) (name : String) : Bool := env name != none && env name != some ""

/-- The streams are no terminals: styles are shown only on demand, and not if another variable forbids them. -/
def Environment.showsStyles (env : Environment) : Bool :=
  env.isSet styledVariable && !env.isSet unstyledVariable

def Environment.printed (env : Environment) (text : List Char) : List Char :=
  if env.showsStyles then text else Text.plain text

structure Draft where
  root : Option Path
  output : Option Path
  maxPercent : Option Float
  minBytes : Option Float
  config : Option Path
  format : Option Format
  debug : Bool

def Draft.empty : Draft := ⟨none, none, none, none, none, none, false⟩

structure Request where
  root : Path
  output : Path
  thresholds : ThresholdChoice
  config : Option Path
  format : Format
  debug : Bool

def defaultRoot : String := "benchmarks/BenchmarkDotNet.Artifacts"
def defaultOutput : String := "ADAPTIVE-ALLOC-DELTA.md"

end PagingGate.CommandLine
