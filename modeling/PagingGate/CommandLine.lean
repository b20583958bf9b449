import PagingGate.CommandLine.Options
import PagingGate.Decimal.Numeral

set_option autoImplicit false

/-!
# Reading the command line

Words are read from left to right. The value of an option may stand in the same word or in the next one;
in the next one it is checked only when another option or the end follows. A word that means nothing is
refused at once, before such a value is checked.
-/

namespace PagingGate.CommandLine

def readNumber (p : Parameter) (text : String) : Except Misuse Float :=
  match Decimal.readFloat? text.toList with
  | some x => .ok x
  | none => .error (.notANumber p text)

/-- Paths may not be empty. -/
def readPath (p : Parameter) (text : String) : Except Misuse Path :=
  if text = "" then .error (.missingValue p) else .ok (.ofString text)

def readFormat (text : String) : Except Misuse Format :=
  match Format.ofText? text with
  | some f => .ok f
  | none => .error (if text = "" then .missingValue .format else .unknownFormat text)

namespace Draft

def has (d : Draft) : Parameter → Bool
  | .root => d.root.isSome
  | .output => d.output.isSome
  | .maxPercent => d.maxPercent.isSome
  | .minBytes => d.minBytes.isSome
  | .config => d.config.isSome
  | .format => d.format.isSome

def set (d : Draft) (p : Parameter) (text : String) : Except Misuse Draft :=
  match p with
  | .root => (readPath p text).map fun v => { d with root := some v }
  | .output => (readPath p text).map fun v => { d with output := some v }
  | .maxPercent => (readNumber p text).map fun v => { d with maxPercent := some v }
  | .minBytes => (readNumber p text).map fun v => { d with minBytes := some v }
  | .config => (readPath p text).map fun v => { d with config := some v }
  | .format => (readFormat text).map fun v => { d with format := some v }

/-- No option may be given twice. -/
def store (d : Draft) (p : Parameter) (text : String) : Except Misuse Draft :=
  if d.has p then .error (.repeated p) else d.set p text

end Draft

inductive Word where
  | long (name : String) (value : Option String)
  | short (letter : Char)
  | plain (text : String)
  deriving DecidableEq, Repr

def longWord (cs : List Char) : Word :=
  let name := String.ofList (cs.takeWhile (· ≠ '='))
  match cs.dropWhile (· ≠ '=') with
  | [] => .long name none
  | _ :: value => .long name (some (String.ofList value))

/-- A dash alone is a plain word. Behind one dash only the first letter counts. -/
def Word.ofString (s : String) : Word :=
  match s.toList with
  | '-' :: '-' :: cs => longWord cs
  | '-' :: c :: _ => .short c
  | _ => .plain s

structure Reading where
  draft : Draft
  pending : Option (Parameter × Option String)

namespace Reading

def start : Reading := ⟨.empty, none⟩

def settle (r : Reading) : Except Misuse Draft :=
  match r.pending with
  | none => .ok r.draft
  | some (p, none) => .error (.missingValue p)
  | some (p, some text) => r.draft.store p text

def takeParameter (r : Reading) (p : Parameter) (value : Option String) : Except Misuse Reading := do
  let draft ← r.settle
  match value with
  | none => pure ⟨draft, some (p, none)⟩
  | some text => pure ⟨← draft.store p text, none⟩

def takeFlag (r : Reading) (f : Flag) (long : Bool) : Except Stop Reading := do
  let draft ← r.settle.mapError Stop.misuse
  match f with
  | .debug =>
    if draft.debug then .error (.misuse (.repeatedFlag .debug))
    else pure ⟨{ draft with debug := true }, none⟩
  | .help => .error (.help long)
  | .version => .error .version

def takeLong (r : Reading) (name : String) (value : Option String) : Except Stop Reading :=
  match Parameter.ofName? name, Flag.ofName? name with
  | some p, _ => (r.takeParameter p value).mapError Stop.misuse
  | none, some f =>
    match value with
    | some text => .error (.misuse (.unwantedValue f text))
    | none => r.takeFlag f true
  | none, none => .error (.misuse (.unknown ("--" ++ name)))

def takeShort (r : Reading) (letter : Char) : Except Stop Reading :=
  if letter = 'h' then r.takeFlag .help false
  else if letter = 'V' then r.takeFlag .version false
  else .error (.misuse (.unknown (String.ofList ['-', letter])))

def takePlain (r : Reading) (text : String) : Except Stop Reading :=
  match r.pending with
  | some (p, none) => .ok { r with pending := some (p, some text) }
  | _ => .error (.misuse (.unknown text))

def take (r : Reading) (word : String) : Except Stop Reading :=
  match Word.ofString word with
  | .long name value => r.takeLong name value
  | .short letter => r.takeShort letter
  | .plain text => r.takePlain text

/-- Two dashes end the options, and nothing else may follow. -/
def takeAll (r : Reading) : List String → Except Stop Reading
  | [] => .ok r
  | word :: words =>
    if word = "--" then
      match words with
      | [] => .ok r
      | next :: _ => .error (.misuse (.unknown next))
    else
      match r.take word with
      | .error e => .error e
      | .ok r => r.takeAll words

end Reading

def readWords (words : List String) : Except Stop Draft := do
  let r ← Reading.start.takeAll words
  r.settle.mapError Stop.misuse

/-- A variable is looked at only if the option is absent. -/
def readVariable (p : Parameter) (given : Option Float) (text : Option String) :
    Except Misuse (Option Float) :=
  match given, text with
  | some x, _ => .ok (some x)
  | none, none => .ok none
  | none, some text => (readNumber p text).map some

def read (words : List String) (env : Environment) : Except Stop Request := do
  let d ← readWords words
  let maxPercent ←
    (readVariable .maxPercent d.maxPercent (env Thresholds.maxPercentVariable)).mapError
      Stop.misuse
  let minBytes ←
    (readVariable .minBytes d.minBytes (env Thresholds.minBytesVariable)).mapError Stop.misuse
  pure
    { root := d.root.getD (.ofString defaultRoot)
      output := d.output.getD (.ofString defaultOutput)
      thresholds := ⟨maxPercent, minBytes⟩
      config := d.config
      format := d.format.getD .markdown
      debug := d.debug }

end PagingGate.CommandLine
