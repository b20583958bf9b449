import PagingGate.CommandLine.Options

set_option autoImplicit false

namespace PagingGate.CommandLine

def programName : String := "allocgate"
def programVersion : String := "0.1.0"

def purpose : String := "Fail CI when adaptive paging allocates too much more than fixed paging"

def usage : String :=
  Text.styled .heading "Usage:" ++ " " ++ Text.styled .literal programName ++ " [OPTIONS]"

def optionsHeading : String := Text.styled .heading "Options:"

structure HelpEntry where
  label : String
  short : String
  long : List String

def Parameter.about : Parameter → String
  | .root => "Directory searched recursively for allocation benchmark reports"
  | .output => "Markdown artifact written on every evaluated run"
  | .maxPercent =>
    "Maximum allowed allocation delta of adaptive over fixed, in percent (default: 20)"
  | .minBytes =>
    "Per-operation byte floor below which the relative check is skipped (default: 4096)"
  | .config => "TOML file providing default thresholds"
  | .format => "Stdout format"

def Parameter.source? (env : Environment) : Parameter → Option String
  | .root => some ("[default: " ++ defaultRoot ++ "]")
  | .output => some ("[default: " ++ defaultOutput ++ "]")
  | .maxPercent => some (ofVariable Thresholds.maxPercentVariable)
  | .minBytes => some (ofVariable Thresholds.minBytesVariable)
  | .config => none
  | .format => some "[default: markdown]"
where
  ofVariable (name : String) : String := "[env: " ++ name ++ "=" ++ (env name).getD "" ++ "]"

def Parameter.choices : Parameter → List (String × String)
  | .format =>
    [("markdown", "Markdown report (default, same as the artifact file)"),
     ("json", "JSON verdict for machine parsing")]
  | _ => []

def spaces (n : Nat) : List Char := List.replicate n ' '

def padded (width : Nat) (s : String) : String :=
  s ++ String.ofList (spaces (width - (Text.plain s.toList).length))

def hanging (width : Nat) (s : String) : String :=
  String.ofList (s.toList.flatMap fun c => if c = '\n' then '\n' :: spaces width else [c])

def indented (s : String) : String := String.ofList (spaces 10) ++ hanging 10 s

def Parameter.styled (p : Parameter) : String :=
  Text.styled .literal ("--" ++ p.name) ++ " <" ++ p.placeholder ++ ">"

def choiceNote (p : Parameter) : List String :=
  match p.choices with
  | [] => []
  | cs => ["[possible values: " ++ ", ".intercalate (cs.map (·.1)) ++ "]"]

def choiceLines (p : Parameter) : List String :=
  match p.choices with
  | [] => []
  | cs => "" :: indented "Possible values:" ::
      cs.map fun c => indented ("- " ++ padded 10 (Text.styled .literal c.1 ++ ":") ++ c.2)

def Parameter.helpEntry (env : Environment) (p : Parameter) : HelpEntry where
  label := "    " ++ p.styled
  short := " ".intercalate (p.about :: (p.source? env).toList ++ choiceNote p)
  long := indented p.about :: choiceLines p ++
    (p.source? env).toList.flatMap fun s => [indented "", indented s]

def Flag.helpEntry : Flag → HelpEntry
  | .debug => simple ("    " ++ Text.styled .literal "--debug") "Enable debug logging on stderr"
  | .help => ⟨pair "-h" "--help", "Print help (see more with '--help')",
      [indented "Print help (see a summary with '-h')"]⟩
  | .version => simple (pair "-V" "--version") "Print version"
where
  pair (short long : String) : String := Text.styled .literal short ++ ", " ++ Text.styled .literal long
  simple (label about : String) : HelpEntry := ⟨label, about, [indented about]⟩

def helpEntries (env : Environment) : List HelpEntry :=
  Parameter.all.map (·.helpEntry env) ++ Flag.all.map Flag.helpEntry

def HelpEntry.shortLine (e : HelpEntry) : String :=
  "  " ++ padded 23 e.label ++ "  " ++ hanging 27 e.short

def HelpEntry.paragraph (e : HelpEntry) : List String := ("  " ++ e.label) :: e.long

def shortHelp (env : Environment) : List String :=
  [purpose, "", usage, "", optionsHeading] ++ (helpEntries env).map HelpEntry.shortLine

def longHelp (env : Environment) : List String :=
  [purpose, "", usage, "", optionsHeading] ++
    List.intercalate [""] ((helpEntries env).map HelpEntry.paragraph)

def helpText (long : Bool) (env : Environment) : List Char :=
  (if long then longHelp env else shortHelp env).flatMap fun line => line.toList ++ ['\n']

def versionText : List Char := (programName ++ " " ++ programVersion).toList ++ ['\n']

end PagingGate.CommandLine
