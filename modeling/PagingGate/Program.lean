import PagingGate.CommandLine
import PagingGate.CommandLine.Help
import PagingGate.Configuration
import PagingGate.Gate

set_option autoImplicit false

/-!
# The whole program

One run reads the command line, the settings file and the reports, writes the summary, and ends with a
status, what it prints and what it complains about. Status 0 is a pass or a skip, 1 a failure, 2 a request
that cannot be carried out.
-/

namespace PagingGate

open CommandLine (Environment Format Request Stop)

structure Exit where
  status : Nat
  output : List Char
  complaint : List Char

def line (text : List Char) : List Char := text ++ ['\n']

namespace Exit

def ofStop (env : Environment) : Stop → Exit
  | .help long => ⟨0, env.printed (CommandLine.helpText long env), []⟩
  | .version => ⟨0, CommandLine.versionText, []⟩
  | .misuse m =>
    ⟨2, [], env.printed (line ((Text.styled .error "error:" ++ " " ++ m.message).toList))⟩

def ofConfigurationFault (f : ConfigurationFault) : Exit :=
  ⟨2, [], line ("error: ".toList ++ f.message)⟩

def printed (format : Format) : Outcome → List Char
  | .skipped reason => line (warningCommand reason.message.toList)
  | .evaluated report v =>
    let summary := match format with
      | .markdown => v.summary report.shown
      | .json => v.jsonSummary report.shown
    line summary ++ (v.errorCommand.map line).getD []

def ofOutcome (format : Format) (o : Outcome) : Exit := ⟨o.exitStatus, printed format o, []⟩

def ofWriteFault (output : Path) (fault : FileFault) : Exit :=
  ⟨1, [], line ("Error: ".toList ++ writeFailure output) ++
    "\nCaused by:\n    ".toList ++ line fault.message.toList⟩

end Exit

def FileTree.program (t : FileTree) (words : List String) (env : Environment)
    (now : Time) : Exit × FileTree :=
  match CommandLine.read words env with
  | .error stop => (.ofStop env stop, t)
  | .ok request =>
    match request.resolve t.read with
    | .error fault => (.ofConfigurationFault fault, t)
    | .ok thresholds =>
      match t.run ⟨request.root, request.output, thresholds⟩ now with
      | (.ok outcome, t) => (.ofOutcome request.format outcome, t)
      | (.error fault, t) => (.ofWriteFault request.output fault, t)

end PagingGate
