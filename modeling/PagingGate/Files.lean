import PagingGate.Program

set_option autoImplicit false

/-!
# A run over any files

A run asks little of the files it works on, and this is all of it. With the answers of a tree it is
`FileTree.program`, and with those of the system it is the command.
-/

namespace PagingGate

open CommandLine (Environment)

structure Files (m : Type → Type) where
  isThere : Path → m Bool
  /-- The names in a directory, each with whether it is a directory itself, and not a link to one. There are
  none in what is no directory, or cannot be read. -/
  listing : Path → m (List (Name × Bool))
  fileTime? : Path → m (Option Time)
  read : Path → m Content
  write : Path → List UInt8 → m (Except FileFault Unit)

namespace Files

variable {m : Type → Type} [Monad m] (files : Files m)

/-- The paths below a directory that are no directories, as far down as `depth`. -/
def pathsBelow : Nat → Path → m (List Path)
  | 0, _ => pure []
  | depth + 1, dir => do
    let names ← files.listing dir
    let found ← names.mapM fun n =>
      if n.2 then pathsBelow depth (dir.join [n.1]) else pure [dir.join [n.1]]
    pure found.flatten

def foundFile? (p : Path) : m (Option FoundFile) := do
  let modified ← files.fileTime? p
  pure (modified.map (⟨p, ·⟩))

/-- Longer paths lead nowhere, so no way down has more names than the longest path has bytes. -/
def filesUnder (root : Path) : m (Option (List FoundFile)) := do
  if ← files.isThere root then
    let paths ← files.pathsBelow maxPathLength root
    let found ← (root :: paths).mapM files.foundFile?
    pure (some (found.filterMap id))
  else pure none

def readAll (paths : List Path) : m (Path → Content) := do
  let contents ← paths.mapM fun p => do
    let content ← files.read p
    pure (p, content)
  pure fun p => (contents.lookup p).getD (.error .notFound)

def run (o : GateOptions) : m (Except FileFault Outcome) := do
  let found := Discovery.ofFiles (← files.filesUnder o.root)
  let read ← files.readAll found.paths
  let outcome := Outcome.ofDiscovery found read o.thresholds
  match outcome.summary? with
  | none => pure (.ok outcome)
  | some summary =>
    let written ← files.write o.output (Text.encode summary)
    pure (written.map fun _ => outcome)

def program (words : List String) (env : Environment) : m Exit :=
  match CommandLine.read words env with
  | .error stop => pure (.ofStop env stop)
  | .ok request => do
    let read ← files.readAll request.config.toList
    match request.resolve read with
    | .error fault => pure (.ofConfigurationFault fault)
    | .ok thresholds =>
      match ← files.run ⟨request.root, request.output, thresholds⟩ with
      | .ok outcome => pure (.ofOutcome request.format outcome)
      | .error fault => pure (.ofWriteFault request.output fault)

end Files

namespace FileTree

def listing (t : FileTree) (dir : Path) : List (Name × Bool) :=
  match t.locate dir with
  | .error _ => []
  | .ok l => t.entries.filterMap fun e =>
    if e.1.dropLast = l then e.1.getLast?.map (·, decide (e.2 = .directory)) else none

def files (now : Time) : Files (StateM FileTree) where
  isThere p := do return (← get).locate p matches .ok _
  listing dir := do return (← get).listing dir
  fileTime? p := do return (← get).fileTime? p
  read p := do return (← get).read p
  write p content := do
    match (← get).write p content now with
    | .ok t =>
      set t
      pure (.ok ())
    | .error fault => pure (.error fault)

end FileTree
end PagingGate
