import PagingGate.FileTree

set_option autoImplicit false

namespace PagingGate

structure FoundFile where
  path : Path
  modified : Time
  deriving DecidableEq, Repr

namespace FileTree

def isBelow (base l : Location) : Bool := base.isPrefixOf l && l ≠ base

/-- The paths of the root, which leads to `base`, and of all files and links under it. -/
def pathsUnder (t : FileTree) (root : Path) (base : Location) : List Path :=
  root :: (t.entries.filter fun e => e.2 ≠ .directory && isBelow base e.1).map fun e =>
    root.join (e.1.drop base.length)

def foundFile? (t : FileTree) (p : Path) : Option FoundFile := (t.fileTime? p).map (⟨p, ·⟩)

def filesUnder (t : FileTree) (root : Path) : Option (List FoundFile) :=
  match t.locate root with
  | .error _ => none
  | .ok base => some ((t.pathsUnder root base).filterMap t.foundFile?)

end FileTree

def reportStem : List Char := "AdaptivePagingAllocationsBenchmarks-report".toList
def reportExtension : List Char := ".json".toList

/-- The free part of a report's name may be empty, and holds no line feed. -/
def isReportName (name : List Char) : Bool :=
  let rest := name.drop reportStem.length
  reportStem.isPrefixOf name && reportExtension.isSuffixOf rest && !rest.contains '\n'

def FoundFile.isReport (f : FoundFile) : Bool := (Text.decode? f.path.fileName).any isReportName

def Time.isBefore (a b : Time) : Bool :=
  decide (a.seconds < b.seconds) || (a.seconds = b.seconds && decide (a.nanos < b.nanos))

/-- Newer files come first. Files of one time are ordered by their paths, name by name. -/
def FoundFile.precedes (a b : FoundFile) : Bool :=
  if a.modified = b.modified then decide (a.path.names ≤ b.path.names)
  else b.modified.isBefore a.modified

inductive Discovery where
  | rootMissing
  | noReports
  | candidates (files : List FoundFile)

def Discovery.paths : Discovery → List Path
  | .rootMissing | .noReports => []
  | .candidates files => files.map (·.path)

def Discovery.ofFiles (files : Option (List FoundFile)) : Discovery :=
  match files with
  | none => .rootMissing
  | some files =>
    match (files.filter FoundFile.isReport).mergeSort FoundFile.precedes with
    | [] => .noReports
    | reports => .candidates reports

def FileTree.discover (t : FileTree) (root : Path) : Discovery := .ofFiles (t.filesUnder root)

end PagingGate
