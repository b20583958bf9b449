import PagingGate.FileTree.Path

set_option autoImplicit false

/-!
# File trees

A tree of directories, files and symbolic links, held as a table from locations to what stands there. A
location lists the names from the top of the tree; the top is always a directory.
-/

namespace PagingGate

structure Time where
  seconds : Int
  nanos : Nat
  deriving DecidableEq, Repr, Ord

abbrev Location := List Name

inductive Node where
  | file (content : List UInt8) (modified : Time)
  | directory
  | link (target : Path)
  deriving DecidableEq, Repr

structure FileTree where
  entries : List (Location × Node)

inductive FileFault where
  | notFound
  | isDirectory
  | notDirectory
  | tooManyLinks
  | nameTooLong
  | alreadyThere
  | zeroByte
  | invalidText
  | other (reason : String)
  deriving DecidableEq, Repr

def FileFault.message : FileFault → String
  | .notFound => "No such file or directory (os error 2)"
  | .isDirectory => "Is a directory (os error 21)"
  | .notDirectory => "Not a directory (os error 20)"
  | .tooManyLinks => "Too many levels of symbolic links (os error 40)"
  | .nameTooLong => "File name too long (os error 36)"
  | .alreadyThere => "File exists (os error 17)"
  | .zeroByte => "file name contained an unexpected NUL byte"
  | .invalidText => "stream did not contain valid UTF-8"
  | .other reason => reason

def maxPathLength : Nat := 4095
def maxNameLength : Nat := 255

/-- A path that is empty, too long or holds a zero byte leads nowhere. -/
def Path.check (p : Path) : Except FileFault Unit :=
  if 0 ∈ p.bytes then .error .zeroByte
  else if p.bytes = [] then .error .notFound
  else if maxPathLength < p.bytes.length then .error .nameTooLong
  else .ok ()

def Path.start (p : Path) (dir : Location) : Location := if p.isAbsolute then [] else dir

namespace FileTree

def empty : FileTree := ⟨[]⟩

def node? (t : FileTree) (l : Location) : Option Node :=
  if l = [] then some .directory else t.entries.lookup l

def isDirectory (t : FileTree) (l : Location) : Bool := t.node? l = some .directory

def put (t : FileTree) (l : Location) (n : Node) : FileTree :=
  ⟨if t.entries.any (·.1 = l) then t.entries.map fun e => if e.1 = l then (l, n) else e
    else t.entries ++ [(l, n)]⟩

def maxLinks : Nat := 40

/-- Follows names from a directory, and every link on the way. With `create`, the last name may be one that
does not exist yet; then no slash may stand behind it. -/
def walk (t : FileTree) (create : Bool) (links : Nat) (dir : Location) (names : List Name) :
    Except FileFault Location :=
  match names with
  | [] => .ok dir
  | name :: rest =>
    if !t.isDirectory dir then .error .notDirectory
    else if name = [] ∨ name = Path.dot then t.walk create links dir rest
    else if name = Path.dotDot then t.walk create links dir.dropLast rest
    else if create ∧ rest ≠ [] ∧ rest.all List.isEmpty then .error .isDirectory
    else if maxNameLength < name.length then .error .nameTooLong
    else match t.node? (dir ++ [name]) with
      | none => if create ∧ rest = [] then .ok (dir ++ [name]) else .error .notFound
      | some (.link target) =>
        match links with
        | 0 => .error .tooManyLinks
        | links + 1 => t.walk create links (target.start dir) (target.names ++ rest)
      | some _ => t.walk create links (dir ++ [name]) rest
termination_by (links, names.length)

/-- The location a path leads to. There is a file or a directory at it. -/
def locate (t : FileTree) (p : Path) : Except FileFault Location := do
  p.check
  t.walk false maxLinks [] p.names

def locateNew (t : FileTree) (p : Path) : Except FileFault Location := do
  p.check
  t.walk true maxLinks [] p.names

def fileTime? (t : FileTree) (p : Path) : Option Time :=
  match t.locate p with
  | .error _ => none
  | .ok l =>
    match t.node? l with
    | some (.file _ modified) => some modified
    | _ => none

def read (t : FileTree) (p : Path) : Except FileFault (List UInt8) := do
  let l ← t.locate p
  match t.node? l with
  | some (.file content _) => pure content
  | some .directory => .error .isDirectory
  | _ => .error .notFound

def write (t : FileTree) (p : Path) (content : List UInt8) (now : Time) : Except FileFault FileTree := do
  let l ← t.locateNew p
  if t.isDirectory l then .error .isDirectory
  else pure (t.put l (.file content now))

end FileTree
end PagingGate
