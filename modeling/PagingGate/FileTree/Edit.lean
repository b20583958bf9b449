import PagingGate.FileTree

set_option autoImplicit false

namespace PagingGate.FileTree

def enter (t : FileTree) (dir : Location) (name : Name) : Except FileFault (FileTree × Location) :=
  match t.walk false maxLinks dir [name], t.node? (dir ++ [name]) with
  | .error .notFound, none => .ok (t.put (dir ++ [name]) .directory, dir ++ [name])
  | .ok l, _ => if t.isDirectory l then .ok (t, l) else .error .notDirectory
  | .error e, _ => .error e

def enterAll (t : FileTree) (dir : Location) (names : List Name) :
    Except FileFault (FileTree × Location) :=
  names.foldlM (fun (t, dir) name => t.enter dir name) (t, dir)

def makeDirectory (t : FileTree) (p : Path) : Except FileFault FileTree := do
  p.check
  let (t, _) ← t.enterAll [] p.names
  pure t

def makeParents (t : FileTree) (p : Path) : Except FileFault FileTree := do
  p.check
  let (t, _) ← t.enterAll [] p.parents
  pure t

/-- The location of the last name of a path; if a link stands there, it is not followed. -/
def entryAt (t : FileTree) (p : Path) : Except FileFault Location := do
  p.check
  let dir ← t.walk false maxLinks [] p.parents
  if t.isDirectory dir then pure (dir ++ [p.fileName]) else .error .notDirectory

def writeWithParents (t : FileTree) (p : Path) (content : List UInt8) (modified : Time) :
    Except FileFault FileTree := do
  let t ← t.makeParents p
  t.write p content modified

def makeLink (t : FileTree) (target p : Path) : Except FileFault FileTree := do
  target.check
  let t ← t.makeParents p
  let l ← t.entryAt p
  if (t.node? l).isSome then .error .alreadyThere else pure (t.put l (.link target))

def touch (t : FileTree) (p : Path) (modified : Time) : Except FileFault FileTree := do
  let l ← t.locate p
  match t.node? l with
  | some (.file content _) => pure (t.put l (.file content modified))
  | _ => pure t

def without (t : FileTree) (l : Location) : FileTree :=
  ⟨t.entries.filter fun e => !l.isPrefixOf e.1⟩

def remove (t : FileTree) (p : Path) : Except FileFault FileTree := do
  let l ← t.entryAt p
  if (t.node? l).isSome then pure (t.without l) else .error .notFound

def hasEntries (t : FileTree) (l : Location) : Bool :=
  t.entries.any fun e => l.isPrefixOf e.1 && e.1 ≠ l

def checkReplacement (t : FileTree) (source : Node) (m : Location) : Except FileFault Unit :=
  match t.node? m with
  | none => .ok ()
  | some .directory =>
    if source ≠ .directory then .error .isDirectory
    else if t.hasEntries m then .error (.other "Directory not empty (os error 39)")
    else .ok ()
  | some _ => if source = .directory then .error .notDirectory else .ok ()

def rename (t : FileTree) (source target : Path) : Except FileFault FileTree := do
  let l ← t.entryAt source
  let m ← t.entryAt target
  match t.node? l with
  | none => .error .notFound
  | some node =>
    if l = m then pure t
    else if l.isPrefixOf m then .error (.other "Invalid argument (os error 22)")
    else
      t.checkReplacement node m
      let moved := t.entries.filter fun e => l.isPrefixOf e.1
      let kept := (t.without l).without m
      pure ⟨kept.entries ++ moved.map fun e => (m ++ e.1.drop l.length, e.2)⟩

end PagingGate.FileTree
