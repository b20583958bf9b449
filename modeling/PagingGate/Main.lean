import PagingGate.Files

set_option autoImplicit false

namespace PagingGate.Command

def text (p : Path) : String := String.ofList p.shown

/-- The system's own form of a path. -/
def place (p : Path) := (IO.FS.DirEntry.mk (text p) "").root

/-- Some calls of the system give the code of an error with its sign changed. -/
def plainCode (code : UInt32) : Nat :=
  if code < 0x80000000 then code.toNat else 0x100000000 - code.toNat

def faultOfCode (code : UInt32) (reason : String) : FileFault :=
  match plainCode code with
  | 2 => .notFound
  | 20 => .notDirectory
  | 21 => .isDirectory
  | 36 => .nameTooLong
  | 40 => .tooManyLinks
  | n => .other (reason ++ " (os error " ++ toString n ++ ")")

def faultOf (e : IO.Error) : FileFault :=
  match e with
  | .noFileOrDirectory _ code reason => faultOfCode code reason
  | .inappropriateType _ code reason => faultOfCode code reason
  | .invalidArgument _ code reason => faultOfCode code reason
  | .permissionDenied _ code reason => faultOfCode code reason
  | e => .other e.toString

def attempt {α : Type} (act : IO α) : IO (Except FileFault α) := do
  try
    let a ← act
    pure (.ok a)
  catch e => pure (.error (faultOf e))

def readContent (p : Path) : IO Content := do
  let bytes ← attempt (IO.FS.readBinFile (text p))
  pure (bytes.map fun b => b.toList)

def writeContent (p : Path) (content : List UInt8) : IO (Except FileFault Unit) :=
  attempt (IO.FS.writeBinFile (text p) ⟨content.toArray⟩)

def leads (p : Path) : IO Bool := do
  match ← attempt (place p).metadata with
  | .error _ => pure false
  | .ok _ => pure true

def modifiedTime? (p : Path) : IO (Option Time) := do
  match ← attempt (place p).metadata with
  | .error _ => pure none
  | .ok m =>
    match m.type with
    | .file => pure (some ⟨m.modified.sec, m.modified.nsec.toNat⟩)
    | _ => pure none

def isPlainDirectory (p : Path) : IO Bool := do
  match ← attempt (place p).symlinkMetadata with
  | .error _ => pure false
  | .ok m =>
    match m.type with
    | .dir => pure true
    | _ => pure false

def entries (dir : Path) : IO (List (Name × Bool)) := do
  match ← attempt (place dir).readDir with
  | .error _ => pure []
  | .ok entries =>
    entries.toList.mapM fun e => do
      let name := Text.encode e.fileName.toList
      let isDirectory ← isPlainDirectory (dir.join [name])
      pure (name, isDirectory)

def systemFiles : Files IO where
  isThere := leads
  listing := entries
  fileTime? := modifiedTime?
  read := readContent
  write := writeContent

def readEnvironment : IO CommandLine.Environment := do
  let values ← CommandLine.knownVariables.mapM fun n => do
    let v ← IO.getEnv n
    pure (n, v)
  pure fun n => (values.lookup n).join

end PagingGate.Command

def main (words : List String) : IO UInt32 := do
  let env ← PagingGate.Command.readEnvironment
  let e ← PagingGate.Command.systemFiles.program words env
  (← IO.getStdout).putStr (String.ofList e.output)
  (← IO.getStderr).putStr (String.ofList e.complaint)
  pure e.status.toUInt32
