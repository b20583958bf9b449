import PagingGate.Text.Utf8

set_option autoImplicit false

namespace PagingGate

abbrev Name := List UInt8

structure Path where
  bytes : List UInt8
  deriving DecidableEq, Repr

namespace Path

def slash : UInt8 := 0x2F
def dot : Name := [0x2E]
def dotDot : Name := [0x2E, 0x2E]

def ofString (s : String) : Path := ⟨Text.encode s.toList⟩

def split : List UInt8 → List Name
  | [] => [[]]
  | b :: bs =>
    if b = slash then [] :: split bs
    else match split bs with
      | [] => [[b]]
      | n :: ns => (b :: n) :: ns

/-- The names on the way. Repeated slashes count as one; a slash at the end leaves an empty name there. -/
def names (p : Path) : List Name :=
  let parts := split p.bytes
  parts.dropLast.filter (· ≠ []) ++ parts.getLast?.toList

def isAbsolute (p : Path) : Bool := p.bytes.head? = some slash

def fileName (p : Path) : Name := (p.names.filter (· ≠ [])).getLast?.getD p.bytes

def parents (p : Path) : List Name := (p.names.filter (· ≠ [])).dropLast

/-- Names below a directory are put behind its path; a slash at the end of that is not repeated. -/
def join (p : Path) (names : List Name) : Path :=
  names.foldl
    (fun q n => ⟨(if q.bytes.getLast? = some slash then q.bytes else q.bytes ++ [slash]) ++ n⟩) p

def shown (p : Path) : List Char := Text.decodeLossy p.bytes

end Path
end PagingGate
