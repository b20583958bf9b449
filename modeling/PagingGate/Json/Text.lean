import PagingGate.Decimal.Shortest

set_option autoImplicit false

namespace PagingGate.Json

def hexPair (n : Nat) : List Char := [Nat.digitChar (n / 16), Nat.digitChar (n % 16)]

/-- A quote, a backslash and the control characters below the blank are escaped, all else is kept. -/
def escaped (c : Char) : List Char :=
  if c = '"' then ['\\', '"']
  else if c = '\\' then ['\\', '\\']
  else if c = '\n' then ['\\', 'n']
  else if c = '\r' then ['\\', 'r']
  else if c = '\t' then ['\\', 't']
  else if c = '\x08' then ['\\', 'b']
  else if c = '\x0c' then ['\\', 'f']
  else if c.toNat < 32 then '\\' :: 'u' :: '0' :: '0' :: hexPair c.toNat
  else [c]

def stringText (s : String) : List Char := '"' :: s.toList.flatMap escaped ++ ['"']

/-- A number that is not finite is written `null`. -/
def numberText (x : Float) : List Char :=
  match Decimal.exact x with
  | .finite negative m e => Decimal.jsonLayout.finiteText negative m e
  | _ => "null".toList

def flagText (b : Bool) : List Char := if b then "true".toList else "false".toList

def memberText (separator : List Char) (m : String × List Char) : List Char :=
  stringText m.1 ++ separator ++ m.2

def compactObject (members : List (String × List Char)) : List Char :=
  '\x7b' :: List.intercalate [','] (members.map (memberText [':'])) ++ ['\x7d']

def prettyObject (members : List (String × List Char)) : List Char :=
  '\x7b' :: '\n' ::
    List.intercalate [',', '\n'] (members.map fun m => ' ' :: ' ' :: memberText [':', ' '] m) ++
    ['\n', '\x7d']

end PagingGate.Json
