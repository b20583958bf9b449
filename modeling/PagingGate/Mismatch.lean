import PagingGate.Text.Unicode

set_option autoImplicit false

namespace PagingGate

namespace Text

def codePointEscape (c : Char) : List Char :=
  '\\' :: 'u' :: '\x7b' :: Nat.toDigits 16 c.toNat ++ ['\x7d']

def shownChar (c : Char) : List Char :=
  if c = '\x00' then ['\\', '0']
  else if c = '\t' then ['\\', 't']
  else if c = '\r' then ['\\', 'r']
  else if c = '\n' then ['\\', 'n']
  else if c = '\\' ∨ c = '"' then ['\\', c]
  else if inRanges combiningRanges c.toNat || inRanges invisibleRanges c.toNat then codePointEscape c
  else [c]

def shown (s : String) : List Char := '"' :: s.toList.flatMap shownChar ++ ['"']

end Text

inductive Found where
  | null
  | flag (value : Bool)
  | integer (value : Int)
  | number (value : Float)
  | text (value : String)
  | sequence
  | map

/-- Formats write fractional numbers differently, so that is left to `numberText`. -/
def Found.describe (numberText : Float → List Char) : Found → List Char
  | .null => "null".toList
  | .flag b => "boolean `".toList ++ (if b then "true".toList else "false".toList) ++ ['`']
  | .integer n => "integer `".toList ++ (toString n).toList ++ ['`']
  | .number x => "floating point `".toList ++ numberText x ++ ['`']
  | .text s => "string ".toList ++ Text.shown s
  | .sequence => "sequence".toList
  | .map => "map".toList

def mismatchMessage (numberText : Float → List Char) (found : Found) (expected : String) : List Char :=
  "invalid type: ".toList ++ found.describe numberText ++ ", expected ".toList ++ expected.toList

def lengthMessage (length : Nat) (title : String) (fields : Nat) : List Char :=
  "invalid length ".toList ++ Nat.toDigits 10 length ++ ", expected ".toList ++ title.toList ++
    " with ".toList ++ Nat.toDigits 10 fields ++
    (if fields = 1 then " element".toList else " elements".toList)

end PagingGate
