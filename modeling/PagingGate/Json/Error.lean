import PagingGate.Except
import PagingGate.Json.Text
import PagingGate.Mismatch

set_option autoImplicit false

namespace PagingGate.Json

inductive Error where
  | endOfList
  | endOfObject
  | endOfString
  | endOfValue
  | expectedColon
  | expectedCommaOrBracket
  | expectedCommaOrBrace
  | expectedWord
  | expectedValue
  | invalidEscape
  | invalidNumber
  | numberOutOfRange
  | loneSurrogate
  | unpairedSurrogate
  | controlCharacter
  | keyNotString
  | trailingComma
  | trailingCharacters
  | missingField (name : String)
  | duplicateField (name : String)
  | mismatch (found : Found) (expected : String)
  | wrongLength (length : Nat) (title : String) (fields : Nat)

inductive ErrorKind where
  | ended
  | malformed
  | schema
  deriving DecidableEq, Repr

namespace Error

def kind : Error → ErrorKind
  | .endOfList | .endOfObject | .endOfString | .endOfValue => .ended
  | .missingField _ | .duplicateField _ | .mismatch _ _ | .wrongLength _ _ _ => .schema
  | _ => .malformed

def message : Error → List Char
  | .endOfList => "EOF while parsing a list".toList
  | .endOfObject => "EOF while parsing an object".toList
  | .endOfString => "EOF while parsing a string".toList
  | .endOfValue => "EOF while parsing a value".toList
  | .expectedColon => "expected `:`".toList
  | .expectedCommaOrBracket => "expected `,` or `]`".toList
  | .expectedCommaOrBrace => "expected `,` or `\x7d`".toList
  | .expectedWord => "expected ident".toList
  | .expectedValue => "expected value".toList
  | .invalidEscape => "invalid escape".toList
  | .invalidNumber => "invalid number".toList
  | .numberOutOfRange => "number out of range".toList
  | .loneSurrogate => "lone leading surrogate in hex escape".toList
  | .unpairedSurrogate => "unexpected end of hex escape".toList
  | .controlCharacter =>
    "control character (\\u0000-\\u001F) found while parsing a string".toList
  | .keyNotString => "key must be a string".toList
  | .trailingComma => "trailing comma".toList
  | .trailingCharacters => "trailing characters".toList
  | .missingField name => "missing field `".toList ++ name.toList ++ ['`']
  | .duplicateField name => "duplicate field `".toList ++ name.toList ++ ['`']
  | .mismatch found expected => mismatchMessage numberText found expected
  | .wrongLength length title fields => lengthMessage length title fields

end Error
end PagingGate.Json
