import PagingGate.Proofs.Decimal.Reading
import PagingGate.Toml.Document

set_option autoImplicit false

/-!
# The grammar of small TOML documents

The spellings of numbers, of keys, and of documents whose rows are headers, numbers behind keys, and tables of numbers
in braces. The relations say which texts spell what, without the readers; white space, comments and the kinds of line
breaks are left open.
-/

namespace PagingGate.Toml

open Binary64
open Decimal (Numeral natOfDigits sign isMinus signedInt)
open Json (IsMark IsSign)

/-- Digits with single underscores between them: the digits alone, and the text. -/
inductive Spaced (isDigit : Char → Bool) : List Char → List Char → Prop where
  | one {c} : isDigit c = true → Spaced isDigit [c] [c]
  | next {c ds t} : isDigit c = true → Spaced isDigit ds t → Spaced isDigit (c :: ds) (c :: t)
  | separated {c ds t} : isDigit c = true → Spaced isDigit ds t → Spaced isDigit (c :: ds) (c :: '_' :: t)

/-- The digits and the text of a decimal number, which has no zero in front of other digits. -/
structure SpacedWhole (ds t : List Char) : Prop where
  spaced : Spaced Char.isDigit ds t
  noZero : ds.length = 1 ∨ ds.head? ≠ some '0'

inductive Prefix : Char → Nat → Prop where
  | hexadecimal : Prefix 'x' 16
  | octal : Prefix 'o' 8
  | binary : Prefix 'b' 2

inductive SpellsFraction : List Char → List Char → Prop where
  | none : SpellsFraction [] []
  | some {ds t} : Spaced Char.isDigit ds t → SpellsFraction ds ('.' :: t)

inductive SpellsExponent : Int → List Char → Prop where
  | none : SpellsExponent 0 []
  | some {m sign ds t} : IsMark m → IsSign sign → Spaced Char.isDigit ds t →
      SpellsExponent (signedInt sign ds) (m :: (sign ++ t))

/-- The tokens that are numbers, with the nearest binary64 numbers; `none` is what is no number. Whole numbers fit 64
bits with a sign, and no float overflows to infinity. -/
inductive Denotes : List Char → Option Extended → Prop where
  | decimal {sign ds t} : IsSign sign → SpacedWhole ds t → -2 ^ 63 ≤ signedInt sign ds → signedInt sign ds < 2 ^ 63 →
      Denotes (sign ++ t) (some (nearest (signedInt sign ds)))
  | prefixed {letter radix ds t} : Prefix letter radix → Spaced (isDigitOf radix) ds t → valueOfDigits radix ds < 2 ^ 63 →
      Denotes ('0' :: letter :: t) (some (nearest (valueOfDigits radix ds)))
  | float {sign whole w fraction f e x} : IsSign sign → SpacedWhole whole w → SpellsFraction fraction f →
      SpellsExponent e x → f ++ x ≠ [] →
      nearest (Numeral.rational ⟨isMinus sign, natOfDigits (whole ++ fraction), e - fraction.length⟩) ≠ ⊤ →
      Denotes (sign ++ (w ++ (f ++ x)))
        (some (nearest (Numeral.rational ⟨isMinus sign, natOfDigits (whole ++ fraction), e - fraction.length⟩)))
  | infinity {sign} : IsSign sign → Denotes (sign ++ "inf".toList) (some (infinite (Decimal.sign (isMinus sign))))
  | nan {sign} : IsSign sign → Denotes (sign ++ "nan".toList) none

def IsSpaces (ws : List Char) : Prop := ∀ c ∈ ws, isSpace c = true

inductive SpellsChars : List Char → List Char → Prop where
  | nil : SpellsChars [] []
  | plain {c cs t} : isPlain c = true → c ≠ '"' → c ≠ '\\' → SpellsChars cs t → SpellsChars (c :: cs) (c :: t)
  | short {letter c cs t} : shortEscape? letter = some c → SpellsChars cs t →
      SpellsChars (c :: cs) ('\\' :: letter :: t)
  | code {c hex cs t} : hex.length = 4 → Text.hexNumber? hex = some c.toNat → SpellsChars cs t →
      SpellsChars (c :: cs) ('\\' :: 'u' :: (hex ++ t))
  | longCode {c hex cs t} : hex.length = 8 → Text.hexNumber? hex = some c.toNat → SpellsChars cs t →
      SpellsChars (c :: cs) ('\\' :: 'U' :: (hex ++ t))

/-- A key is bare, or stands in quotes of either kind. -/
inductive SpellsPart (key : String) : List Char → Prop where
  | bare : key.toList ≠ [] → (∀ c ∈ key.toList, isKeyChar c = true) → SpellsPart key key.toList
  | literal : (∀ c ∈ key.toList, isPlain c = true ∧ c ≠ '\'') → SpellsPart key ('\'' :: (key.toList ++ ['\'']))
  | basic {t} : SpellsChars key.toList t → SpellsPart key ('"' :: (t ++ ['"']))

/-- The parts of a dotted key, with white space around the points. -/
inductive SpellsParts : List String → List Char → Prop where
  | one {key t} : SpellsPart key t → SpellsParts [key] t
  | more {key t a b keys u} : SpellsPart key t → IsSpaces a → IsSpaces b → SpellsParts keys u →
      SpellsParts (key :: keys) (t ++ (a ++ '.' :: (b ++ u)))

def KeyPath.parts (p : KeyPath) : List String := p.parents ++ [p.key]

def IsToken (token : List Char) : Prop := token ≠ [] ∧ ∀ c ∈ token, isScalarChar c = true

inductive SpellsPair (path : KeyPath) (value : List Char) : List Char → Prop where
  | mk {t a b} : SpellsParts path.parts t → IsSpaces a → IsSpaces b →
      SpellsPair path value (t ++ (a ++ '=' :: (b ++ value)))

/-- The members of a table in braces, behind the opening brace or a comma. -/
inductive SpellsMembers : List (String × List Char) → List Char → Prop where
  | last {key token a t b} : IsToken token → IsSpaces a → SpellsPair ⟨[], key⟩ token t → IsSpaces b →
      SpellsMembers [(key, token)] (a ++ (t ++ (b ++ ['\x7d'])))
  | more {key token a t b ms u} : IsToken token → IsSpaces a → SpellsPair ⟨[], key⟩ token t → IsSpaces b →
      SpellsMembers ms u → SpellsMembers ((key, token) :: ms) (a ++ (t ++ (b ++ ',' :: u)))

inductive SpellsBraces : List (String × List Char) → List Char → Prop where
  | empty {ws} : IsSpaces ws → SpellsBraces [] ('\x7b' :: (ws ++ ['\x7d']))
  | members {ms t} : SpellsMembers ms t → SpellsBraces ms ('\x7b' :: t)

inductive Row where
  | header (path : KeyPath)
  | pair (path : KeyPath) (token : List Char)
  | braces (path : KeyPath) (members : List (String × List Char))

inductive SpellsRow : Row → List Char → Prop where
  | header {path a t b} : IsSpaces a → SpellsParts path.parts t → IsSpaces b →
      SpellsRow (.header path) ('[' :: (a ++ (t ++ (b ++ [']']))))
  | pair {path token t} : IsToken token → SpellsPair path token t → SpellsRow (.pair path token) t
  | braces {path members value t} : SpellsBraces members value → SpellsPair path value t →
      SpellsRow (.braces path members) t

/-- White space, and a comment behind it. -/
inductive IsRemark : List Char → Prop where
  | none {ws} : IsSpaces ws → IsRemark ws
  | comment {ws cs} : IsSpaces ws → (∀ c ∈ cs, isPlain c = true) → IsRemark (ws ++ '#' :: cs)

inductive IsBreak : List Char → Prop where
  | lineFeed : IsBreak ['\n']
  | both : IsBreak ['\r', '\n']

/-- Each row has a line of its own, and any line may be without one. -/
inductive SpellsRows : List Row → List Char → Prop where
  | lastBlank {remark} : IsRemark remark → SpellsRows [] remark
  | last {row ws t remark} : IsSpaces ws → SpellsRow row t → IsRemark remark → SpellsRows [row] (ws ++ (t ++ remark))
  | blank {remark br rows u} : IsRemark remark → IsBreak br → SpellsRows rows u → SpellsRows rows (remark ++ (br ++ u))
  | row {row ws t remark br rows u} : IsSpaces ws → SpellsRow row t → IsRemark remark → IsBreak br → SpellsRows rows u →
      SpellsRows (row :: rows) (ws ++ (t ++ (remark ++ (br ++ u))))

inductive SpellsDocument (rows : List Row) : List Char → Prop where
  | plain {t} : SpellsRows rows t → SpellsDocument rows t
  | marked {t} : SpellsRows rows t → SpellsDocument rows ('\ufeff' :: t)

end PagingGate.Toml
