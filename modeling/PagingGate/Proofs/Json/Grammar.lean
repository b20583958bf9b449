import Mathlib.Data.List.TakeWhile
import PagingGate.Json.Blank
import PagingGate.Json.Number
import PagingGate.Json.String

set_option autoImplicit false

/-!
# The grammar of JSON

A value is a tree whose numbers and strings keep how they are spelled. `Spells` says which texts spell a value;
it leaves open only the white space.
-/

namespace PagingGate.Json

def IsDigits (ds : List Char) : Prop := ds ≠ [] ∧ ∀ c ∈ ds, c.isDigit = true

def IsMark (c : Char) : Prop := c = 'e' ∨ c = 'E'

def IsSign (cs : List Char) : Prop := cs = [] ∨ cs = ['+'] ∨ cs = ['-']

structure Exponent where
  mark : Char
  sign : List Char
  digits : List Char
  isMark : IsMark mark
  isSign : IsSign sign
  isDigits : IsDigits digits

def Exponent.text (x : Exponent) : List Char := x.mark :: x.sign ++ x.digits

/-- A number as it is spelled. Only zero begins with a zero; there is no point when the fraction is empty. -/
structure Literal where
  negative : Bool
  whole : List Char
  fraction : List Char
  exponent : Option Exponent
  isWhole : IsDigits whole ∧ (whole.head? = some '0' → whole = ['0'])
  isFraction : ∀ c ∈ fraction, c.isDigit = true

namespace Literal

def sign (n : Literal) : List Char := if n.negative then ['-'] else []

def fractionText (n : Literal) : List Char := if n.fraction = [] then [] else '.' :: n.fraction

def exponentText (n : Literal) : List Char := (n.exponent.map Exponent.text).getD []

def unsigned (n : Literal) : List Char := n.whole ++ (n.fractionText ++ n.exponentText)

def text (n : Literal) : List Char := n.sign ++ n.unsigned

end Literal

/-- One element of a string: a character, an escape of one letter, or one of four hexadecimal digits. -/
inductive Piece where
  | plain (c : Char) (ok : c ≠ '"' ∧ c ≠ '\\' ∧ 32 ≤ c.toNat)
  | short (letter c : Char) (ok : shortEscape? letter = some c)
  | unit (a b c d : Char) (code : Nat) (ok : Text.hexNumber? [a, b, c, d] = some code)

def Piece.text : Piece → List Char
  | .plain c _ => [c]
  | .short letter _ _ => ['\\', letter]
  | .unit a b c d _ _ => ['\\', 'u', a, b, c, d]

def unquoted (s : List Piece) : List Char := s.flatMap Piece.text ++ ['"']

def quoted (s : List Piece) : List Char := '"' :: unquoted s

/-- The characters that a string stands for. Two escapes can be the halves of one character; a half alone
stands for nothing. -/
inductive Unescapes : List Piece → List Char → Prop where
  | nil : Unescapes [] []
  | plain {c ok s cs} : Unescapes s cs → Unescapes (.plain c ok :: s) (c :: cs)
  | short {letter c ok s cs} : Unescapes s cs → Unescapes (.short letter c ok :: s) (c :: cs)
  | unit {a b c d code ok s cs} : isLowSurrogate code = false → isHighSurrogate code = false →
      Unescapes s cs → Unescapes (.unit a b c d code ok :: s) (Char.ofNat code :: cs)
  | pair {a b c d high ok a' b' c' d' low ok' s cs} : isHighSurrogate high = true →
      isLowSurrogate low = true → Unescapes s cs →
      Unescapes (.unit a b c d high ok :: .unit a' b' c' d' low ok' :: s) (surrogatePair high low :: cs)

inductive Value where
  | null
  | flag (b : Bool)
  | number (n : Literal)
  | string (s : List Piece)
  | list (items : List Value)
  | object (members : List (List Piece × Value))

def IsBlank (ws : List Char) : Prop := ∀ c ∈ ws, isBlank c = true

/-- What stands before an item of a list or a member of an object. -/
def IsSeparator : Bool → List Char → Prop
  | true, sep => IsBlank sep
  | false, sep => ∃ a b, IsBlank a ∧ IsBlank b ∧ sep = a ++ ',' :: b

/-- A value, or what is left of a list or an object behind its bracket or behind an item. -/
inductive Part where
  | value (v : Value)
  | items (first : Bool) (vs : List Value)
  | members (first : Bool) (ms : List (List Piece × Value))

inductive Spells : Part → List Char → Prop where
  | null : Spells (.value .null) "null".toList
  | yes : Spells (.value (.flag true)) "true".toList
  | no : Spells (.value (.flag false)) "false".toList
  | number (n : Literal) : Spells (.value (.number n)) n.text
  | string (s : List Piece) : Spells (.value (.string s)) (quoted s)
  | list {vs t} : Spells (.items true vs) t → Spells (.value (.list vs)) ('[' :: t)
  | object {ms t} : Spells (.members true ms) t → Spells (.value (.object ms)) ('\x7b' :: t)
  | noItem {first ws} : IsBlank ws → Spells (.items first []) (ws ++ [']'])
  | item {first sep v t vs u} : IsSeparator first sep → Spells (.value v) t →
      Spells (.items false vs) u → Spells (.items first (v :: vs)) (sep ++ (t ++ u))
  | noMember {first ws} : IsBlank ws → Spells (.members first []) (ws ++ ['\x7d'])
  | member {first sep key a b v t ms u} : IsSeparator first sep → IsBlank a → IsBlank b →
      Spells (.value v) t → Spells (.members false ms) u →
      Spells (.members first ((key, v) :: ms)) (sep ++ (quoted key ++ (a ++ ':' :: (b ++ (t ++ u)))))

/-- The text spells the value, with nothing but white space around it. -/
def IsDocument (v : Value) (text : List Char) : Prop :=
  ∃ before t after, IsBlank before ∧ Spells (.value v) t ∧ IsBlank after ∧ text = before ++ (t ++ after)

def Stops (rest : List Char) : Prop :=
  ∀ c ∈ rest.head?, c.isDigit = false ∧ c ≠ '.' ∧ ¬ IsMark c

@[simp] theorem isBlank_nil : IsBlank [] := by simp [IsBlank]

@[simp] theorem isBlank_cons {c : Char} {ws : List Char} : IsBlank (c :: ws) ↔ isBlank c = true ∧ IsBlank ws := by
  simp [IsBlank]

@[simp] theorem isBlank_append {a b : List Char} : IsBlank (a ++ b) ↔ IsBlank a ∧ IsBlank b := by
  simp only [IsBlank, List.mem_append, or_imp, forall_and]

theorem skipBlank_append {ws cs : List Char} (h : IsBlank ws) : skipBlank (ws ++ cs) = skipBlank cs := by
  rw [skipBlank, List.dropWhile_append_of_pos h, skipBlank]

theorem skipBlank_cons {c : Char} {cs : List Char} (h : isBlank c = false) :
    skipBlank (c :: cs) = c :: cs := by
  rw [skipBlank, List.dropWhile_cons_of_neg (by simp [h])]

@[simp] theorem skipBlank_eq_nil_iff {cs : List Char} : skipBlank cs = [] ↔ IsBlank cs :=
  List.dropWhile_eq_nil_iff

theorem skipBlank_eq_cons_iff {cs rest : List Char} {c : Char} : skipBlank cs = c :: rest ↔
    ∃ ws, IsBlank ws ∧ isBlank c = false ∧ cs = ws ++ c :: rest := by
  constructor
  · intro h
    induction cs with
    | nil => simp [skipBlank] at h
    | cons d cs ih =>
      by_cases hd : isBlank d = true
      · rw [skipBlank, List.dropWhile_cons_of_pos hd] at h
        obtain ⟨ws, hws, hc, rfl⟩ := ih h
        exact ⟨d :: ws, isBlank_cons.mpr ⟨hd, hws⟩, hc, rfl⟩
      · rw [Bool.not_eq_true] at hd
        rw [skipBlank_cons hd, List.cons.injEq] at h
        obtain ⟨rfl, rfl⟩ := h
        exact ⟨[], isBlank_nil, hd, rfl⟩
  · rintro ⟨ws, hws, hc, rfl⟩
    rw [skipBlank_append hws, skipBlank_cons hc]

end PagingGate.Json
