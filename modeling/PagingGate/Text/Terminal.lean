set_option autoImplicit false

/-!
# Styles and control sequences of a terminal

Help and messages are written with styles, which are control sequences. In a stream that is no terminal the
sequences are left out, and so is every other control character that is not white space.
`plain_of_noControl` says that nothing else is changed.
-/

namespace PagingGate.Text

inductive Style where
  | heading
  | error
  | literal
  | invalid
  deriving DecidableEq, Repr

def Style.opening : Style → String
  | .heading => "\x1b[1m\x1b[4m"
  | .error => "\x1b[1m\x1b[31m"
  | .literal => "\x1b[1m"
  | .invalid => "\x1b[33m"

def styled (style : Style) (text : String) : String := style.opening ++ text ++ "\x1b[0m"

inductive Sequence where
  | escape
  /-- Behind an escape character and marks; any letter ends it. -/
  | marked
  | control
  | command
  /-- Before a string for a device, with nothing said yet. -/
  | device
  | deviceParameters
  | deviceMarks
  | string
  deriving DecidableEq, Repr

def isControl (c : Char) : Bool := decide (c < ' ') || c == '\x7f'

def isSpaceControl (c : Char) : Bool := c == '\t' || c == '\n' || c == '\x0c' || c == '\r'

/-- The byte 9C ends a string, and it does so inside a character beyond ASCII, too. -/
def endsString (c : Char) : Bool := (String.utf8EncodeChar c).contains 0x9C

def Sequence.afterVisible (c : Char) : Sequence → Option Sequence
  | .escape =>
    if c ≤ '/' then some .marked
    else if c = '[' then some .control
    else if c = ']' then some .command
    else if c = 'P' then some .device
    else if c ∈ ['X', '^', '_'] then some .string
    else none
  | .marked => if c ≤ '/' then some .marked else none
  | .control => if c ≤ '?' then some .control else none
  | .command => some .command
  | .device =>
    if c ≤ '/' then some .deviceMarks else if c ≤ '?' then some .deviceParameters else some .string
  | .deviceParameters =>
    if c ≤ '/' then some .deviceMarks else if c ≤ ';' then some .deviceParameters else some .string
  | .deviceMarks => if c ≤ '/' then some .deviceMarks else some .string
  | .string => some .string

/-- An escape character begins anew, and two characters cancel every sequence. Other control characters and
those beyond ASCII are passed over. -/
def Sequence.after (s : Sequence) (c : Char) : Option Sequence :=
  if c = '\x1b' then some .escape
  else if c = '\x18' ∨ c = '\x1a' then none
  else if s = .command ∧ c = '\x07' then none
  else if s = .string ∧ endsString c then none
  else if isControl c ∨ '\x7f' < c then some s
  else s.afterVisible c

/-- White space between the parts of a sequence is carried out as if it stood alone. -/
def Sequence.isInterruptible : Sequence → Bool
  | .escape | .marked | .control => true
  | _ => false

inductive Position where
  /-- In text that is kept. A sequence that white space has interrupted waits for the next control
  character. -/
  | text (waiting : Option Sequence)
  | inside (sequence : Sequence)
  deriving DecidableEq, Repr

namespace Position

def keeps (c : Char) : Position → Bool
  | .text _ => !isControl c || isSpaceControl c
  | .inside s => s.isInterruptible && isSpaceControl c

def ofSequence : Option Sequence → Position
  | none => .text none
  | some s => .inside s

def afterKept (c : Char) : Position → Position
  | .text waiting => .text (if '\x7f' < c then none else waiting)
  | .inside s => .text (some s)

def afterDropped (c : Char) : Position → Position
  | .text none => if c = '\x1b' then .inside .escape else .text none
  | .text (some s) => ofSequence (s.after c)
  | .inside s => ofSequence (s.after c)

end Position

def plainFrom (p : Position) : List Char → List Char
  | [] => []
  | c :: cs =>
    if p.keeps c then c :: plainFrom (p.afterKept c) cs else plainFrom (p.afterDropped c) cs

def plain (cs : List Char) : List Char := plainFrom (.text none) cs

theorem plain_of_noControl (cs : List Char) (h : ∀ c ∈ cs, isControl c = false) :
    plain cs = cs := by
  unfold plain
  induction cs with
  | nil => rfl
  | cons c cs ih =>
    have hc : Position.keeps c (.text none) = true := by
      simp [Position.keeps, h c List.mem_cons_self]
    have hp : Position.afterKept c (.text none) = .text none := by
      simp [Position.afterKept]
    rw [plainFrom, if_pos hc, hp, ih fun d hd => h d (List.mem_cons_of_mem c hd)]

end PagingGate.Text
