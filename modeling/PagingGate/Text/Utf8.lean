set_option autoImplicit false

/-!
# UTF-8

Bytes are cut into pieces: each is a character, or a broken sequence that is as long as it could have
begun a character. A text is valid when no piece is broken.
-/

namespace PagingGate.Text

/-- What must follow the first byte of a longer character: how many bytes, and the bounds of the first of
them. `bits` is what the first byte contributes. -/
structure Lead where
  count : Nat
  low : UInt8
  high : UInt8
  bits : Nat

/-- The bounds leave out characters that have a shorter form, surrogates, and numbers that are too
large. -/
def lead? (b : UInt8) : Option Lead :=
  if b < 0xC2 then none
  else if b < 0xE0 then some ⟨1, 0x80, 0xBF, b.toNat - 0xC0⟩
  else if b = 0xE0 then some ⟨2, 0xA0, 0xBF, 0⟩
  else if b = 0xED then some ⟨2, 0x80, 0x9F, 0xD⟩
  else if b < 0xF0 then some ⟨2, 0x80, 0xBF, b.toNat - 0xE0⟩
  else if b = 0xF0 then some ⟨3, 0x90, 0xBF, 0⟩
  else if b < 0xF4 then some ⟨3, 0x80, 0xBF, b.toNat - 0xF0⟩
  else if b = 0xF4 then some ⟨3, 0x80, 0x8F, 4⟩
  else none

def isContinuation (b : UInt8) : Bool := decide (0x80 ≤ b) && decide (b ≤ 0xBF)

def Lead.following (l : Lead) : List UInt8 → List UInt8
  | b :: rest =>
    if l.low ≤ b ∧ b ≤ l.high then b :: (rest.take (l.count - 1)).takeWhile isContinuation else []
  | [] => []

def Lead.code (l : Lead) (following : List UInt8) : Nat :=
  following.foldl (fun n b => n * 64 + b.toNat % 64) l.bits

def Lead.char? (l : Lead) (following : List UInt8) : Option Char :=
  if following.length = l.count then some (Char.ofNat (l.code following)) else none

def pieces (bytes : List UInt8) : List (Option Char) :=
  match bytes with
  | [] => []
  | b :: rest =>
    if b < 0x80 then some (Char.ofNat b.toNat) :: pieces rest
    else match lead? b with
      | none => none :: pieces rest
      | some l => l.char? (l.following rest) :: pieces (rest.drop (l.following rest).length)
termination_by bytes.length
decreasing_by
  · exact Nat.lt_succ_self _
  · exact Nat.lt_succ_self _
  · rw [List.length_drop, List.length_cons]; omega

def decode? (bytes : List UInt8) : Option (List Char) := (pieces bytes).mapM id

/-- Broken pieces show as replacement characters. -/
def decodeLossy (bytes : List UInt8) : List Char := (pieces bytes).map (·.getD '\ufffd')

def encode (cs : List Char) : List UInt8 := cs.flatMap String.utf8EncodeChar

end PagingGate.Text
