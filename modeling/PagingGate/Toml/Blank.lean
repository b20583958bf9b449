set_option autoImplicit false

namespace PagingGate.Toml

def isSpace (c : Char) : Bool := c = ' ' || c = '\t'

def isPlain (c : Char) : Bool := c = '\t' || (decide (' ' ≤ c) && c ≠ '\x7f')

def skipSpace (cs : List Char) : List Char := cs.dropWhile isSpace

def newline? : List Char → Option (List Char)
  | '\n' :: rest => some rest
  | '\r' :: '\n' :: rest => some rest
  | _ => none

def endOfLine? : List Char → Option (List Char)
  | [] => some []
  | cs => newline? cs

def finishLine? (cs : List Char) : Option (List Char) :=
  match skipSpace cs with
  | '#' :: rest => endOfLine? (rest.dropWhile isPlain)
  | rest => endOfLine? rest

/-- Passes over white space, line breaks and comments. It stops at a character that is none of these;
one that may not stand in a comment is left in front. -/
def skipGap (cs : List Char) : List Char :=
  match cs with
  | [] => []
  | '\r' :: '\n' :: rest => skipGap rest
  | c :: rest =>
    if isSpace c || c = '\n' then skipGap rest
    else if c = '#' then skipGap (rest.dropWhile isPlain)
    else c :: rest
termination_by cs.length
decreasing_by
  · simp only [List.length_cons]; omega
  · simp only [List.length_cons]; omega
  · exact Nat.lt_succ_of_le (List.dropWhile_sublist _).length_le

theorem skipGap_length (cs : List Char) : (skipGap cs).length ≤ cs.length := by
  fun_induction skipGap cs with
  | case1 => exact Nat.le_refl _
  | case2 rest ih => simp only [List.length_cons]; omega
  | case3 c rest _ _ ih => simp only [List.length_cons]; omega
  | case4 rest _ _ ih =>
    have : (rest.dropWhile isPlain).length ≤ rest.length := (List.dropWhile_sublist _).length_le
    simp only [List.length_cons]; omega
  | case5 => exact Nat.le_refl _

theorem newline?_length {cs rest : List Char} (h : newline? cs = some rest) :
    rest.length < cs.length := by
  unfold newline? at h
  split at h
  · simp only [Option.some.injEq] at h; rw [h]; simp
  · simp only [Option.some.injEq] at h; rw [h]; simp only [List.length_cons]; omega
  · simp at h

theorem endOfLine?_length {cs rest : List Char} (h : endOfLine? cs = some rest) :
    rest.length ≤ cs.length := by
  unfold endOfLine? at h
  split at h
  · simp only [Option.some.injEq] at h; exact Nat.le_of_eq (by rw [h])
  · exact Nat.le_of_lt (newline?_length h)

theorem finishLine?_length {cs rest : List Char} (h : finishLine? cs = some rest) :
    rest.length ≤ cs.length := by
  have hs : (cs.dropWhile isSpace).length ≤ cs.length := (List.dropWhile_sublist _).length_le
  unfold finishLine? skipSpace at h
  split at h
  · rename_i tail ht
    have : (tail.dropWhile isPlain).length ≤ tail.length := (List.dropWhile_sublist _).length_le
    have := endOfLine?_length h
    rw [ht, List.length_cons] at hs
    omega
  · exact Nat.le_trans (endOfLine?_length h) hs

end PagingGate.Toml
