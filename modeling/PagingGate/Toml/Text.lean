import PagingGate.Decimal.Numeral
import PagingGate.Toml.Blank

set_option autoImplicit false

namespace PagingGate.Toml

open Text (hexNumber?)

inductive Quote where
  | escaped
  | literal
  deriving DecidableEq, Repr

def Quote.mark : Quote → Char
  | .escaped => '"'
  | .literal => '\''

def shortEscape? : Char → Option Char
  | 'b' => some '\x08'
  | 't' => some '\t'
  | 'n' => some '\n'
  | 'f' => some '\x0c'
  | 'r' => some '\r'
  | '"' => some '"'
  | '\\' => some '\\'
  | _ => none

def charOfNat? (n : Nat) : Option Char := if n.isValidChar then some (Char.ofNat n) else none

def readCode (size : Nat) (cs : List Char) : Option (Char × List Char) :=
  if cs.length < size then none
  else ((hexNumber? (cs.take size)).bind charOfNat?).map (·, cs.drop size)

def readEscape : List Char → Option (Char × List Char)
  | [] => none
  | 'u' :: rest => readCode 4 rest
  | 'U' :: rest => readCode 8 rest
  | c :: rest => (shortEscape? c).map (·, rest)

theorem readCode_length {n : Nat} {cs rest : List Char} {c : Char}
    (h : readCode n cs = some (c, rest)) : rest.length ≤ cs.length := by
  unfold readCode at h
  split at h
  · simp at h
  · simp only [Option.map_eq_some_iff, Prod.mk.injEq] at h
    obtain ⟨_, _, _, rfl⟩ := h
    rw [List.length_drop]; omega

theorem readEscape_length {cs rest : List Char} {c : Char} (h : readEscape cs = some (c, rest)) :
    rest.length < cs.length := by
  unfold readEscape at h
  split at h
  · simp at h
  · exact Nat.lt_succ_of_le (readCode_length h)
  · exact Nat.lt_succ_of_le (readCode_length h)
  · simp only [Option.map_eq_some_iff, Prod.mk.injEq] at h
    obtain ⟨_, _, _, rfl⟩ := h
    exact Nat.lt_succ_self _

def prepend (c : Char) : List Char × List Char → List Char × List Char
  | (text, rest) => (c :: text, rest)

def readLine (q : Quote) (cs : List Char) : Option (List Char × List Char) :=
  match cs with
  | [] => none
  | c :: rest =>
    if c = q.mark then some ([], rest)
    else if c = '\\' ∧ q = .escaped then
      match _h : readEscape rest with
      | some (d, rest) => (readLine q rest).map (prepend d)
      | none => none
    else if isPlain c then (readLine q rest).map (prepend c)
    else none
termination_by cs.length
decreasing_by
  · exact Nat.lt_succ_of_lt (readEscape_length _h)
  · exact Nat.lt_succ_self _

theorem map_prepend {r : Option (List Char × List Char)} {c : Char} {text rest : List Char}
    (h : r.map (prepend c) = some (text, rest)) : ∃ tail, r = some (tail, rest) := by
  obtain ⟨⟨t, u⟩, hr, he⟩ := Option.map_eq_some_iff.1 h
  simp only [prepend, Prod.mk.injEq] at he
  exact ⟨t, by rw [hr, he.2]⟩

theorem readLine_length {q : Quote} {cs text rest : List Char} (h : readLine q cs = some (text, rest)) :
    rest.length < cs.length := by
  fun_induction readLine q cs generalizing text with
  | case1 => simp at h
  | case2 => simp only [Option.some.injEq, Prod.mk.injEq] at h; rw [← h.2]; exact Nat.lt_succ_self _
  | case3 _ _ _ _ _ _ he ih =>
    obtain ⟨_, ht⟩ := map_prepend h
    exact Nat.lt_trans (ih ht) (Nat.lt_succ_of_lt (readEscape_length he))
  | case4 => simp at h
  | case5 _ _ _ _ _ ih =>
    obtain ⟨_, ht⟩ := map_prepend h
    exact Nat.lt_succ_of_lt (ih ht)
  | case6 => simp at h

/-- Behind three quotes that may close a block: up to two of those that follow belong to its text. -/
def closeBlock (q : Quote) : List Char → List Char × List Char
  | c :: d :: rest =>
    if c = q.mark then (if d = q.mark then ([c, d], rest) else ([c], d :: rest)) else ([], c :: d :: rest)
  | [c] => if c = q.mark then ([c], []) else ([], [c])
  | [] => ([], [])

def tripled (q : Quote) (cs : List Char) : Bool := [q.mark, q.mark, q.mark].isPrefixOf cs

def skipLines : List Char → List Char
  | '\r' :: '\n' :: rest => skipLines rest
  | c :: rest => if isSpace c || c = '\n' then skipLines rest else c :: rest
  | [] => []

def joinedLine? (cs : List Char) : Option (List Char) := (newline? (skipSpace cs)).map skipLines

theorem skipLines_length (cs : List Char) : (skipLines cs).length ≤ cs.length := by
  fun_induction skipLines cs with
  | case1 rest ih => simp only [List.length_cons]; omega
  | case2 c rest _ _ ih => simp only [List.length_cons]; omega
  | case3 => exact Nat.le_refl _
  | case4 => exact Nat.le_refl _

theorem joinedLine?_length {cs rest : List Char} (h : joinedLine? cs = some rest) :
    rest.length < cs.length := by
  obtain ⟨tail, ht, rfl⟩ := Option.map_eq_some_iff.1 h
  exact Nat.lt_of_le_of_lt (skipLines_length tail)
    (Nat.lt_of_lt_of_le (newline?_length ht) (List.dropWhile_sublist _).length_le)

/-- A block, behind its opening quotes. Every line break in it counts as a line feed. -/
def readBlock (q : Quote) (cs : List Char) : Option (List Char × List Char) :=
  match cs with
  | [] => none
  | '\r' :: '\n' :: rest => (readBlock q rest).map (prepend '\n')
  | c :: rest =>
    if tripled q (c :: rest) then some (closeBlock q (rest.drop 2))
    else if c = '\\' ∧ q = .escaped then
      match _hj : joinedLine? rest with
      | some rest => readBlock q rest
      | none =>
        match _he : readEscape rest with
        | some (d, rest) => (readBlock q rest).map (prepend d)
        | none => none
    else if isPlain c || c = '\n' then (readBlock q rest).map (prepend c)
    else none
termination_by cs.length
decreasing_by
  · simp only [List.length_cons]; omega
  · exact Nat.lt_succ_of_lt (joinedLine?_length _hj)
  · exact Nat.lt_succ_of_lt (readEscape_length _he)
  · exact Nat.lt_succ_self _

theorem closeBlock_length (q : Quote) (cs : List Char) : (closeBlock q cs).2.length ≤ cs.length := by
  unfold closeBlock
  repeat' split
  all_goals simp only [List.length_cons, List.length_nil]; omega

theorem readBlock_length {q : Quote} {cs text rest : List Char}
    (h : readBlock q cs = some (text, rest)) : rest.length < cs.length := by
  fun_induction readBlock q cs generalizing text with
  | case1 => simp at h
  | case2 _ ih =>
    obtain ⟨_, ht⟩ := map_prepend h
    have := ih ht
    simp only [List.length_cons]; omega
  | case3 c tail =>
    have := closeBlock_length q (tail.drop 2)
    rw [Option.some.injEq] at h
    rw [h, List.length_drop] at this
    dsimp only at this
    simp only [List.length_cons]; omega
  | case4 _ _ _ _ _ _ hj ih => exact Nat.lt_trans (ih h) (Nat.lt_succ_of_lt (joinedLine?_length hj))
  | case5 _ _ _ _ _ _ _ _ he ih =>
    obtain ⟨_, ht⟩ := map_prepend h
    exact Nat.lt_trans (ih ht) (Nat.lt_succ_of_lt (readEscape_length he))
  | case6 => simp at h
  | case7 _ _ _ _ _ _ ih =>
    obtain ⟨_, ht⟩ := map_prepend h
    exact Nat.lt_succ_of_lt (ih ht)
  | case8 => simp at h

/-- A string whose first quote is `q`, which has been taken. A line break right behind the opening of a
block is not part of it. -/
def readQuoted (q : Quote) (cs : List Char) : Option (List Char × List Char) :=
  if [q.mark, q.mark].isPrefixOf cs then
    let body := cs.drop 2
    readBlock q ((newline? body).getD body)
  else readLine q cs

theorem readQuoted_length {q : Quote} {cs text rest : List Char}
    (h : readQuoted q cs = some (text, rest)) : rest.length < cs.length := by
  unfold readQuoted at h
  split at h
  · have hb := readBlock_length h
    have hd : (cs.drop 2).length ≤ cs.length := by rw [List.length_drop]; omega
    cases hn : newline? (cs.drop 2) with
    | none => rw [hn, Option.getD_none] at hb; omega
    | some body =>
      have := newline?_length hn
      rw [hn, Option.getD_some] at hb; omega
  · exact readLine_length h

end PagingGate.Toml
