import PagingGate.Json.Error

set_option autoImplicit false

namespace PagingGate.Json

def isBlank (c : Char) : Bool := c = ' ' || c = '\t' || c = '\n' || c = '\r'

def skipBlank (cs : List Char) : List Char := cs.dropWhile isBlank

def expectWord : List Char → List Char → Except Error (List Char)
  | [], cs => .ok cs
  | _ :: _, [] => .error .endOfValue
  | w :: ws, c :: cs => if c = w then expectWord ws cs else .error .expectedWord

inductive Next where
  | done (rest : List Char)
  | item (rest : List Char)

def nextItem (first : Bool) (cs : List Char) : Except Error Next :=
  match skipBlank cs with
  | [] => .error .endOfList
  | c :: rest =>
    if c = ']' then .ok (.done rest)
    else if first then .ok (.item (c :: rest))
    else if c = ',' then
      match skipBlank rest with
      | [] => .error .endOfValue
      | d :: rest => if d = ']' then .error .trailingComma else .ok (.item (d :: rest))
    else .error .expectedCommaOrBracket

def nextKey (first : Bool) (cs : List Char) : Except Error Next :=
  match skipBlank cs with
  | [] => .error .endOfObject
  | c :: rest =>
    if c = '\x7d' then .ok (.done rest)
    else if first then (if c = '"' then .ok (.item rest) else .error .keyNotString)
    else if c = ',' then
      match skipBlank rest with
      | [] => .error .endOfValue
      | d :: rest =>
        if d = '"' then .ok (.item rest)
        else if d = '\x7d' then .error .trailingComma
        else .error .keyNotString
    else .error .expectedCommaOrBrace

def expectColon (cs : List Char) : Except Error (List Char) :=
  match skipBlank cs with
  | [] => .error .endOfObject
  | c :: rest => if c = ':' then .ok rest else .error .expectedColon

def expectListEnd (cs : List Char) : Except Error (List Char) :=
  match skipBlank cs with
  | [] => .error .endOfList
  | c :: rest =>
    if c = ']' then .ok rest
    else if c = ',' then
      .error (if (skipBlank rest).head? = some ']' then .trailingComma else .trailingCharacters)
    else .error .trailingCharacters

theorem skipBlank_length (cs : List Char) : (skipBlank cs).length ≤ cs.length :=
  (List.dropWhile_sublist _).length_le

theorem length_of_skipBlank {cs rest : List Char} {c : Char} (h : skipBlank cs = c :: rest) :
    rest.length < cs.length := by
  have := skipBlank_length cs
  rw [h] at this
  simp only [List.length_cons] at this
  omega

theorem expectWord_length {ws cs rest : List Char} (h : expectWord ws cs = .ok rest) :
    rest.length ≤ cs.length := by
  fun_induction expectWord ws cs with
  | case1 => simp only [Except.ok.injEq] at h; exact Nat.le_of_eq (by rw [h])
  | case2 => simp at h
  | case3 _ _ _ ih => exact Nat.le_succ_of_le (ih h)
  | case4 => simp at h

theorem nextItem_done {first : Bool} {cs rest : List Char} (h : nextItem first cs = .ok (.done rest)) :
    rest.length < cs.length := by
  unfold nextItem at h
  split at h
  · simp at h
  · rename_i hb
    have := length_of_skipBlank hb
    repeat' split at h
    all_goals first
      | (simp only [Except.ok.injEq, Next.done.injEq] at h; rw [← h]; exact this)
      | simp at h

theorem nextItem_item {first : Bool} {cs rest : List Char} (h : nextItem first cs = .ok (.item rest)) :
    rest.length ≤ cs.length := by
  unfold nextItem at h
  split at h
  · simp at h
  · rename_i c tail hb
    have hl := length_of_skipBlank hb
    split at h
    · simp at h
    · split at h
      · simp only [Except.ok.injEq, Next.item.injEq] at h
        rw [← h]; simp only [List.length_cons]; omega
      · split at h
        · split at h
          · simp at h
          · rename_i d tail' hd
            have := length_of_skipBlank hd
            split at h
            · simp at h
            · simp only [Except.ok.injEq, Next.item.injEq] at h
              rw [← h]; simp only [List.length_cons]; omega
        · simp at h

theorem nextKey_length {first : Bool} {cs rest : List Char}
    (h : nextKey first cs = .ok (.done rest) ∨ nextKey first cs = .ok (.item rest)) :
    rest.length < cs.length := by
  unfold nextKey at h
  split at h
  · simp at h
  · rename_i c tail hb
    have hl := length_of_skipBlank hb
    split at h
    · simp only [Except.ok.injEq, Next.done.injEq, reduceCtorEq, or_false] at h
      rw [← h]; exact hl
    · split at h
      · split at h
        · simp only [Except.ok.injEq, Next.item.injEq, reduceCtorEq, false_or] at h
          rw [← h]; exact hl
        · simp at h
      · split at h
        · split at h
          · simp at h
          · rename_i d tail' hd
            have := length_of_skipBlank hd
            split at h
            · simp only [Except.ok.injEq, Next.item.injEq, reduceCtorEq, false_or] at h
              rw [← h]; omega
            · split at h <;> simp at h
        · simp at h

theorem expectColon_length {cs rest : List Char} (h : expectColon cs = .ok rest) :
    rest.length < cs.length := by
  unfold expectColon at h
  split at h
  · simp at h
  · rename_i hb
    have := length_of_skipBlank hb
    split at h
    · simp only [Except.ok.injEq] at h; rw [← h]; exact this
    · simp at h

theorem expectListEnd_length {cs rest : List Char} (h : expectListEnd cs = .ok rest) :
    rest.length < cs.length := by
  unfold expectListEnd at h
  split at h
  · simp at h
  · rename_i hb
    have := length_of_skipBlank hb
    repeat' split at h
    all_goals first
      | (simp only [Except.ok.injEq] at h; rw [← h]; exact this)
      | simp at h

end PagingGate.Json
