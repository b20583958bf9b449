import PagingGate.Decimal.Numeral
import PagingGate.Json.Error

set_option autoImplicit false

namespace PagingGate.Json

open Text (hexNumber?)

def shortEscape? : Char → Option Char
  | '"' => some '"'
  | '\\' => some '\\'
  | '/' => some '/'
  | 'b' => some '\x08'
  | 'f' => some '\x0c'
  | 'n' => some '\n'
  | 'r' => some '\r'
  | 't' => some '\t'
  | _ => none

def byteLength (cs : List Char) : Nat := cs.foldl (fun n c => n + c.utf8Size) 0

/-- The four digits of an escape. When fewer than four bytes are left, the text has ended in it. -/
def readUnit (cs : List Char) : Except Error (Nat × List Char) :=
  match cs with
  | a :: b :: c :: d :: rest =>
    match hexNumber? [a, b, c, d] with
    | some n => .ok (n, rest)
    | none => .error .invalidEscape
  | _ => if 4 ≤ byteLength cs then .error .invalidEscape else .error .endOfString

def isLowSurrogate (n : Nat) : Bool := decide (0xDC00 ≤ n) && decide (n ≤ 0xDFFF)
def isHighSurrogate (n : Nat) : Bool := decide (0xD800 ≤ n) && decide (n ≤ 0xDBFF)

def surrogatePair (high low : Nat) : Char :=
  Char.ofNat ((high - 0xD800) * 0x400 + (low - 0xDC00) + 0x10000)

def readLowSurrogate (high : Nat) (cs : List Char) : Except Error (Char × List Char) :=
  match cs with
  | [] => .error .endOfString
  | ['\\'] => .error .endOfString
  | '\\' :: 'u' :: rest => do
    let (low, rest) ← readUnit rest
    if isLowSurrogate low then pure (surrogatePair high low, rest) else .error .loneSurrogate
  | _ => .error .unpairedSurrogate

def readEscape (cs : List Char) : Except Error (Char × List Char) :=
  match cs with
  | [] => .error .endOfString
  | 'u' :: rest => do
    let (n, rest) ← readUnit rest
    if isLowSurrogate n then .error .loneSurrogate
    else if isHighSurrogate n then readLowSurrogate n rest
    else pure (Char.ofNat n, rest)
  | c :: rest =>
    match shortEscape? c with
    | some d => .ok (d, rest)
    | none => .error .invalidEscape

def skipEscape (cs : List Char) : Except Error (List Char) :=
  match cs with
  | [] => .error .endOfString
  | 'u' :: rest => do
    let (_, rest) ← readUnit rest
    pure rest
  | c :: rest => if (shortEscape? c).isSome then .ok rest else .error .invalidEscape

theorem readUnit_length {cs rest : List Char} {n : Nat} (h : readUnit cs = .ok (n, rest)) :
    rest.length < cs.length := by
  unfold readUnit at h
  split at h
  · split at h
    · simp only [Except.ok.injEq, Prod.mk.injEq] at h
      rw [← h.2]; simp only [List.length_cons]; omega
    · simp at h
  · split at h <;> simp at h

theorem readLowSurrogate_length {high : Nat} {cs rest : List Char} {c : Char}
    (h : readLowSurrogate high cs = .ok (c, rest)) : rest.length < cs.length := by
  unfold readLowSurrogate at h
  split at h
  · simp at h
  · simp at h
  · obtain ⟨⟨_, _⟩, hunit, h⟩ := Except.bind_eq_ok.mp h
    have := readUnit_length hunit
    dsimp only at h
    split at h
    · obtain ⟨_, rfl⟩ := Prod.mk.inj (Except.ok.inj h)
      simp only [List.length_cons]; omega
    · simp at h
  · simp at h

theorem readEscape_length {cs rest : List Char} {c : Char} (h : readEscape cs = .ok (c, rest)) :
    rest.length < cs.length := by
  unfold readEscape at h
  split at h
  · simp at h
  · obtain ⟨⟨_, _⟩, hunit, h⟩ := Except.bind_eq_ok.mp h
    have := readUnit_length hunit
    dsimp only at h
    split at h
    · simp at h
    · split at h
      · have := readLowSurrogate_length h
        simp only [List.length_cons]; omega
      · obtain ⟨_, rfl⟩ := Prod.mk.inj (Except.ok.inj h)
        simp only [List.length_cons]; omega
  · split at h
    · simp only [Except.ok.injEq, Prod.mk.injEq] at h
      rw [← h.2]; simp
    · simp at h

theorem skipEscape_length {cs rest : List Char} (h : skipEscape cs = .ok rest) :
    rest.length < cs.length := by
  unfold skipEscape at h
  split at h
  · simp at h
  · obtain ⟨_, hunit, h⟩ := Except.bind_eq_ok.mp h
    have := readUnit_length hunit
    obtain rfl := Except.ok.inj h
    simp only [List.length_cons]; omega
  · split at h
    · simp only [Except.ok.injEq] at h
      rw [← h]; simp
    · simp at h

def readString (cs : List Char) : Except Error (List Char × List Char) :=
  match cs with
  | [] => .error .endOfString
  | c :: cs =>
    if c = '"' then .ok ([], cs)
    else if c = '\\' then
      match _h : readEscape cs with
      | .error e => .error e
      | .ok (d, rest) => (readString rest).map fun (text, rest) => (d :: text, rest)
    else if c.toNat < 32 then .error .controlCharacter
    else (readString cs).map fun (text, rest) => (c :: text, rest)
termination_by cs.length
decreasing_by
  · have := readEscape_length _h
    simp only [List.length_cons]; omega
  · simp

def skipString (cs : List Char) : Except Error (List Char) :=
  match cs with
  | [] => .error .endOfString
  | c :: cs =>
    if c = '"' then .ok cs
    else if c = '\\' then
      match _h : skipEscape cs with
      | .error e => .error e
      | .ok rest => skipString rest
    else if c.toNat < 32 then .error .controlCharacter
    else skipString cs
termination_by cs.length
decreasing_by
  · have := skipEscape_length _h
    simp only [List.length_cons]; omega
  · simp

theorem readString_length {cs text rest : List Char} (h : readString cs = .ok (text, rest)) :
    rest.length < cs.length := by
  fun_induction readString cs generalizing text rest with
  | case1 => simp at h
  | case2 => simp only [Except.ok.injEq, Prod.mk.injEq] at h; rw [← h.2]; simp
  | case3 => simp at h
  | case4 cs d rest' he _ ih =>
    obtain ⟨_, hr, h⟩ := Except.map_eq_ok.mp h
    obtain ⟨_, rfl⟩ := Prod.mk.inj h
    have := readEscape_length he
    have := ih hr
    simp only [List.length_cons]; omega
  | case5 => simp at h
  | case6 c cs _ _ _ ih =>
    obtain ⟨_, hr, h⟩ := Except.map_eq_ok.mp h
    obtain ⟨_, rfl⟩ := Prod.mk.inj h
    have := ih hr
    simp only [List.length_cons]; omega

theorem skipString_length {cs rest : List Char} (h : skipString cs = .ok rest) :
    rest.length < cs.length := by
  fun_induction skipString cs with
  | case1 => simp at h
  | case2 => simp only [Except.ok.injEq] at h; rw [← h]; simp
  | case3 => simp at h
  | case4 cs rest' he _ ih =>
    have := skipEscape_length he
    have := ih h
    simp only [List.length_cons]; omega
  | case5 => simp at h
  | case6 c cs _ _ _ ih =>
    have := ih h
    simp only [List.length_cons]; omega

end PagingGate.Json
