import PagingGate.Json.Blank
import PagingGate.Json.Number
import PagingGate.Json.String

set_option autoImplicit false

/-!
# Values that are passed over

A value nobody asks for is only scanned to its end. The lists and objects that are still open are kept
in a list of their own, so nesting has no limit. Numbers must be well formed but are not computed.
-/

namespace PagingGate.Json

open Decimal (splitSign)

inductive Frame where
  | list
  | object
  deriving DecidableEq, Repr

def Frame.closer : Frame → Char
  | .list => ']'
  | .object => '\x7d'

def Frame.endError : Frame → Error
  | .list => .endOfList
  | .object => .endOfObject

def Frame.commaError : Frame → Error
  | .list => .expectedCommaOrBracket
  | .object => .expectedCommaOrBrace

def skipExponent (cs : List Char) : Except Error (List Char) :=
  let rest := (splitSign cs).2
  if startsWithDigit rest then .ok (rest.dropWhile Char.isDigit) else .error .invalidNumber

def skipScale (cs : List Char) : Except Error (List Char) :=
  match cs with
  | [] => .ok []
  | c :: rest => if c = 'e' ∨ c = 'E' then skipExponent rest else .ok (c :: rest)

def skipAfterWhole (cs : List Char) : Except Error (List Char) :=
  match cs with
  | '.' :: rest =>
    if startsWithDigit rest then skipScale (rest.dropWhile Char.isDigit) else .error .invalidNumber
  | cs => skipScale cs

/-- A number after its sign. It is malformed also where the text ends in it. -/
def skipNumber (cs : List Char) : Except Error (List Char) :=
  match cs with
  | [] => .error .invalidNumber
  | c :: rest =>
    if c = '0' then (if startsWithDigit rest then .error .invalidNumber else skipAfterWhole rest)
    else if c.isDigit then skipAfterWhole (rest.dropWhile Char.isDigit)
    else .error .invalidNumber

def skipScalar (c : Char) (rest : List Char) : Except Error (List Char) :=
  if c = 'n' then expectWord "ull".toList rest
  else if c = 't' then expectWord "rue".toList rest
  else if c = 'f' then expectWord "alse".toList rest
  else if c = '-' then skipNumber rest
  else if c.isDigit then skipNumber (c :: rest)
  else if c = '"' then skipString rest
  else .error .expectedValue

def skipKey (f : Frame) (cs : List Char) : Except Error (List Char) :=
  match f with
  | .list => .ok cs
  | .object =>
    match skipBlank cs with
    | [] => .error .endOfObject
    | c :: rest =>
      if c = '"' then do expectColon (← skipString rest) else .error .keyNotString

/-- What is looked for next: a value, the item or the end after an opening bracket, or the comma or
the end after an item. -/
inductive Goal where
  | value
  | first
  | after
  deriving DecidableEq, Repr

/-- A scan under way. The innermost open list or object comes first. -/
structure Scan where
  goal : Goal
  frames : List Frame
  text : List Char

inductive Progress where
  | done (rest : List Char)
  | more (s : Scan)

def opened? (c : Char) : Option Frame :=
  if c = '[' then some .list else if c = '\x7b' then some .object else none

def Scan.close (frames : List Frame) (rest : List Char) : Progress :=
  if frames = [] then .done rest else .more ⟨.after, frames, rest⟩

def Scan.stepValue (frames : List Frame) (cs : List Char) : Except Error Progress :=
  match skipBlank cs with
  | [] => .error .endOfValue
  | c :: rest =>
    match opened? c with
    | some f => .ok (.more ⟨.first, f :: frames, rest⟩)
    | none => do
      let rest ← skipScalar c rest
      pure (close frames rest)

def Scan.stepFrame (afterItem : Bool) (f : Frame) (frames : List Frame) (cs : List Char) :
    Except Error Progress :=
  match skipBlank cs with
  | [] => .error f.endError
  | c :: rest =>
    if afterItem && c = ',' then do
      let rest ← skipKey f rest
      pure (.more ⟨.value, f :: frames, rest⟩)
    else if c = f.closer then .ok (close frames rest)
    else if afterItem then .error f.commaError
    else do
      let rest ← skipKey f (c :: rest)
      pure (.more ⟨.value, f :: frames, rest⟩)

def Scan.step (s : Scan) : Except Error Progress :=
  match s.goal, s.frames with
  | .value, frames => stepValue frames s.text
  | .first, f :: frames => stepFrame false f frames s.text
  | .after, f :: frames => stepFrame true f frames s.text
  | _, [] => .ok (.done s.text)

/-- Each step takes characters, or turns from the item after a bracket to its value. -/
def Scan.size (s : Scan) : Nat := 2 * s.text.length + (if s.goal = .value then 0 else 1)

theorem skipExponent_length {cs rest : List Char} (h : skipExponent cs = .ok rest) :
    rest.length ≤ cs.length := by
  have hs := splitSign_length cs
  have hd : ((splitSign cs).2.dropWhile Char.isDigit).length ≤ (splitSign cs).2.length :=
    (List.dropWhile_sublist _).length_le
  simp only [skipExponent] at h
  split at h
  · simp only [Except.ok.injEq] at h; rw [← h]; omega
  · simp at h

theorem skipScale_length {cs rest : List Char} (h : skipScale cs = .ok rest) :
    rest.length ≤ cs.length := by
  unfold skipScale at h
  split at h
  · simp only [Except.ok.injEq] at h; exact Nat.le_of_eq (by rw [← h])
  · split at h
    · exact Nat.le_succ_of_le (skipExponent_length h)
    · simp only [Except.ok.injEq] at h; exact Nat.le_of_eq (by rw [← h])

theorem skipAfterWhole_length {cs rest : List Char} (h : skipAfterWhole cs = .ok rest) :
    rest.length ≤ cs.length := by
  unfold skipAfterWhole at h
  split at h
  · split at h
    · exact Nat.le_succ_of_le (Nat.le_trans (skipScale_length h) (List.dropWhile_sublist _).length_le)
    · simp at h
  · exact skipScale_length h

theorem skipNumber_length {cs rest : List Char} (h : skipNumber cs = .ok rest) :
    rest.length < cs.length := by
  unfold skipNumber at h
  split at h
  · simp at h
  · split at h
    · split at h
      · simp at h
      · exact Nat.lt_succ_of_le (skipAfterWhole_length h)
    · split at h
      · exact Nat.lt_succ_of_le (Nat.le_trans (skipAfterWhole_length h) (List.dropWhile_sublist _).length_le)
      · simp at h

theorem skipScalar_length {c : Char} {cs rest : List Char} (h : skipScalar c cs = .ok rest) :
    rest.length ≤ cs.length := by
  unfold skipScalar at h
  repeat' split at h
  · exact expectWord_length h
  · exact expectWord_length h
  · exact expectWord_length h
  · exact Nat.le_of_lt (skipNumber_length h)
  · exact Nat.le_of_lt_succ (skipNumber_length h)
  · exact Nat.le_of_lt (skipString_length h)
  · simp at h

theorem skipKey_length {f : Frame} {cs rest : List Char} (h : skipKey f cs = .ok rest) :
    rest.length ≤ cs.length := by
  unfold skipKey at h
  split at h
  · simp only [Except.ok.injEq] at h; exact Nat.le_of_eq (by rw [← h])
  · split at h
    · simp at h
    · rename_i hb
      have := length_of_skipBlank hb
      split at h
      · obtain ⟨_, hs, h⟩ := Except.bind_eq_ok.mp h
        have := skipString_length hs
        have := expectColon_length h
        omega
      · simp at h

def Progress.text : Progress → List Char
  | .done rest => rest
  | .more s => s.text

theorem Scan.close_cases (frames : List Frame) (rest : List Char) :
    close frames rest = .done rest ∨ close frames rest = .more ⟨.after, frames, rest⟩ := by
  unfold close
  split
  · exact .inl rfl
  · exact .inr rfl

theorem Scan.close_text (frames : List Frame) (rest : List Char) : (close frames rest).text = rest := by
  rcases close_cases frames rest with h | h <;> rw [h] <;> rfl

theorem Scan.close_goal {frames : List Frame} {rest : List Char} {t : Scan} (h : close frames rest = .more t) :
    t.goal = .after := by
  rcases close_cases frames rest with hclose | hclose <;> rw [hclose] at h
  · cases h
  · rw [← Progress.more.inj h]

theorem Scan.stepValue_length {frames : List Frame} {cs : List Char} {p : Progress} (h : stepValue frames cs = .ok p) :
    p.text.length < cs.length ∧ ∀ t, p = .more t → t.goal ≠ .value := by
  unfold stepValue at h
  split at h
  · simp at h
  · rename_i hb
    have := length_of_skipBlank hb
    split at h
    · obtain rfl := Except.ok.inj h
      refine ⟨this, fun t ht => ?_⟩
      obtain rfl := Progress.more.inj ht
      simp
    · obtain ⟨_, hs, h⟩ := Except.bind_eq_ok.mp h
      have := skipScalar_length hs
      obtain rfl := Except.ok.inj h
      refine ⟨by rw [close_text]; omega, fun t ht => ?_⟩
      simp [close_goal ht]

/-- Only a turn to a value may take nothing. -/
theorem Scan.stepFrame_length {afterItem : Bool} {f : Frame} {frames : List Frame} {cs : List Char}
    {p : Progress} (h : stepFrame afterItem f frames cs = .ok p) :
    p.text.length < cs.length ∨ p.text.length ≤ cs.length ∧ ∃ t, p = .more t ∧ t.goal = .value := by
  unfold stepFrame at h
  split at h
  · simp at h
  · rename_i hb
    have := length_of_skipBlank hb
    split at h
    · obtain ⟨_, hs, h⟩ := Except.bind_eq_ok.mp h
      have := skipKey_length hs
      obtain rfl := Except.ok.inj h
      exact .inl (by simp only [Progress.text]; omega)
    · split at h
      · obtain rfl := Except.ok.inj h
        exact .inl (by rwa [close_text])
      · split at h
        · simp at h
        · obtain ⟨_, hs, h⟩ := Except.bind_eq_ok.mp h
          have := skipKey_length hs
          simp only [List.length_cons] at this
          obtain rfl := Except.ok.inj h
          exact .inr ⟨by simp only [Progress.text]; omega, _, rfl, rfl⟩

theorem Scan.size_of_stepFrame {afterItem : Bool} {f : Frame} {frames : List Frame} {s t : Scan}
    (h : stepFrame afterItem f frames s.text = .ok (.more t)) (hs : s.goal ≠ .value) : t.size < s.size := by
  rcases stepFrame_length h with hl | ⟨hl, _, ht, hg⟩ <;> simp only [Progress.text] at hl
  · simp only [size, hs, if_false]
    split <;> omega
  · obtain rfl := Progress.more.inj ht
    simp only [size, hs, hg, if_true, if_false]
    omega

theorem Scan.step_more {s t : Scan} (h : s.step = .ok (.more t)) : t.size < s.size := by
  obtain ⟨goal, frames, text⟩ := s
  cases goal with
  | value =>
    obtain ⟨hl, hg⟩ := stepValue_length h
    simp only [Progress.text] at hl
    simp only [size, hg t rfl, if_true, if_false]
    omega
  | first =>
    cases frames with
    | nil => simp [step] at h
    | cons f frames => exact size_of_stepFrame h (by simp)
  | after =>
    cases frames with
    | nil => simp [step] at h
    | cons f frames => exact size_of_stepFrame h (by simp)

def Scan.run (s : Scan) : Except Error (List Char) :=
  match _h : s.step with
  | .error e => .error e
  | .ok (.done rest) => .ok rest
  | .ok (.more t) => t.run
termination_by s.size
decreasing_by exact Scan.step_more _h

def skipValue (cs : List Char) : Except Error (List Char) := Scan.run ⟨.value, [], cs⟩

theorem Scan.step_text {s : Scan} {p : Progress} (h : s.step = .ok p) : p.text.length ≤ s.text.length := by
  obtain ⟨goal, frames, text⟩ := s
  cases goal with
  | value => exact Nat.le_of_lt (stepValue_length h).1
  | first =>
    cases frames with
    | nil => exact Nat.le_of_eq (congrArg (·.text.length) (Except.ok.inj h).symm)
    | cons f frames => exact (stepFrame_length h).elim Nat.le_of_lt And.left
  | after =>
    cases frames with
    | nil => exact Nat.le_of_eq (congrArg (·.text.length) (Except.ok.inj h).symm)
    | cons f frames => exact (stepFrame_length h).elim Nat.le_of_lt And.left

theorem Scan.run_length {s : Scan} {rest : List Char} (h : s.run = .ok rest) :
    rest.length ≤ s.text.length := by
  fun_induction Scan.run s with
  | case1 => simp at h
  | case2 s rest' hs =>
    have := step_text hs
    simp only [Except.ok.injEq] at h
    rw [← h]; exact this
  | case3 s t hs ih =>
    have := step_text hs
    exact Nat.le_trans (ih h) this

theorem skipValue_length {cs rest : List Char} (h : skipValue cs = .ok rest) :
    rest.length ≤ cs.length := Scan.run_length h

end PagingGate.Json
