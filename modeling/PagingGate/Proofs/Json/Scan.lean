import PagingGate.Json.Skip
import PagingGate.Proofs.Json.Strings
import PagingGate.Proofs.Json.Tokens

set_option autoImplicit false

/-!
# Values that are passed over

A scan takes any value that the grammar has, to its end and not further, and nothing else. What holds of one
value holds inside any open lists and objects.
-/

namespace PagingGate.Json

variable {v : Value} {t u p s ws rest cs : List Char} {first : Bool} {f : Frame} {frames : List Frame}

/-- The text behind an opening bracket, or behind an item, up to the closing bracket. -/
def Frame.Spelled : Frame → Bool → List Char → Prop
  | .list, first, t => ∃ vs, Spells (.items first vs) t
  | .object, first, t => ∃ ms, Spells (.members first ms) t

def Frame.Introduces : Frame → Bool → List Char → Prop
  | .list, first, front => IsSeparator first front
  | .object, first, front => ∃ sep key a b, IsSeparator first sep ∧ IsBlank a ∧ IsBlank b ∧
      front = sep ++ (quoted key ++ (a ++ ':' :: b))

theorem Frame.spelled_closer (f : Frame) (first : Bool) (hw : IsBlank ws) :
    f.Spelled first (ws ++ [f.closer]) := by
  cases f with
  | list => exact ⟨[], .noItem hw⟩
  | object => exact ⟨[], .noMember hw⟩

theorem Frame.spelled_value {front : List Char} (hf : f.Introduces first front) (hv : Spells (.value v) t)
    (hu : f.Spelled false u) : f.Spelled first (front ++ (t ++ u)) := by
  cases f with
  | list =>
    obtain ⟨vs, hvs⟩ := hu
    exact ⟨v :: vs, .item hf hv hvs⟩
  | object =>
    obtain ⟨sep, key, a, b, hsep, ha, hb, rfl⟩ := hf
    obtain ⟨ms, hms⟩ := hu
    refine ⟨(key, v) :: ms, ?_⟩
    have hmember : Spells (.members first ((key, v) :: ms)) _ := .member hsep ha hb hv hms
    simpa only [List.append_assoc, List.cons_append] using hmember

theorem Frame.Spelled.stops (h : f.Spelled false t) (rest : List Char) : Stops (t ++ rest) := by
  cases f with
  | list => exact h.elim fun _ hvs => hvs.stops_items rest
  | object => exact h.elim fun _ hms => hms.stops_members rest

theorem Frame.Introduces.append_blank {front : List Char} (h : f.Introduces first front) (hw : IsBlank ws) :
    f.Introduces first (front ++ ws) := by
  cases f with
  | list => exact IsSeparator.append_blank h hw
  | object =>
    obtain ⟨sep, key, a, b, hsep, ha, hb, rfl⟩ := h
    exact ⟨sep, key, a, b ++ ws, hsep, ha, by simp [hb, hw], by simp⟩

theorem skipScalar_digit {c : Char} (hd : c.isDigit = true) (rest : List Char) :
    skipScalar c rest = skipNumber (c :: rest) := by
  have hne : c ≠ 'n' ∧ c ≠ 't' ∧ c ≠ 'f' ∧ c ≠ '-' := by
    refine ⟨?_, ?_, ?_, ?_⟩ <;> rintro rfl <;> exact absurd hd (by decide)
  simp [skipScalar, hne, hd]

theorem opened?_digit {c : Char} (hd : c.isDigit = true) : opened? c = none := by
  have hne : c ≠ '[' ∧ c ≠ '\x7b' := by
    refine ⟨?_, ?_⟩ <;> rintro rfl <;> exact absurd hd (by decide)
  simp [opened?, hne]

theorem skipScalar_sign (n : Literal) (h : n.negative = false → startsWithDigit cs = true) :
    ∃ c tail, n.sign ++ cs = c :: tail ∧ isBlank c = false ∧ opened? c = none ∧
      skipScalar c tail = skipNumber cs := by
  cases hn : n.negative with
  | true => exact ⟨'-', cs, by rw [Literal.sign, hn]; rfl, by decide, rfl, rfl⟩
  | false =>
    have hstart := h hn
    cases cs with
    | nil => simp [startsWithDigit] at hstart
    | cons c tail =>
      exact ⟨c, tail, by rw [Literal.sign, hn]; rfl, isBlank_of_isDigit hstart, opened?_digit hstart,
        skipScalar_digit hstart tail⟩

theorem skipScalar_literal (n : Literal) (h : n.Ends rest) : ∃ c tail, n.text ++ rest = c :: tail ∧
    isBlank c = false ∧ opened? c = none ∧ skipScalar c tail = .ok rest := by
  rw [Literal.text, List.append_assoc, ← skipNumber_literal n h]
  exact skipScalar_sign n fun _ => n.startsWithDigit_unsigned rest

theorem skipScalar_eq_ok {c : Char} {tail : List Char} (h : skipScalar c tail = .ok rest) :
    ∃ v t, Spells (.value v) t ∧ c :: tail = t ++ rest := by
  have hnumber : ∀ negative cs, skipNumber cs = .ok rest →
      ∃ n : Literal, n.negative = negative ∧ cs = n.unsigned ++ rest := by
    intro negative cs hcs
    rcases literal_or_breaks negative cs with ⟨n, rest', hn, rfl, hends⟩ | ⟨front, rest', hb, rfl⟩
    · rw [skipNumber_literal n hends, Except.ok.injEq] at hcs
      exact ⟨n, hn, by rw [hcs]⟩
    · simp [skipNumber_breaks hb] at hcs
  unfold skipScalar at h
  split at h
  · rename_i hc
    exact ⟨.null, _, .null, by rw [hc, expectWord_eq_ok h]; rfl⟩
  split at h
  · rename_i hc
    exact ⟨.flag true, _, .yes, by rw [hc, expectWord_eq_ok h]; rfl⟩
  split at h
  · rename_i hc
    exact ⟨.flag false, _, .no, by rw [hc, expectWord_eq_ok h]; rfl⟩
  split at h
  · rename_i hc
    obtain ⟨n, hn, rfl⟩ := hnumber true tail h
    exact ⟨.number n, _, .number n, by rw [hc, Literal.text_of_negative hn, List.cons_append]⟩
  split at h
  · obtain ⟨n, hn, hcs⟩ := hnumber false (c :: tail) h
    exact ⟨.number n, _, .number n, by rw [hcs, Literal.text_of_not_negative hn]⟩
  split at h
  · rename_i hc
    obtain ⟨s, rfl⟩ := skipString_eq_ok h
    exact ⟨.string s, _, .string s, by rw [hc, quoted, List.cons_append]⟩
  · simp at h

namespace Scan

def resume (frames : List Frame) (rest : List Char) : Except Error (List Char) :=
  if frames = [] then .ok rest else run ⟨.after, frames, rest⟩

def goalOf (first : Bool) : Goal := if first then .first else .after

theorem run_of_more {s t : Scan} (h : s.step = .ok (.more t)) : s.run = t.run := by
  rw [run]
  split <;> simp_all

theorem run_of_close {s : Scan} (h : s.step = .ok (close frames rest)) : s.run = resume frames rest := by
  rw [run]
  unfold close at h
  unfold resume
  split <;> split <;> simp_all

theorem run_of_error {s : Scan} {e : Error} (h : s.step = .error e) : s.run = .error e := by
  rw [run]
  split <;> simp_all

@[simp] theorem step_goalOf (first : Bool) (f : Frame) (frames : List Frame) (cs : List Char) :
    step ⟨goalOf first, f :: frames, cs⟩ = stepFrame (!first) f frames cs := by
  cases first <;> rfl

theorem resume_cons (f : Frame) (frames : List Frame) (rest : List Char) :
    resume (f :: frames) rest = run ⟨goalOf false, f :: frames, rest⟩ := if_neg (List.cons_ne_nil f frames)

theorem stepFrame_blank (b : Bool) (f : Frame) (frames : List Frame) (hw : IsBlank ws) :
    stepFrame b f frames ws = .error f.endError := by
  rw [stepFrame, skipBlank_eq_nil_iff.mpr hw]

theorem stepFrame_closer (b : Bool) (f : Frame) (frames : List Frame) (hw : IsBlank ws) :
    stepFrame b f frames (ws ++ f.closer :: rest) = .ok (close frames rest) := by
  have hb : isBlank f.closer = false := by cases f <;> rfl
  have hc : f.closer ≠ ',' := by cases f <;> decide
  rw [stepFrame, skipBlank_mark hw hb]
  simp [hc]

theorem stepFrame_comma (f : Frame) (frames : List Frame) (hw : IsBlank ws) (cs : List Char) :
    stepFrame true f frames (ws ++ ',' :: cs) =
      (skipKey f cs).map fun rest => .more ⟨.value, f :: frames, rest⟩ := by
  rw [stepFrame, skipBlank_mark hw (by decide)]
  rfl

theorem stepFrame_first {c : Char} (frames : List Frame) (hw : IsBlank ws) (hc : isBlank c = false)
    (hf : c ≠ f.closer) (cs : List Char) : stepFrame false f frames (ws ++ c :: cs) =
      (skipKey f (c :: cs)).map fun rest => .more ⟨.value, f :: frames, rest⟩ := by
  rw [stepFrame, skipBlank_mark hw hc]
  simp only [Bool.false_and, Bool.false_eq_true, if_false, if_neg hf]
  rfl

@[simp] theorem skipKey_list (cs : List Char) : skipKey .list cs = .ok cs := rfl

theorem skipKey_quote (hw : IsBlank ws) (cs : List Char) :
    skipKey .object (ws ++ '"' :: cs) = skipString cs >>= expectColon := by
  rw [skipKey, skipBlank_mark hw (by decide)]
  rfl

theorem stepFrame_item {sep : List Char} (frames : List Frame) (hsep : IsSeparator first sep)
    (h : StartsValue cs) : ∃ ws, IsBlank ws ∧
      stepFrame (!first) .list frames (sep ++ cs) = .ok (.more ⟨.value, .list :: frames, ws ++ cs⟩) := by
  cases first with
  | true =>
    obtain ⟨c, tail, rfl, hc, hbracket⟩ := h
    exact ⟨[], isBlank_nil, stepFrame_first (f := .list) frames hsep hc hbracket tail⟩
  | false =>
    obtain ⟨a, b, ha, hb, rfl⟩ := hsep
    refine ⟨b, hb, ?_⟩
    rw [List.append_assoc, List.cons_append]
    exact stepFrame_comma .list frames ha (b ++ cs)

theorem stepFrame_key {sep : List Char} (frames : List Frame) (hsep : IsSeparator first sep) (cs : List Char) :
    stepFrame (!first) .object frames (sep ++ '"' :: cs) =
      (skipString cs >>= expectColon).map fun rest => .more ⟨.value, .object :: frames, rest⟩ := by
  cases first with
  | true =>
    rw [← skipKey_quote isBlank_nil, List.nil_append]
    exact stepFrame_first (f := .object) frames hsep (by decide) (by decide) cs
  | false =>
    obtain ⟨a, b, ha, hb, rfl⟩ := hsep
    rw [← skipKey_quote hb, List.append_assoc, List.cons_append]
    exact stepFrame_comma .object frames ha (b ++ '"' :: cs)

theorem stepFrame_front {front : List Char} (frames : List Frame) (hf : f.Introduces first front)
    (h : StartsValue cs) : ∃ ws, IsBlank ws ∧
      stepFrame (!first) f frames (front ++ cs) = .ok (.more ⟨.value, f :: frames, ws ++ cs⟩) := by
  cases f with
  | list => exact stepFrame_item frames hf h
  | object =>
    obtain ⟨sep, key, a, b, hsep, ha, hb, rfl⟩ := hf
    refine ⟨b, hb, ?_⟩
    simp only [List.append_assoc, quoted, List.cons_append]
    rw [stepFrame_key frames hsep, skipString_unquoted]
    rw [Except.ok_bind, expectColon_colon ha]
    rfl

@[simp] theorem step_value (frames : List Frame) (cs : List Char) : step ⟨.value, frames, cs⟩ = stepValue frames cs :=
  rfl

theorem run_opened {c : Char} (frames : List Frame) (hw : IsBlank ws) (hc : isBlank c = false)
    (ho : opened? c = some f) : run ⟨.value, frames, ws ++ c :: rest⟩ = run ⟨goalOf true, f :: frames, rest⟩ := by
  apply run_of_more
  rw [step_value, stepValue, skipBlank_mark hw hc]
  simp only [ho]
  rfl

theorem step_scalar {c : Char} (frames : List Frame) (hw : IsBlank ws) (hc : isBlank c = false)
    (ho : opened? c = none) (tail : List Char) :
    step ⟨.value, frames, ws ++ c :: tail⟩ = (skipScalar c tail).map (close frames) := by
  rw [step_value, stepValue, skipBlank_mark hw hc]
  simp only [ho]
  rfl

theorem run_scalar {c : Char} {tail : List Char} (frames : List Frame) (hw : IsBlank ws) (hc : isBlank c = false)
    (ho : opened? c = none) (h : skipScalar c tail = .ok rest) :
    run ⟨.value, frames, ws ++ c :: tail⟩ = resume frames rest := by
  apply run_of_close
  rw [step_scalar frames hw hc ho, h]
  rfl

theorem run_scalar_error {c : Char} {tail : List Char} {e : Error} (frames : List Frame) (hw : IsBlank ws)
    (hc : isBlank c = false) (ho : opened? c = none) (h : skipScalar c tail = .error e) :
    run ⟨.value, frames, ws ++ c :: tail⟩ = .error e := by
  apply run_of_error
  rw [step_scalar frames hw hc ho, h]
  rfl

theorem run_blank (frames : List Frame) (hw : IsBlank ws) : run ⟨.value, frames, ws⟩ = .error .endOfValue := by
  apply run_of_error
  rw [step_value, stepValue, skipBlank_eq_nil_iff.mpr hw]

theorem resume_nil_of_cons (f : Frame) (frames : List Frame) : resume (f :: frames) [] = .error f.endError := by
  rw [resume_cons]
  apply run_of_error
  rw [step_goalOf, stepFrame_blank _ _ _ isBlank_nil]

def PassesFrame (f : Frame) (first : Bool) (t : List Char) : Prop :=
  ∀ frames rest, run ⟨goalOf first, f :: frames, t ++ rest⟩ = resume frames rest

def Passes : Part → List Char → Prop
  | .value _, t => ∀ ws frames rest, IsBlank ws → Stops rest →
      run ⟨.value, frames, ws ++ (t ++ rest)⟩ = resume frames rest
  | .items first _, t => PassesFrame .list first t
  | .members first _, t => PassesFrame .object first t

theorem passesFrame_closer (f : Frame) (first : Bool) (hw : IsBlank ws) :
    PassesFrame f first (ws ++ [f.closer]) := by
  intro frames rest
  apply run_of_close
  rw [step_goalOf, List.append_assoc, List.singleton_append, stepFrame_closer _ _ _ hw]

theorem passesFrame_value {front : List Char} (hf : f.Introduces first front) (hv : Spells (.value v) t)
    (hpass : Passes (.value v) t) (hu : f.Spelled false u) (hpu : PassesFrame f false u) :
    PassesFrame f first (front ++ (t ++ u)) := by
  intro frames rest
  obtain ⟨ws, hw, hstep⟩ := stepFrame_front frames hf (hv.startsValue.append (u ++ rest))
  calc run ⟨goalOf first, f :: frames, front ++ (t ++ u) ++ rest⟩
      = run ⟨.value, f :: frames, ws ++ (t ++ (u ++ rest))⟩ := by
        apply run_of_more
        rw [step_goalOf, List.append_assoc, List.append_assoc, hstep]
    _ = resume (f :: frames) (u ++ rest) := hpass ws (f :: frames) (u ++ rest) hw (hu.stops rest)
    _ = run ⟨goalOf false, f :: frames, u ++ rest⟩ := resume_cons f frames _
    _ = resume frames rest := hpu frames rest

theorem passes {part : Part} (h : Spells part t) : Passes part t := by
  induction h with
  | null =>
    intro ws frames rest hw _
    exact run_scalar frames hw rfl rfl (expectWord_append "ull".toList rest)
  | yes =>
    intro ws frames rest hw _
    exact run_scalar frames hw rfl rfl (expectWord_append "rue".toList rest)
  | no =>
    intro ws frames rest hw _
    exact run_scalar frames hw rfl rfl (expectWord_append "alse".toList rest)
  | number n =>
    intro ws frames rest hw hr
    obtain ⟨c, tail, htext, hc, ho, hskip⟩ := skipScalar_literal n (n.ends_of_stops hr)
    rw [htext]
    exact run_scalar frames hw hc ho hskip
  | string s =>
    intro ws frames rest hw _
    exact run_scalar frames hw rfl rfl (skipString_unquoted s rest)
  | list _ ih =>
    intro ws frames rest hw _
    rw [List.cons_append, run_opened frames hw rfl (f := .list) rfl]
    exact ih frames rest
  | object _ ih =>
    intro ws frames rest hw _
    rw [List.cons_append, run_opened frames hw rfl (f := .object) rfl]
    exact ih frames rest
  | noItem hw => exact passesFrame_closer .list _ hw
  | noMember hw => exact passesFrame_closer .object _ hw
  | item hsep hv hu ihv ihu => exact passesFrame_value (f := .list) hsep hv ihv ⟨_, hu⟩ ihu
  | @member first sep key a b v t ms u hsep ha hb hv hu ihv ihu =>
    have hfront : Frame.object.Introduces first (sep ++ (quoted key ++ (a ++ ':' :: b))) :=
      ⟨sep, key, a, b, hsep, ha, hb, rfl⟩
    simpa only [Passes, List.append_assoc, List.cons_append] using
      passesFrame_value (f := .object) hfront hv ihv ⟨_, hu⟩ ihu

theorem skipKey_eq_ok {sep : List Char} (h : skipKey f cs = .ok rest) (hsep : IsSeparator first sep) :
    ∃ front, f.Introduces first (sep ++ front) ∧ cs = front ++ rest := by
  cases f with
  | list =>
    rw [skipKey_list, Except.ok.injEq] at h
    exact ⟨[], by simpa [Frame.Introduces] using hsep, h⟩
  | object =>
    rw [skipKey] at h
    split at h
    · simp at h
    · rename_i c tail hb
      obtain ⟨ws, hw, _, rfl⟩ := skipBlank_eq_cons_iff.mp hb
      split at h
      · rename_i hquote
        obtain ⟨_, hs, hcolon⟩ := Except.bind_eq_ok.mp h
        obtain ⟨key, rfl⟩ := skipString_eq_ok hs
        obtain ⟨a, ha, rfl⟩ := expectColon_eq_ok hcolon
        refine ⟨ws ++ (quoted key ++ (a ++ [':'])),
          ⟨sep ++ ws, key, a, [], hsep.append_blank hw, ha, isBlank_nil, ?_⟩, ?_⟩
        · simp
        · simp [hquote, quoted]
      · simp at h

theorem stepFrame_eq_ok {p : Progress} (h : stepFrame (!first) f frames cs = .ok p) :
    (∃ ws rest, IsBlank ws ∧ cs = ws ++ f.closer :: rest ∧ p = close frames rest) ∨
      ∃ front rest, f.Introduces first front ∧ cs = front ++ rest ∧ p = .more ⟨.value, f :: frames, rest⟩ := by
  have hkey : ∀ {sep cs : List Char}, IsSeparator first sep →
      ((skipKey f cs).map fun rest => .more ⟨.value, f :: frames, rest⟩) = .ok p →
      ∃ front rest, f.Introduces first front ∧ sep ++ cs = front ++ rest ∧
        p = .more ⟨.value, f :: frames, rest⟩ := by
    intro sep cs hsep h
    obtain ⟨rest, hs, rfl⟩ := Except.map_eq_ok.mp h
    obtain ⟨front, hf, rfl⟩ := skipKey_eq_ok hs hsep
    exact ⟨sep ++ front, rest, hf, (List.append_assoc _ _ _).symm, rfl⟩
  cases hb : skipBlank cs with
  | nil => simp [stepFrame_blank _ _ _ (skipBlank_eq_nil_iff.mp hb)] at h
  | cons c tail =>
    obtain ⟨ws, hw, hc, rfl⟩ := skipBlank_eq_cons_iff.mp hb
    by_cases hclose : c = f.closer
    · subst hclose
      rw [stepFrame_closer _ _ _ hw, Except.ok.injEq] at h
      exact .inl ⟨ws, tail, hw, rfl, h.symm⟩
    cases first with
    | true =>
      rw [Bool.not_true, stepFrame_first frames hw hc hclose] at h
      exact .inr (hkey hw h)
    | false =>
      by_cases hcomma : c = ','
      · subst hcomma
        rw [Bool.not_false, stepFrame_comma f frames hw] at h
        have hsep : IsSeparator false (ws ++ [',']) := ⟨ws, [], hw, isBlank_nil, rfl⟩
        simpa using Or.inr (hkey hsep h)
      · rw [stepFrame, hb] at h
        simp [hcomma, hclose] at h

/-- What a scan still has to pass over before it ends in front of the rest. -/
def Closes : List Frame → List Char → List Char → Prop
  | [], text, rest => text = rest
  | f :: frames, text, rest => ∃ t behind, f.Spelled false t ∧ text = t ++ behind ∧ Closes frames behind rest

def Finishes (s : Scan) (rest : List Char) : Prop :=
  match s.goal, s.frames with
  | .value, frames => ∃ ws v t behind, IsBlank ws ∧ Spells (.value v) t ∧ s.text = ws ++ (t ++ behind) ∧
      Closes frames behind rest
  | .first, f :: frames => ∃ t behind, f.Spelled true t ∧ s.text = t ++ behind ∧ Closes frames behind rest
  | .first, [] => s.text = rest
  | .after, frames => Closes frames s.text rest

def progressFinishes : Progress → List Char → Prop
  | .done rest', rest => rest' = rest
  | .more t, rest => t.Finishes rest

theorem closes_of_close (h : progressFinishes (close frames cs) rest) : Closes frames cs rest := by
  unfold close at h
  split at h
  · rename_i h0
    rw [h0]
    exact h
  · exact h

theorem stepFrame_finishes (first : Bool) {p : Progress} (h : stepFrame (!first) f frames cs = .ok p)
    (hp : progressFinishes p rest) :
    ∃ t behind, f.Spelled first t ∧ cs = t ++ behind ∧ Closes frames behind rest := by
  rcases stepFrame_eq_ok h with ⟨ws, behind, hw, rfl, rfl⟩ | ⟨front, text, hf, rfl, rfl⟩
  · exact ⟨ws ++ [f.closer], behind, f.spelled_closer first hw, by simp, closes_of_close hp⟩
  · obtain ⟨ws, v, t, behind, hw, hv, rfl, u, behind', hu, rfl, hc⟩ := hp
    exact ⟨front ++ ws ++ (t ++ u), behind', Frame.spelled_value (hf.append_blank hw) hv hu, by simp, hc⟩

theorem stepValue_finishes {p : Progress} (h : stepValue frames cs = .ok p) (hp : progressFinishes p rest) :
    ∃ ws v t behind, IsBlank ws ∧ Spells (.value v) t ∧ cs = ws ++ (t ++ behind) ∧ Closes frames behind rest := by
  unfold stepValue at h
  split at h
  · simp at h
  · rename_i c tail hb
    obtain ⟨ws, hw, _, rfl⟩ := skipBlank_eq_cons_iff.mp hb
    split at h
    · rename_i f ho
      rw [Except.ok.injEq] at h
      subst h
      obtain ⟨t, behind, ht, rfl, hc⟩ := hp
      unfold opened? at ho
      split at ho
      · rename_i hbracket
        rw [Option.some.injEq] at ho
        subst ho
        obtain ⟨vs, hvs⟩ := ht
        exact ⟨ws, .list vs, '[' :: t, behind, hw, .list hvs, by rw [hbracket]; rfl, hc⟩
      · split at ho
        · rename_i hbrace
          rw [Option.some.injEq] at ho
          subst ho
          obtain ⟨ms, hms⟩ := ht
          exact ⟨ws, .object ms, '\x7b' :: t, behind, hw, .object hms, by rw [hbrace]; rfl, hc⟩
        · simp at ho
    · obtain ⟨behind, hs, h⟩ := Except.bind_eq_ok.mp h
      obtain rfl := Except.ok.inj h
      obtain ⟨v, t, hv, ht⟩ := skipScalar_eq_ok hs
      exact ⟨ws, v, t, behind, hw, hv, by rw [ht], closes_of_close hp⟩

theorem step_finishes {s : Scan} {p : Progress} (h : s.step = .ok p) (hp : progressFinishes p rest) :
    s.Finishes rest := by
  obtain ⟨goal, frames, cs⟩ := s
  cases goal with
  | value => exact stepValue_finishes h hp
  | first =>
    cases frames with
    | nil =>
      simp only [step, Except.ok.injEq] at h
      subst h
      exact hp
    | cons f frames => exact stepFrame_finishes true h hp
  | after =>
    cases frames with
    | nil =>
      simp only [step, Except.ok.injEq] at h
      subst h
      exact hp
    | cons f frames => exact stepFrame_finishes false h hp

theorem run_finishes {s : Scan} (h : s.run = .ok rest) : s.Finishes rest := by
  fun_induction run s with
  | case1 => simp at h
  | case2 s rest' hs =>
    rw [Except.ok.injEq] at h
    exact step_finishes hs h
  | case3 s t hs ih => exact step_finishes hs (ih h)

@[simp] theorem endError_ended (f : Frame) : f.endError.kind = .ended := by
  cases f <;> rfl

theorem run_frame_blank (first : Bool) (f : Frame) (frames : List Frame) (hw : IsBlank ws) :
    run ⟨goalOf first, f :: frames, ws⟩ = .error f.endError :=
  run_of_error (by rw [step_goalOf, stepFrame_blank _ _ _ hw])

theorem run_separator_cut (f : Frame) (frames : List Frame) (hsep : IsSeparator first (p ++ s)) :
    ∃ e, run ⟨goalOf first, f :: frames, p⟩ = .error e ∧ e.kind = .ended := by
  rcases separator_cut hsep with hp | ⟨rfl, a, b, ha, hb, rfl⟩
  · exact ⟨_, run_frame_blank first f frames hp, endError_ended f⟩
  · have hstep : step ⟨goalOf false, f :: frames, a ++ ',' :: b⟩ =
        (skipKey f b).map fun rest => .more ⟨.value, f :: frames, rest⟩ := by
      rw [step_goalOf, Bool.not_false, stepFrame_comma f frames ha]
    cases f with
    | list => exact ⟨_, (run_of_more hstep).trans (run_blank _ hb), rfl⟩
    | object =>
      have hkey : skipKey .object b = .error .endOfObject := by
        rw [skipKey, skipBlank_eq_nil_iff.mpr hb]
      rw [hkey] at hstep
      exact ⟨_, run_of_error hstep, rfl⟩

theorem run_key {sep : List Char} (frames : List Frame) (hsep : IsSeparator first sep) (cs : List Char) :
    run ⟨goalOf first, .object :: frames, sep ++ '"' :: cs⟩ =
      skipString cs >>= expectColon >>= fun rest => run ⟨.value, .object :: frames, rest⟩ := by
  have hstep := stepFrame_key frames hsep cs
  rw [← step_goalOf] at hstep
  cases hk : skipString cs >>= expectColon with
  | error e =>
    rw [hk] at hstep
    exact run_of_error hstep
  | ok rest =>
    rw [hk] at hstep
    exact run_of_more hstep

theorem run_front_cut (frames : List Frame) (hf : f.Introduces first (p ++ s)) :
    ∃ e, run ⟨goalOf first, f :: frames, p⟩ = .error e ∧ e.kind = .ended := by
  cases f with
  | list => exact run_separator_cut .list frames hf
  | object =>
    obtain ⟨sep, key, a, b, hsep, ha, hb, h⟩ := hf
    rcases cut_in_or_beyond h.symm with ⟨s', rfl⟩ | ⟨p1, hp1, rfl, h1⟩
    · exact run_separator_cut .object frames hsep
    obtain ⟨p2, rfl, h2⟩ := (List.cons_eq_append_iff.mp h1).resolve_left fun h0 => hp1 h0.1
    rw [run_key frames hsep]
    rcases cut_cases h2 with ⟨s', hs', hkey, _⟩ | ⟨p3, rfl, h3⟩
    · rw [skipString_cut hkey hs']
      exact ⟨_, rfl, rfl⟩
    rw [skipString_unquoted]
    rcases cut_in_or_beyond h3 with ⟨s', rfl⟩ | ⟨p4, hp4, rfl, h4⟩
    · exact ⟨.endOfObject, by rw [Except.ok_bind, expectColon_blank (isBlank_append.mp ha).1]; rfl, rfl⟩
    obtain ⟨p5, rfl, rfl⟩ := (List.cons_eq_append_iff.mp h4).resolve_left fun h0 => hp4 h0.1
    refine ⟨.endOfValue, ?_, rfl⟩
    rw [Except.ok_bind, expectColon_colon ha]
    exact run_blank _ (isBlank_append.mp hb).1

def CutFrame (f : Frame) (first : Bool) (t : List Char) : Prop :=
  ∀ p s frames, t = p ++ s → s ≠ [] →
    ∃ e, run ⟨goalOf first, f :: frames, p⟩ = .error e ∧ Broken (f.Spelled first) p s e

/-- Of the values only a number can be taken for complete when it is not. -/
def CutOff : Part → List Char → Prop
  | .value v, t => ∀ p s ws frames, t = p ++ s → s ≠ [] → IsBlank ws →
      (∃ n, v = .number n) ∧ run ⟨.value, frames, ws ++ p⟩ = resume frames [] ∨
        ∃ e, run ⟨.value, frames, ws ++ p⟩ = .error e ∧ Broken (fun t => ∃ v, Spells (.value v) t) p s e
  | .items first _, t => CutFrame .list first t
  | .members first _, t => CutFrame .object first t

theorem cutFrame_closer (f : Frame) (first : Bool) (hw : IsBlank ws) : CutFrame f first (ws ++ [f.closer]) := by
  intro p s frames h hs
  exact ⟨_, run_frame_blank first f frames (isBlank_of_cut hw h hs), .of_ended (endError_ended f)⟩

theorem cutFrame_value {front : List Char} (hf : f.Introduces first front) (hv : Spells (.value v) t)
    (hcut : CutOff (.value v) t) (hu : f.Spelled false u) (hcu : CutFrame f false u) :
    CutFrame f first (front ++ (t ++ u)) := by
  intro p s frames h hs
  rcases cut_in_or_beyond h with ⟨s', rfl⟩ | ⟨p1, hp1, rfl, h1⟩
  · obtain ⟨e, he, hended⟩ := run_front_cut frames hf
    exact ⟨e, he, .of_ended hended⟩
  obtain ⟨ws, hw, hstep⟩ := stepFrame_front frames hf (hv.startsValue.of_append h1 hp1)
  rw [← step_goalOf] at hstep
  rw [run_of_more hstep]
  rcases cut_cases h1 with ⟨s', hs', rfl, rfl⟩ | ⟨p2, rfl, h2⟩
  · rcases hcut p1 s' ws (f :: frames) rfl hs' hw with ⟨_, hrun⟩ | ⟨e, hrun, hbroken⟩
    · exact ⟨_, hrun.trans (resume_nil_of_cons f frames), .of_ended (endError_ended f)⟩
    · refine ⟨e, hrun, hbroken.within ?_⟩
      rintro t ⟨v, hv⟩
      exact Frame.spelled_value hf hv hu
  · obtain ⟨e, hrun, hbroken⟩ := hcu p2 s frames h2 hs
    refine ⟨e, ?_, ?_⟩
    · rw [passes hv ws (f :: frames) p2 hw (.front hu.stops h2), resume_cons, hrun]
    · rw [← List.append_assoc]
      refine hbroken.behind fun t' ht' => ?_
      rw [List.append_assoc]
      exact Frame.spelled_value hf hv ht'

theorem cutOff_word {w : List Char} {c : Char} (v : Value) (hc : isBlank c = false) (ho : opened? c = none)
    (hskip : ∀ rest, skipScalar c rest = expectWord w rest) : CutOff (.value v) (c :: w) := by
  intro p s ws frames h hs hw
  rcases List.cons_eq_append_iff.mp h with ⟨rfl, _⟩ | ⟨p', rfl, hp'⟩
  · exact .inr ⟨_, by rw [List.append_nil, run_blank frames hw], .of_ended rfl⟩
  · exact .inr ⟨_, run_scalar_error frames hw hc ho ((hskip p').trans (expectWord_cut hp' hs)), .of_ended rfl⟩

theorem cutOff_number (n : Literal) : CutOff (.value (.number n)) n.text := by
  intro p s ws frames h hs hw
  rcases n.cut h with rfl | ⟨m, hm⟩ | ⟨front, hp, hb, hstart⟩
  · exact .inr ⟨_, by rw [List.append_nil, run_blank frames hw], .of_ended rfl⟩
  · obtain ⟨c, tail, htext, hc, ho, hskip⟩ := skipScalar_literal m (m.ends_of_stops stops_nil)
    rw [List.append_nil] at htext
    rw [hm, htext]
    exact .inl ⟨⟨n, rfl⟩, run_scalar frames hw hc ho hskip⟩
  · have hcut : CutInNumber (fun t => ∃ v, Spells (.value v) t) p s :=
      ⟨n, [], p, s, [], rfl, (List.append_nil s).symm, h, hp ▸ n.dangles hb hstart,
        fun m => ⟨.number m, by simpa using Spells.number m⟩⟩
    obtain ⟨c, tail, htext, hc, ho, hskip⟩ := skipScalar_sign n hstart
    have hbreak := skipNumber_breaks hb
    rw [List.append_nil, ← hskip] at hbreak
    refine .inr ⟨.invalidNumber, ?_, .inr (.inr ⟨rfl, hcut⟩)⟩
    rw [hp, htext]
    exact run_scalar_error frames hw hc ho hbreak

theorem cutOff_opened {c : Char} (v : Value) (hc : isBlank c = false) (ho : opened? c = some f)
    (hfit : ∀ t, f.Spelled true t → ∃ v, Spells (.value v) (c :: t)) (hcut : CutFrame f true t) :
    CutOff (.value v) (c :: t) := by
  intro p s ws frames h hs hw
  rcases List.cons_eq_append_iff.mp h with ⟨rfl, _⟩ | ⟨p', rfl, hp'⟩
  · exact .inr ⟨_, by rw [List.append_nil, run_blank frames hw], .of_ended rfl⟩
  · obtain ⟨e, hrun, hbroken⟩ := hcut p' s frames hp' hs
    exact .inr ⟨e, (run_opened frames hw hc ho).trans hrun, hbroken.behind (a := [c]) hfit⟩

theorem cutOff {part : Part} (h : Spells part t) : CutOff part t := by
  induction h with
  | null => exact cutOff_word .null (c := 'n') rfl rfl fun _ => rfl
  | yes => exact cutOff_word (.flag true) (c := 't') rfl rfl fun _ => rfl
  | no => exact cutOff_word (.flag false) (c := 'f') rfl rfl fun _ => rfl
  | number n => exact cutOff_number n
  | string str =>
    intro p s ws frames h hs hw
    rcases List.cons_eq_append_iff.mp h with ⟨rfl, _⟩ | ⟨p', rfl, hp'⟩
    · exact .inr ⟨_, by rw [List.append_nil, run_blank frames hw], .of_ended rfl⟩
    · exact .inr ⟨_, run_scalar_error frames hw rfl rfl (skipString_cut hp' hs), .of_ended rfl⟩
  | @list vs t _ ih =>
    refine cutOff_opened (.list vs) (c := '[') rfl rfl ?_ ih
    rintro t ⟨vs, hvs⟩
    exact ⟨.list vs, .list hvs⟩
  | @object ms t _ ih =>
    refine cutOff_opened (.object ms) (c := '\x7b') rfl rfl ?_ ih
    rintro t ⟨ms, hms⟩
    exact ⟨.object ms, .object hms⟩
  | noItem hw => exact cutFrame_closer .list _ hw
  | noMember hw => exact cutFrame_closer .object _ hw
  | item hsep hv hu ihv ihu => exact cutFrame_value (f := .list) hsep hv ihv ⟨_, hu⟩ ihu
  | @member first sep key a b v t ms u hsep ha hb hv hu ihv ihu =>
    have hfront : Frame.object.Introduces first (sep ++ (quoted key ++ (a ++ ':' :: b))) :=
      ⟨sep, key, a, b, hsep, ha, hb, rfl⟩
    simpa only [CutOff, List.append_assoc, List.cons_append] using
      cutFrame_value (f := .object) hfront hv ihv ⟨_, hu⟩ ihu

end Scan

theorem skipValue_spelled (h : Spells (.value v) t) (hw : IsBlank ws) (hr : Stops rest) :
    skipValue (ws ++ (t ++ rest)) = .ok rest := Scan.passes h ws [] rest hw hr

theorem skipValue_eq_ok (h : skipValue cs = .ok rest) :
    ∃ ws v t, IsBlank ws ∧ Spells (.value v) t ∧ cs = ws ++ (t ++ rest) := by
  obtain ⟨ws, v, t, behind, hw, hv, hcs, hc⟩ := Scan.run_finishes h
  exact ⟨ws, v, t, hw, hv, by rw [← show behind = rest from hc, ← hcs]⟩

theorem skipValue_cut (h : Spells (.value v) (p ++ s)) (hs : s ≠ []) (hw : IsBlank ws) :
    (∃ n, v = .number n) ∧ skipValue (ws ++ p) = .ok [] ∨
      ∃ e, skipValue (ws ++ p) = .error e ∧ Broken (fun t => ∃ v, Spells (.value v) t) p s e :=
  Scan.cutOff h p s ws [] rfl hs hw

theorem skipValue_blank (hw : IsBlank ws) : skipValue ws = .error .endOfValue := Scan.run_blank [] hw

end PagingGate.Json
