import PagingGate.Json.Number
import PagingGate.Proofs.Json.Grammar

set_option autoImplicit false

namespace PagingGate.Json

def NoDigit (cs : List Char) : Prop := startsWithDigit cs = false

theorem dropWhile_digits {ds rest : List Char} (h : ∀ c ∈ ds, c.isDigit = true) (hr : NoDigit rest) :
    (ds ++ rest).dropWhile Char.isDigit = rest := by
  rw [List.dropWhile_append_of_pos h]
  cases rest with
  | nil => rfl
  | cons c rest => exact List.dropWhile_cons_of_neg (by simpa [NoDigit, startsWithDigit] using hr)

theorem takeWhile_digits {ds rest : List Char} (h : ∀ c ∈ ds, c.isDigit = true) (hr : NoDigit rest) :
    (ds ++ rest).takeWhile Char.isDigit = ds := by
  rw [List.takeWhile_append_of_pos h]
  cases rest with
  | nil => simp
  | cons c rest =>
    rw [List.takeWhile_cons_of_neg (by simpa [NoDigit, startsWithDigit] using hr), List.append_nil]

theorem split_digits (cs : List Char) :
    ∃ ds rest, cs = ds ++ rest ∧ (∀ c ∈ ds, c.isDigit = true) ∧ NoDigit rest := by
  induction cs with
  | nil => exact ⟨[], [], rfl, by simp, rfl⟩
  | cons c cs ih =>
    by_cases hc : c.isDigit = true
    · obtain ⟨ds, rest, rfl, hds, hr⟩ := ih
      exact ⟨c :: ds, rest, rfl, by simpa [hc] using hds, hr⟩
    · exact ⟨[], c :: cs, rfl, by simp, by simpa [NoDigit, startsWithDigit] using hc⟩

def NoMark (cs : List Char) : Prop := ∀ c ∈ cs.head?, ¬ IsMark c

/-- Nothing that follows belongs to the literal. -/
structure Literal.Ends (n : Literal) (rest : List Char) : Prop where
  noDigit : NoDigit rest
  noMark : n.exponent = none → NoMark rest
  noPoint : n.exponent = none → n.fraction = [] → rest.head? ≠ some '.'

theorem Literal.ends_of_stops (n : Literal) {rest : List Char} (h : Stops rest) : n.Ends rest := by
  cases rest with
  | nil => exact ⟨rfl, by simp [NoMark], by simp⟩
  | cons c rest =>
    obtain ⟨hd, hp, hm⟩ := h c rfl
    exact ⟨hd, fun _ => by simpa [NoMark] using hm, fun _ _ => by simpa using hp⟩

/-- A number without its sign that cannot go on with what follows, and cannot end there. -/
inductive Breaks : List Char → List Char → Prop where
  | start {rest} : NoDigit rest → Breaks [] rest
  | zero {rest} : startsWithDigit rest = true → Breaks ['0'] rest
  | point {rest} (n : Literal) : n.fraction = [] → n.exponent = none → NoDigit rest →
      Breaks (n.unsigned ++ ['.']) rest
  | mark {rest} (n : Literal) {m : Char} {sign : List Char} : n.exponent = none → IsMark m → IsSign sign →
      NoDigit rest → (sign = [] → ∀ c ∈ rest.head?, c ≠ '+' ∧ c ≠ '-') →
      Breaks (n.unsigned ++ m :: sign) rest

theorem split_sign (cs : List Char) : ∃ sign rest, IsSign sign ∧ cs = sign ++ rest ∧
    (sign = [] → ∀ c ∈ rest.head?, c ≠ '+' ∧ c ≠ '-') := by
  cases cs with
  | nil => exact ⟨[], [], .inl rfl, rfl, by simp⟩
  | cons c cs =>
    by_cases hp : c = '+'
    · exact ⟨['+'], cs, .inr (.inl rfl), by rw [hp]; rfl, by simp⟩
    · by_cases hm : c = '-'
      · exact ⟨['-'], cs, .inr (.inr rfl), by rw [hm]; rfl, by simp⟩
      · exact ⟨[], c :: cs, .inl rfl, rfl, fun _ => by simp [hp, hm]⟩

namespace Literal

def withExponent (n : Literal) (x : Exponent) : Literal := { n with exponent := some x }

def withFraction (n : Literal) (ds : List Char) (h : ∀ c ∈ ds, c.isDigit = true) : Literal :=
  { n with fraction := ds, isFraction := h, exponent := none }

theorem exponentText_of_none {n : Literal} (h : n.exponent = none) : n.exponentText = [] := by
  rw [exponentText, h]
  rfl

theorem exponentText_of_some {n : Literal} {x : Exponent} (h : n.exponent = some x) : n.exponentText = x.text := by
  rw [exponentText, h]
  rfl

theorem unsigned_of_none {n : Literal} (h : n.exponent = none) : n.unsigned = n.whole ++ n.fractionText := by
  rw [unsigned, exponentText_of_none h, List.append_nil]

theorem unsigned_withExponent {n : Literal} (h : n.exponent = none) (x : Exponent) :
    (n.withExponent x).unsigned = n.unsigned ++ x.text := by
  have htext : (n.withExponent x).unsigned = n.whole ++ (n.fractionText ++ x.text) := rfl
  rw [htext, unsigned_of_none h, List.append_assoc]

theorem unsigned_withFraction (n : Literal) {ds : List Char} (h : ∀ c ∈ ds, c.isDigit = true)
    (h0 : ds ≠ []) : (n.withFraction ds h).unsigned = n.whole ++ '.' :: ds := by
  simp [unsigned, withFraction, fractionText, exponentText, h0]

@[simp] theorem unsigned_withFraction_nil (n : Literal) : (n.withFraction [] (by simp)).unsigned = n.whole :=
  List.append_nil n.whole

theorem unsigned_head (n : Literal) : ∃ c tail, n.unsigned = c :: tail ∧ c.isDigit = true := by
  obtain ⟨⟨hne, hdigits⟩, _⟩ := n.isWhole
  obtain ⟨c, ds, hw⟩ := List.exists_cons_of_ne_nil hne
  exact ⟨c, _, by rw [unsigned, hw, List.cons_append], hdigits c (by simp [hw])⟩

theorem startsWithDigit_unsigned (n : Literal) (rest : List Char) :
    startsWithDigit (n.unsigned ++ rest) = true := by
  obtain ⟨c, tail, hc, hd⟩ := n.unsigned_head
  rw [hc]
  exact hd

theorem text_of_negative {n : Literal} (h : n.negative = true) : n.text = '-' :: n.unsigned := by
  rw [text, sign, if_pos h, List.singleton_append]

theorem text_of_not_negative {n : Literal} (h : n.negative = false) : n.text = n.unsigned := by
  rw [text, sign, h]
  rfl

end Literal

theorem exponent_or_breaks (n : Literal) (hx : n.exponent = none) {rest : List Char} (hr : NoDigit rest)
    (hp : n.fraction = [] → rest.head? ≠ some '.') :
    (∃ (n' : Literal) (rest' : List Char), n'.negative = n.negative ∧
      n.unsigned ++ rest = n'.unsigned ++ rest' ∧ n'.Ends rest') ∨
      ∃ front rest', Breaks front rest' ∧ n.unsigned ++ rest = front ++ rest' := by
  by_cases hm : NoMark rest
  · exact .inl ⟨n, rest, rfl, rfl, hr, fun _ => hm, fun _ => hp⟩
  · obtain ⟨m, tail, rfl, hmark⟩ : ∃ m tail, rest = m :: tail ∧ IsMark m := by
      cases rest with
      | nil => simp [NoMark] at hm
      | cons m tail => exact ⟨m, tail, rfl, by simpa [NoMark] using hm⟩
    obtain ⟨sign, behind, hsign, rfl, hplain⟩ := split_sign tail
    obtain ⟨ds, end', rfl, hds, hend⟩ := split_digits behind
    by_cases h0 : ds = []
    · subst h0
      exact .inr ⟨_, _, .mark n hx hmark hsign hend hplain, by simp⟩
    · refine .inl ⟨n.withExponent ⟨m, sign, ds, hmark, hsign, h0, hds⟩, end', rfl, ?_, hend,
        by simp [Literal.withExponent], by simp [Literal.withExponent]⟩
      simp [Literal.unsigned_withExponent hx, Exponent.text]

theorem literal_or_breaks (negative : Bool) (cs : List Char) :
    (∃ (n : Literal) (rest : List Char), n.negative = negative ∧ cs = n.unsigned ++ rest ∧ n.Ends rest) ∨
      ∃ front rest, Breaks front rest ∧ cs = front ++ rest := by
  obtain ⟨whole, behind, rfl, hdigits, hr⟩ := split_digits cs
  by_cases h0 : whole = []
  · subst h0
    exact .inr ⟨[], behind, .start hr, rfl⟩
  by_cases hzero : whole.head? = some '0' → whole = ['0']
  · let n : Literal := ⟨negative, whole, [], none, ⟨⟨h0, hdigits⟩, hzero⟩, by simp⟩
    have hn : n.unsigned = whole := List.append_nil whole
    by_cases hp : behind.head? = some '.'
    · obtain ⟨tail, rfl⟩ := List.head?_eq_some_iff.mp hp
      obtain ⟨fraction, rest, rfl, hf, hr'⟩ := split_digits tail
      by_cases hf0 : fraction = []
      · subst hf0
        exact .inr ⟨_, rest, .point n rfl rfl hr', by simp [hn]⟩
      · have htext : whole ++ '.' :: (fraction ++ rest) = (n.withFraction fraction hf).unsigned ++ rest := by
          simp [n.unsigned_withFraction hf hf0, n]
        rw [htext]
        exact exponent_or_breaks (n.withFraction fraction hf) rfl hr' fun h => absurd h hf0
    · rw [← hn]
      exact exponent_or_breaks n rfl hr fun _ => hp
  · obtain ⟨hhead, hlong⟩ := Classical.not_imp.mp hzero
    obtain ⟨ds, rfl⟩ := List.head?_eq_some_iff.mp hhead
    have hds : ds ≠ [] := by
      rintro rfl
      exact hlong rfl
    obtain ⟨d, tail, rfl⟩ := List.exists_cons_of_ne_nil hds
    exact .inr ⟨['0'], d :: tail ++ behind, .zero (hdigits d (by simp)), rfl⟩

section
variable {n : Literal} {p s : List Char}

/-- The text is a shorter literal, or cannot end where it does. -/
def BreaksOff (negative : Bool) (p : List Char) : Prop :=
  (∃ n : Literal, n.negative = negative ∧ n.unsigned = p) ∨ Breaks p []

theorem exponent_breaksOff (hx : n.exponent = none) (x : Exponent) (h : x.text = p ++ s) :
    BreaksOff n.negative (n.unsigned ++ p) := by
  have hbreak : ∀ {sign : List Char}, IsSign sign → BreaksOff n.negative (n.unsigned ++ x.mark :: sign) :=
    fun hsign => .inr (.mark n hx x.isMark hsign rfl (by simp))
  rw [Exponent.text, List.cons_append] at h
  rcases List.cons_eq_append_iff.mp h with ⟨rfl, _⟩ | ⟨p', rfl, h'⟩
  · exact .inl ⟨n, rfl, (List.append_nil _).symm⟩
  · rcases List.append_eq_append_iff.mp h' with ⟨ds, rfl, hds⟩ | ⟨cut, hsign, _⟩
    · by_cases h0 : ds = []
      · rw [h0, List.append_nil]
        exact hbreak x.isSign
      · have hdigits : ∀ c ∈ ds, c.isDigit = true := fun c hc =>
          x.isDigits.2 c (by rw [hds]; exact List.mem_append_left s hc)
        refine .inl ⟨n.withExponent ⟨x.mark, x.sign, ds, x.isMark, x.isSign, h0, hdigits⟩, rfl, ?_⟩
        rw [Literal.unsigned_withExponent hx, Exponent.text, List.cons_append]
    · refine hbreak ?_
      rcases x.isSign with h0 | h1 | h1
      · exact .inl (List.append_eq_nil_iff.mp (hsign.symm.trans h0)).1
      all_goals
        rw [h1] at hsign
        rcases List.singleton_eq_append_iff.mp hsign with ⟨rfl, _⟩ | ⟨rfl, _⟩
        · exact .inl rfl
        · simp [IsSign]

theorem exponentText_breaksOff (n : Literal) {base : Literal} (hneg : base.negative = n.negative)
    (hx : base.exponent = none) (h : n.exponentText = p ++ s) :
    BreaksOff n.negative (base.unsigned ++ p) := by
  cases hn : n.exponent with
  | none =>
    rw [Literal.exponentText_of_none hn, eq_comm, List.append_eq_nil_iff] at h
    rw [h.1, List.append_nil]
    exact .inl ⟨base, hneg, rfl⟩
  | some x =>
    rw [Literal.exponentText_of_some hn] at h
    exact hneg ▸ exponent_breaksOff hx x h

theorem fraction_breaksOff (n : Literal) (h : n.fractionText ++ n.exponentText = p ++ s) :
    BreaksOff n.negative (n.whole ++ p) := by
  have hbare : (n.withFraction [] (by simp)).unsigned = n.whole := n.unsigned_withFraction_nil
  rw [Literal.fractionText] at h
  split at h
  · rw [← hbare]
    exact exponentText_breaksOff n rfl rfl h
  · rename_i hf
    rcases List.cons_eq_append_iff.mp h with ⟨rfl, _⟩ | ⟨p', rfl, h'⟩
    · exact .inl ⟨n.withFraction [] (by simp), rfl, by rw [hbare, List.append_nil]⟩
    · rcases List.append_eq_append_iff.mp h' with ⟨x, rfl, hx⟩ | ⟨cut, hcut, _⟩
      · rw [← List.cons_append, ← List.append_assoc, ← n.unsigned_withFraction n.isFraction hf]
        exact exponentText_breaksOff n rfl rfl hx
      · by_cases h0 : p' = []
        · rw [h0, ← hbare]
          exact .inr (.point _ rfl rfl rfl)
        · have hdigits : ∀ c ∈ p', c.isDigit = true := fun c hc =>
            n.isFraction c (by rw [hcut]; exact List.mem_append_left cut hc)
          exact .inl ⟨n.withFraction p' hdigits, rfl, n.unsigned_withFraction hdigits h0⟩

theorem unsigned_breaksOff (n : Literal) (h : n.unsigned = p ++ s) : BreaksOff n.negative p := by
  rcases List.append_eq_append_iff.mp h with ⟨p', rfl, h'⟩ | ⟨cut, hcut, _⟩
  · exact fraction_breaksOff n h'
  · by_cases h0 : p = []
    · rw [h0]
      exact .inr (.start rfl)
    · obtain ⟨⟨_, hdigits⟩, hzero⟩ := n.isWhole
      refine .inl ⟨⟨n.negative, p, [], none, ⟨⟨h0, fun c hc => hdigits c ?_⟩, fun hp => ?_⟩, by simp⟩,
        rfl, List.append_nil p⟩
      · rw [hcut]
        exact List.mem_append_left cut hc
      · have hw : n.whole = ['0'] := hzero (by rw [hcut, List.head?_append, hp, Option.some_or])
        rw [hcut] at hw
        rcases List.append_eq_singleton_iff.mp hw with ⟨rfl, _⟩ | ⟨rfl, _⟩
        · exact absurd rfl h0
        · rfl

end

end PagingGate.Json
