import PagingGate.Proofs.Decimal.Numeral
import PagingGate.Proofs.Json.Numbers

set_option autoImplicit false

namespace PagingGate.Decimal

open Json (IsDigits IsMark IsSign NoDigit dropWhile_digits not_sign_of_isDigit splitSign_append takeWhile_digits)

def isMinus (sign : List Char) : Bool := decide (sign = ['-'])

def signedInt (sign ds : List Char) : Int := if isMinus sign then -natOfDigits ds else natOfDigits ds

/-- The digits and the text of a fraction, which may be missing. -/
inductive IsFraction : List Char → List Char → Prop where
  | absent : IsFraction [] []
  | present {ds} : IsDigits ds → IsFraction ds ('.' :: ds)

/-- The value and the text of an exponent, which may be missing. -/
inductive IsExponent : Int → List Char → Prop where
  | absent : IsExponent 0 []
  | present {m sign ds} : IsMark m → IsSign sign → IsDigits ds → IsExponent (signedInt sign ds) (m :: (sign ++ ds))

variable {sign whole fraction f x ds cs : List Char} {e : Int} {negative : Bool}

theorem splitDigits_append {ds rest : List Char} (h : ∀ c ∈ ds, c.isDigit = true) (hr : NoDigit rest) :
    splitDigits (ds ++ rest) = (ds, rest) := by
  rw [splitDigits, takeWhile_digits h hr, dropWhile_digits h hr]

theorem splitDigits_digits {ds : List Char} (h : ∀ c ∈ ds, c.isDigit = true) : splitDigits ds = (ds, []) := by
  have hsplit : splitDigits (ds ++ []) = (ds, []) := splitDigits_append h rfl
  rwa [List.append_nil] at hsplit

theorem splitSign_digits (hs : IsSign sign) (hd : IsDigits ds) (rest : List Char) :
    splitSign (sign ++ (ds ++ rest)) = (isMinus sign, ds ++ rest) := by
  refine splitSign_append hs fun _ c hc => not_sign_of_isDigit ?_
  obtain ⟨hne, hdigits⟩ := hd
  obtain ⟨d, tail, rfl⟩ := List.exists_cons_of_ne_nil hne
  rw [← Option.some.inj hc]
  exact hdigits d List.mem_cons_self

theorem readExponent?_spelled (h : IsExponent e x) : readExponent? x = some e := by
  cases h with
  | absent => rfl
  | @present m sign ds hm hs hd =>
    have hsplit := splitSign_digits hs hd []
    rw [List.append_nil] at hsplit
    have hmark : m = 'e' ∨ m = 'E' := hm
    simp only [readExponent?, if_pos hmark, hsplit, splitDigits_digits hd.2, hd.1, false_or, ne_eq, not_true_eq_false,
      if_false, signedInt]

theorem IsExponent.noDigit (h : IsExponent e x) : NoDigit x := by
  cases h with
  | absent => rfl
  | present hm _ _ => exact hm.noDigit _

theorem IsExponent.head?_ne (h : IsExponent e x) : x.head? ≠ some '.' := by
  cases h with
  | absent => simp
  | present hm _ _ => rcases hm with rfl | rfl <;> simp

theorem readUnsigned?_spelled (negative : Bool) (hw : IsDigits whole) (hf : IsFraction fraction f) (hx : IsExponent e x) :
    readUnsigned? negative (whole ++ (f ++ x)) =
      some ⟨negative, natOfDigits (whole ++ fraction), e - fraction.length⟩ := by
  cases hf with
  | absent =>
    rw [List.nil_append, readUnsigned?, splitDigits_append hw.2 hx.noDigit]
    have hhead := hx.head?_ne
    have hread := readExponent?_spelled hx
    cases x with
    | nil => simp [hw.1, hread]
    | cons c x =>
      have hpoint : c ≠ '.' := by simpa using hhead
      simp [hw.1, hread, hpoint]
  | present hd =>
    have hpoint : NoDigit ('.' :: (fraction ++ x)) := rfl
    rw [List.cons_append, readUnsigned?, splitDigits_append hw.2 hpoint]
    simp only [splitDigits_append hd.2 hx.noDigit, hw.1, false_and, if_false, readExponent?_spelled hx, Option.map_some]

theorem isAlpha_of_isDigit {c : Char} (h : c.isDigit = true) : c.isAlpha = false := by
  simp only [Char.isDigit, Bool.and_eq_true, decide_eq_true_eq, UInt32.le_iff_toNat_le, ge_iff_le] at h
  simp only [Char.isAlpha, Char.isUpper, Char.isLower, Bool.or_eq_false_iff, Bool.and_eq_false_iff,
    decide_eq_false_iff_not, UInt32.le_iff_toNat_le, ge_iff_le]
  have h9 : '9'.val.toNat = 57 := rfl
  have hA : 'A'.val.toNat = 65 := rfl
  have ha : 'a'.val.toNat = 97 := rfl
  omega

theorem readWord?_digit {c : Char} (hc : c.isDigit = true) (negative : Bool) (cs : List Char) :
    readWord? negative (c :: cs) = none := by
  have hletter : c.toLower.isAlpha = false := by
    rw [Char.isAlpha_toLower_eq_isAlpha, isAlpha_of_isDigit hc]
  have hne : ∀ d : Char, d.isAlpha = true → c.toLower ≠ d := by
    rintro d hd rfl
    rw [hletter] at hd
    cases hd
  simp [readWord?, hne 'i' (by decide), hne 'n' (by decide)]

theorem readFloat?_spelled (hs : IsSign sign) (hw : IsDigits whole) (hf : IsFraction fraction f) (hx : IsExponent e x) :
    readFloat? (sign ++ (whole ++ (f ++ x))) =
      some (Numeral.toFloat ⟨isMinus sign, natOfDigits (whole ++ fraction), e - fraction.length⟩) := by
  rw [readFloat?, splitSign_digits hs hw]
  dsimp only
  rw [readUnsigned?_spelled _ hw hf hx]
  obtain ⟨hne, hdigits⟩ := hw
  obtain ⟨c, tail, rfl⟩ := List.exists_cons_of_ne_nil hne
  rw [List.cons_append, readWord?_digit (hdigits c List.mem_cons_self)]
  rfl

def isNumeralChar (c : Char) : Bool := c.isAlphanum || c = '+' || c = '-' || c = '.'

theorem isNumeralChar_of_isDigit {c : Char} (h : c.isDigit = true) : isNumeralChar c = true := by
  simp [isNumeralChar, Char.isAlphanum, h]

theorem numeralChars_splitSign (h : ∀ c ∈ (splitSign cs).2, isNumeralChar c = true) :
    ∀ c ∈ cs, isNumeralChar c = true := by
  unfold splitSign at h
  split at h
  · exact List.forall_mem_cons.mpr ⟨rfl, h⟩
  · exact List.forall_mem_cons.mpr ⟨rfl, h⟩
  · exact h

theorem numeralChars_splitDigits (h : ∀ c ∈ (splitDigits cs).2, isNumeralChar c = true) :
    ∀ c ∈ cs, isNumeralChar c = true := by
  intro c hc
  rw [← List.takeWhile_append_dropWhile (p := Char.isDigit) (l := cs), List.mem_append] at hc
  rcases hc with hc | hc
  · exact isNumeralChar_of_isDigit (List.mem_takeWhile_imp hc)
  · exact h c hc

theorem numeralChars_of_readExponent? (h : readExponent? cs = some e) : ∀ c ∈ cs, isNumeralChar c = true := by
  unfold readExponent? at h
  split at h
  · simp
  · rename_i c cs
    split at h
    · rename_i hm
      refine List.forall_mem_cons.mpr ⟨by rcases hm with rfl | rfl <;> decide, ?_⟩
      refine numeralChars_splitSign (numeralChars_splitDigits ?_)
      dsimp only at h
      split at h
      · cases h
      · rename_i hrest
        rw [not_or, not_not] at hrest
        rw [hrest.2]
        simp
    · cases h

theorem numeralChars_of_readUnsigned? {n : Numeral} (h : readUnsigned? negative cs = some n) :
    ∀ c ∈ cs, isNumeralChar c = true := by
  refine numeralChars_splitDigits ?_
  have hexponent : ∀ {rest : List Char} {ds : List Char} {k : ℕ}, (readExponent? rest).map
      (fun e => Numeral.mk negative (natOfDigits ds) (e - k)) = some n → ∀ c ∈ rest, isNumeralChar c = true := by
    intro rest ds k h
    obtain ⟨e, he, _⟩ := Option.map_eq_some_iff.mp h
    exact numeralChars_of_readExponent? he
  unfold readUnsigned? at h
  dsimp only at h
  split at h
  · rename_i rest hrest
    split at h
    · cases h
    · rw [hrest]
      exact List.forall_mem_cons.mpr ⟨rfl, numeralChars_splitDigits (hexponent h)⟩
  · split at h
    · cases h
    · exact hexponent h

theorem numeralChars_of_readWord? {y : Float} (h : readWord? negative cs = some y) : ∀ c ∈ cs, isNumeralChar c = true := by
  have hletters : ∀ {word : List Char}, cs.map Char.toLower = word → (∀ d ∈ word, d.isAlpha = true) →
      ∀ c ∈ cs, isNumeralChar c = true := by
    rintro word rfl hword c hc
    have halpha := hword c.toLower (List.mem_map_of_mem hc)
    rw [Char.isAlpha_toLower_eq_isAlpha] at halpha
    simp [isNumeralChar, Char.isAlphanum, halpha]
  unfold readWord? at h
  dsimp only at h
  split at h
  · rename_i hword
    rcases hword with hword | hword
    · exact hletters hword (by simp)
    · exact hletters hword (by simp)
  · split at h
    · rename_i hword
      exact hletters hword (by simp)
    · cases h

theorem numeralChars_of_readFloat? {y : Float} (h : readFloat? cs = some y) :
    cs ≠ [] ∧ ∀ c ∈ cs, isNumeralChar c = true := by
  refine ⟨?_, ?_⟩
  · rintro rfl
    cases h
  · refine numeralChars_splitSign ?_
    rw [readFloat?] at h
    rcases Option.or_eq_some_iff.mp h with h | ⟨_, h⟩
    · exact numeralChars_of_readWord? h
    · obtain ⟨n, hn, _⟩ := Option.map_eq_some_iff.mp h
      exact numeralChars_of_readUnsigned? hn

end PagingGate.Decimal
