import PagingGate.Json.Skip
import PagingGate.Proofs.Json.Literal

set_option autoImplicit false

namespace PagingGate.Json

open Decimal (natOfDigits withSign splitSign)

def Exponent.scaled (x : Exponent) (negative : Bool) (significand : Nat) (e : Int) : Except Error Float :=
  let written := natOfDigits x.digits
  if largestExponent < written then
    if significand ≠ 0 ∧ x.sign ≠ ['-'] then .error .numberOutOfRange else .ok (withSign negative 0)
  else Json.scaled negative significand (if x.sign = ['-'] then e - written else e + written)

def scaledBy (x : Option Exponent) (negative : Bool) (significand : Nat) (e : Int) : Except Error Float :=
  match x with
  | none => Json.scaled negative significand e
  | some x => x.scaled negative significand e

namespace Literal

/-- Leading digits make up the significand as long as it stays below `2 ^ 64`. Digits before the point that do
not fit count as powers of ten, those behind it are dropped. -/
def number (n : Literal) : Except Error Number :=
  let (whole, _, left) := gather 0 0 n.whole
  if left = [] ∧ n.fraction = [] ∧ n.exponent.isNone then .ok (wholeNumber n.negative whole)
  else
    let (significand, count, _) := gather whole 0 n.fraction
    (scaledBy n.exponent n.negative significand (left.length - count)).map .real

def value (n : Literal) : Except Error Float := n.number.map Number.toFloat

end Literal

section
variable {negative : Bool} {significand : Nat} {e : Int} {err : Error}

theorem scale_error {f : Float} (h : scale f e = .error err) : err = .numberOutOfRange := by
  fun_induction scale f e with
  | case6 _ _ _ _ _ ih => exact ih h
  | _ => simp_all

theorem scaled_error (h : Json.scaled negative significand e = .error err) : err = .numberOutOfRange := by
  rw [Json.scaled] at h
  cases hs : scale (Float.ofNat significand) e with
  | error err' =>
    rw [hs, Except.error_bind] at h
    exact Except.error.inj h ▸ scale_error hs
  | ok x => simp [hs] at h

theorem scaledBy_error {x : Option Exponent} (h : scaledBy x negative significand e = .error err) :
    err = .numberOutOfRange := by
  cases x with
  | none => exact scaled_error h
  | some x =>
    rw [scaledBy, Exponent.scaled] at h
    split at h
    · split at h
      · exact (Except.error.inj h).symm
      · simp at h
    · exact scaled_error h

theorem Literal.number_error {n : Literal} (h : n.number = .error err) : err = .numberOutOfRange := by
  simp only [Literal.number] at h
  split at h
  · simp at h
  · cases hs : scaledBy n.exponent n.negative (gather (gather 0 0 n.whole).1 0 n.fraction).1
        ((gather 0 0 n.whole).2.2.length - (gather (gather 0 0 n.whole).1 0 n.fraction).2.1) with
    | error err' =>
      rw [hs] at h
      exact Except.error.inj h ▸ scaledBy_error hs
    | ok x => simp [hs] at h

end

theorem gather_append (s k : Nat) {ds rest : List Char} (hds : ∀ c ∈ ds, c.isDigit = true)
    (hr : NoDigit rest) : (∀ c ∈ (gather s k ds).2.2, c.isDigit = true) ∧
      gather s k (ds ++ rest) = ((gather s k ds).1, (gather s k ds).2.1, (gather s k ds).2.2 ++ rest) := by
  induction ds generalizing s k with
  | nil =>
    refine ⟨by simp [gather], ?_⟩
    cases rest with
    | nil => rfl
    | cons c rest =>
      have hc : c.isDigit = false := hr
      simp [gather, hc]
  | cons d ds ih =>
    simp only [List.mem_cons, forall_eq_or_imp] at hds
    simp only [List.cons_append, gather, hds.1, Bool.true_and]
    split
    · exact ih _ _ hds.2
    · exact ⟨by simpa using hds, rfl⟩

theorem gather_count (s k : Nat) (ds : List Char) :
    gather s k ds = ((gather s 0 ds).1, k + (gather s 0 ds).2.1, (gather s 0 ds).2.2) := by
  induction ds generalizing s k with
  | nil => rfl
  | cons d ds ih =>
    simp only [gather]
    split
    · rw [ih _ (k + 1), ih _ (0 + 1)]
      simp only [Nat.add_assoc, Nat.zero_add]
    · rfl

theorem gather_lengths (s : Nat) (ds : List Char) :
    (gather s 0 ds).2.1 + (gather s 0 ds).2.2.length = ds.length := by
  induction ds generalizing s with
  | nil => rfl
  | cons d ds ih =>
    simp only [gather]
    split
    · have hlen := ih (s * 10 + digitValue d)
      rw [gather_count _ (0 + 1), List.length_cons]
      dsimp only
      omega
    · simp

theorem not_sign_of_isDigit {c : Char} (h : c.isDigit = true) : c ≠ '+' ∧ c ≠ '-' := by
  refine ⟨?_, ?_⟩ <;> rintro rfl <;> simp [Char.isDigit] at h

theorem splitSign_append {sign rest : List Char} (h : IsSign sign)
    (hr : sign = [] → ∀ c ∈ rest.head?, c ≠ '+' ∧ c ≠ '-') :
    splitSign (sign ++ rest) = (decide (sign = ['-']), rest) := by
  rcases h with rfl | rfl | rfl
  · cases rest with
    | nil => rfl
    | cons c rest =>
      obtain ⟨hp, hm⟩ := hr rfl c rfl
      simp only [List.nil_append, splitSign]
      split <;> simp_all
  · rfl
  · rfl

theorem IsMark.noDigit {m : Char} (h : IsMark m) (cs : List Char) : NoDigit (m :: cs) := by
  rcases h with rfl | rfl <;> rfl

theorem Exponent.startsWithDigit (x : Exponent) (rest : List Char) : startsWithDigit (x.digits ++ rest) = true := by
  obtain ⟨d, ds, hd⟩ := List.exists_cons_of_ne_nil x.isDigits.1
  rw [hd]
  exact x.isDigits.2 d (by simp [hd])

theorem Exponent.splitSign (x : Exponent) (rest : List Char) :
    splitSign (x.sign ++ (x.digits ++ rest)) = (decide (x.sign = ['-']), x.digits ++ rest) := by
  refine splitSign_append x.isSign fun _ c hc => not_sign_of_isDigit ?_
  have hstart := x.startsWithDigit rest
  obtain ⟨tail, htail⟩ := List.head?_eq_some_iff.mp (Option.mem_def.mp hc)
  rw [htail] at hstart
  exact hstart

theorem readExponent_exponent (x : Exponent) (negative : Bool) (s : Nat) (e : Int) {rest : List Char}
    (hr : NoDigit rest) : readExponent negative s e (x.sign ++ x.digits ++ rest) =
      (x.scaled negative s e).map (·, rest) := by
  obtain ⟨hne, hdigits⟩ := x.isDigits
  obtain ⟨d, ds, hd⟩ := List.exists_cons_of_ne_nil hne
  have hfirst : d.isDigit = true := hdigits d (by simp [hd])
  have htake := takeWhile_digits hdigits hr
  have hdrop := dropWhile_digits hdigits hr
  rw [List.append_assoc, readExponent, x.splitSign]
  simp only [hd, List.cons_append] at htake hdrop ⊢
  simp only [if_pos hfirst, htake, hdrop, Exponent.scaled, hd]
  split
  · by_cases hs : s ≠ 0 ∧ x.sign ≠ ['-']
    · rw [if_pos hs, if_pos (by simpa using hs)]
      rfl
    · rw [if_neg hs, if_neg (by simpa using hs)]
      rfl
  · simp only [decide_eq_true_eq]
    cases scaled negative s (if x.sign = ['-'] then e - natOfDigits (d :: ds) else e + natOfDigits (d :: ds)) <;>
      rfl

theorem readScale_breaks {m : Char} {sign rest : List Char} (hm : IsMark m) (hsign : IsSign sign)
    (hr : NoDigit rest) (hplain : sign = [] → ∀ c ∈ rest.head?, c ≠ '+' ∧ c ≠ '-') (negative : Bool)
    (s : Nat) (e : Int) : readScale negative s e (m :: (sign ++ rest)) =
      .error (if rest = [] then .endOfValue else .invalidNumber) := by
  have hmark : m = 'e' ∨ m = 'E' := hm
  rw [readScale, if_pos hmark, readExponent, splitSign_append hsign hplain]
  cases rest with
  | nil => rfl
  | cons c rest =>
    have hc : c.isDigit = false := hr
    simp [hc]

theorem readScale_scaledBy (x : Option Exponent) (negative : Bool) (s : Nat) (e : Int) {rest : List Char}
    (hr : NoDigit rest) (hm : x = none → NoMark rest) :
    readScale negative s e ((x.map Exponent.text).getD [] ++ rest) =
      (scaledBy x negative s e).map (·, rest) := by
  cases x with
  | none =>
    rw [scaledBy]
    cases rest with
    | nil => simp only [Option.map_none, Option.getD_none, List.append_nil, readScale]; rfl
    | cons c rest =>
      have hc : ¬ (c = 'e' ∨ c = 'E') := hm rfl c rfl
      simp only [Option.map_none, Option.getD_none, List.nil_append, readScale, if_neg hc]
      rfl
  | some x =>
    have hmark : x.mark = 'e' ∨ x.mark = 'E' := x.isMark
    simp only [Option.map_some, Option.getD_some, Exponent.text, List.cons_append, readScale, if_pos hmark]
    exact readExponent_exponent x negative s e hr

section
variable {negative : Bool} {rest : List Char}

theorem noDigit_exponentText (n : Literal) (hr : NoDigit rest) : NoDigit (n.exponentText ++ rest) := by
  rw [Literal.exponentText]
  cases n.exponent with
  | none => exact hr
  | some x => exact x.isMark.noDigit _

theorem digitValue_lt {c : Char} (h : c.isDigit = true) : digitValue c < 10 := by
  simp only [Char.isDigit, Bool.and_eq_true, decide_eq_true_eq, UInt32.le_iff_toNat_le] at h
  have h1 : c.toNat ≤ 57 := h.2
  have h0 : '0'.toNat = 48 := rfl
  simp only [digitValue, h0]
  omega

theorem readNumber_whole (negative : Bool) (n : Literal) (hr : NoDigit rest) :
    readNumber negative (n.whole ++ rest) =
      readAfterWhole negative (gather 0 0 n.whole).1 (gather 0 0 n.whole).2.2.length rest := by
  obtain ⟨⟨hne, hdigits⟩, hzero⟩ := n.isWhole
  obtain ⟨c, ds, hw⟩ := List.exists_cons_of_ne_nil hne
  rw [hw] at hdigits hzero ⊢
  simp only [List.mem_cons, forall_eq_or_imp] at hdigits
  by_cases hc : c = '0'
  · obtain ⟨_, rfl⟩ := List.cons.inj (hzero (by simp [hc]))
    have hn : startsWithDigit rest = false := hr
    rw [List.cons_append, List.nil_append, readNumber, if_pos hc, hn, hc]
    rfl
  · obtain ⟨hleft, happ⟩ := gather_append (digitValue c) 0 hdigits.2 hr
    have hfirst : gather 0 0 (c :: ds) = gather (digitValue c) 1 ds := by
      have hlt := digitValue_lt hdigits.1
      simp only [gather, hdigits.1, Bool.true_and, Nat.zero_mul, Nat.zero_add]
      rw [if_pos (by simp only [decide_eq_true_eq]; omega)]
    rw [List.cons_append, readNumber, if_neg hc, if_pos hdigits.1, happ, hfirst, gather_count _ 1]
    simp only [takeWhile_digits hleft hr, dropWhile_digits hleft hr]

theorem readFraction_digits (negative : Bool) (s : Nat) (e : Int) {ds : List Char} (hds : IsDigits ds)
    (hr : NoDigit rest) : readFraction negative s e (ds ++ rest) =
      readScale negative (gather s 0 ds).1 (e - (gather s 0 ds).2.1) rest := by
  obtain ⟨hleft, happ⟩ := gather_append s 0 hds.2 hr
  have hlen := gather_lengths s ds
  have hpos := List.length_pos_iff.mpr hds.1
  simp only [readFraction, happ, dropWhile_digits hleft hr]
  cases hcut : (gather s 0 ds).2.2 with
  | nil =>
    have hn : startsWithDigit rest = false := hr
    rw [hcut, List.length_nil] at hlen
    rw [List.nil_append, hn, if_neg (by simp), if_neg (by omega)]
  | cons c left =>
    have hc : c.isDigit = true := hleft c (by simp [hcut])
    simp only [List.cons_append, startsWithDigit, if_pos hc]

theorem head_ne_point (n : Literal) (h : n.Ends rest) (hf : n.fraction = []) :
    (n.exponentText ++ rest).head? ≠ some '.' := by
  cases hx : n.exponent with
  | none =>
    rw [Literal.exponentText_of_none hx, List.nil_append]
    exact h.noPoint hx hf
  | some x =>
    rw [Literal.exponentText_of_some hx, Exponent.text, List.cons_append, List.cons_append, List.head?_cons]
    rcases x.isMark with hm | hm <;> simp [hm]

theorem readAfterWhole_plain (n : Literal) (s k : Nat) (h : n.Ends rest) (hf : n.fraction = []) :
    readAfterWhole n.negative s k (n.exponentText ++ rest) =
      if k = 0 ∧ n.exponent.isNone then .ok (wholeNumber n.negative s, rest)
      else (scaledBy n.exponent n.negative s k).map fun x => (.real x, rest) := by
  have hdigit := h.noDigit
  have hmark := h.noMark
  have hscale := readScale_scaledBy n.exponent n.negative s k hdigit hmark
  rw [← Literal.exponentText] at hscale
  have hhead : ((n.exponentText ++ rest).head? = some 'e' ∨ (n.exponentText ++ rest).head? = some 'E') ↔
      n.exponent.isNone = false := by
    cases hx : n.exponent with
    | none =>
      simp only [Literal.exponentText_of_none hx, List.nil_append, Option.isNone_none, Bool.true_eq_false, iff_false]
      rintro (h | h) <;> exact hmark hx _ h (by simp [IsMark])
    | some x => simpa [Literal.exponentText_of_some hx, Exponent.text, IsMark] using x.isMark
  unfold readAfterWhole
  split
  · rename_i tail htail
    exact absurd (by rw [htail]; rfl) (head_ne_point n h hf)
  · simp only [hhead, Bool.not_eq_false, hscale]
    by_cases hk : k = 0 ∧ n.exponent.isNone = true
    · rw [if_pos hk, if_pos hk, Literal.exponentText, Option.isNone_iff_eq_none.mp hk.2]
      rfl
    · rw [if_neg hk, if_neg hk]
      cases scaledBy n.exponent n.negative s k <;> rfl

theorem readNumber_literal (n : Literal) (h : n.Ends rest) :
    readNumber n.negative (n.unsigned ++ rest) = n.number.map (·, rest) := by
  have hdigit := h.noDigit
  have hmark := h.noMark
  have hdigit' := noDigit_exponentText n hdigit
  rw [Literal.unsigned, List.append_assoc, List.append_assoc]
  by_cases hf : n.fraction = []
  · have htext : n.fractionText = [] := if_pos hf
    rw [htext, List.nil_append, readNumber_whole _ _ hdigit', readAfterWhole_plain n _ _ h hf, Literal.number]
    have hcount : ((0 : Nat) : Int) = 0 := rfl
    simp only [hf, true_and, gather, List.length_eq_zero_iff, hcount, Int.sub_zero]
    split
    · rfl
    · cases scaledBy n.exponent n.negative _ _ <;> rfl
  · have htext : n.fractionText = '.' :: n.fraction := if_neg hf
    have hpoint' : NoDigit ('.' :: n.fraction ++ (n.exponentText ++ rest)) := rfl
    rw [htext, readNumber_whole _ _ hpoint', List.cons_append, readAfterWhole,
      readFraction_digits _ _ _ ⟨hf, n.isFraction⟩ hdigit', Literal.exponentText,
      readScale_scaledBy _ _ _ _ hdigit hmark, Literal.number]
    simp only [hf, false_and, and_false, if_false]
    cases scaledBy n.exponent n.negative _ _ <;> rfl

theorem ne_zero_of_isDigit_eq_false {c : Char} (h : c.isDigit = false) : c ≠ '0' := by
  rintro rfl
  simp [Char.isDigit] at h

theorem readNumber_breaks {front : List Char} (h : Breaks front rest) :
    readNumber negative (front ++ rest) = .error (if rest = [] then .endOfValue else .invalidNumber) := by
  cases h with
  | start hr =>
    cases rest with
    | nil => rfl
    | cons c rest =>
      have hc : c.isDigit = false := hr
      simp [readNumber, ne_zero_of_isDigit_eq_false hc, hc]
  | zero hr =>
    have hne : rest ≠ [] := by
      rintro rfl
      simp [startsWithDigit] at hr
    simp [readNumber, hr, hne]
  | point n hf hx hr =>
    have hp : NoDigit ('.' :: rest) := rfl
    have hnone : ∀ c ∈ ([] : List Char), c.isDigit = true := by simp
    have hg : gather (gather 0 0 n.whole).1 0 rest = ((gather 0 0 n.whole).1, 0, rest) :=
      (gather_append (gather 0 0 n.whole).1 0 hnone hr).2
    have hn : startsWithDigit rest = false := hr
    rw [Literal.unsigned_of_none hx, Literal.fractionText, if_pos hf, List.append_nil, List.append_assoc,
      List.singleton_append, readNumber_whole _ _ hp, readAfterWhole, readFraction]
    simp only [hg, hn, Bool.false_eq_true, if_false, if_true]
    rfl
  | @mark _ n m sign hx hm hs hr hplain =>
    have hbreak := readScale_breaks hm hs hr hplain negative
    have hmark : NoDigit (m :: (sign ++ rest)) := hm.noDigit _
    rw [Literal.unsigned_of_none hx, List.append_assoc, List.append_assoc, List.cons_append, Literal.fractionText]
    split
    · rw [List.nil_append, readNumber_whole _ _ hmark, readAfterWhole]
      · rw [if_neg (by rcases hm with rfl | rfl <;> simp), hbreak]
        rfl
      · rcases hm with rfl | rfl <;> simp
    · rename_i hf
      have hp : NoDigit ('.' :: n.fraction ++ (m :: (sign ++ rest))) := rfl
      rw [readNumber_whole _ _ hp, List.cons_append, readAfterWhole,
        readFraction_digits _ _ _ ⟨hf, n.isFraction⟩ hmark, hbreak]
      rfl

end

section
variable {rest : List Char}

theorem skipScale_exponentText (n : Literal) (h : n.Ends rest) :
    skipScale (n.exponentText ++ rest) = .ok rest := by
  cases hx : n.exponent with
  | none =>
    rw [Literal.exponentText_of_none hx, List.nil_append]
    cases rest with
    | nil => rfl
    | cons c rest =>
      have hc : ¬ (c = 'e' ∨ c = 'E') := h.noMark hx c rfl
      rw [skipScale, if_neg hc]
  | some x =>
    have hmark : x.mark = 'e' ∨ x.mark = 'E' := x.isMark
    rw [Literal.exponentText_of_some hx, Exponent.text, List.append_assoc, List.cons_append, skipScale,
      if_pos hmark, skipExponent, x.splitSign]
    simp only [x.startsWithDigit, if_true, dropWhile_digits x.isDigits.2 h.noDigit]

theorem skipNumber_whole (n : Literal) (hr : NoDigit rest) :
    skipNumber (n.whole ++ rest) = skipAfterWhole rest := by
  obtain ⟨⟨hne, hdigits⟩, hzero⟩ := n.isWhole
  obtain ⟨c, ds, hw⟩ := List.exists_cons_of_ne_nil hne
  rw [hw] at hdigits hzero ⊢
  simp only [List.mem_cons, forall_eq_or_imp] at hdigits
  rw [List.cons_append, skipNumber]
  by_cases hc : c = '0'
  · obtain ⟨_, rfl⟩ := List.cons.inj (hzero (by simp [hc]))
    have hn : startsWithDigit rest = false := hr
    rw [if_pos hc, List.nil_append, hn, if_neg (by simp)]
  · rw [if_neg hc, if_pos hdigits.1, dropWhile_digits hdigits.2 hr]

theorem skipAfterWhole_fraction {ds : List Char} (hds : IsDigits ds) (hr : NoDigit rest) :
    skipAfterWhole ('.' :: (ds ++ rest)) = skipScale rest := by
  obtain ⟨d, tail, hd⟩ := List.exists_cons_of_ne_nil hds.1
  have hstart : startsWithDigit (ds ++ rest) = true := by
    rw [hd]
    exact hds.2 d (by simp [hd])
  rw [skipAfterWhole, hstart, if_pos rfl, dropWhile_digits hds.2 hr]

theorem skipAfterWhole_plain {cs : List Char} (h : cs.head? ≠ some '.') :
    skipAfterWhole cs = skipScale cs := by
  unfold skipAfterWhole
  split
  · exact absurd rfl h
  · rfl

theorem skipNumber_literal (n : Literal) (h : n.Ends rest) : skipNumber (n.unsigned ++ rest) = .ok rest := by
  have hdigit := noDigit_exponentText n h.noDigit
  rw [Literal.unsigned, List.append_assoc, List.append_assoc, Literal.fractionText]
  split
  · rename_i hf
    rw [List.nil_append, skipNumber_whole n hdigit, skipAfterWhole_plain (head_ne_point n h hf),
      skipScale_exponentText n h]
  · rename_i hf
    have hp : NoDigit ('.' :: n.fraction ++ (n.exponentText ++ rest)) := rfl
    rw [skipNumber_whole n hp, List.cons_append, skipAfterWhole_fraction ⟨hf, n.isFraction⟩ hdigit,
      skipScale_exponentText n h]

theorem skipScale_breaks {m : Char} {sign : List Char} (hm : IsMark m) (hsign : IsSign sign)
    (hr : NoDigit rest) (hplain : sign = [] → ∀ c ∈ rest.head?, c ≠ '+' ∧ c ≠ '-') :
    skipScale (m :: (sign ++ rest)) = .error .invalidNumber := by
  have hmark : m = 'e' ∨ m = 'E' := hm
  have hn : startsWithDigit rest = false := hr
  rw [skipScale, if_pos hmark, skipExponent, splitSign_append hsign hplain]
  simp [hn]

theorem skipNumber_breaks {front : List Char} (h : Breaks front rest) :
    skipNumber (front ++ rest) = .error .invalidNumber := by
  cases h with
  | start hr =>
    cases rest with
    | nil => rfl
    | cons c rest =>
      have hc : c.isDigit = false := hr
      simp [skipNumber, ne_zero_of_isDigit_eq_false hc, hc]
  | zero hr => simp [skipNumber, hr]
  | point n hf hx hr =>
    have hp : NoDigit ('.' :: rest) := rfl
    have hn : startsWithDigit rest = false := hr
    rw [Literal.unsigned_of_none hx, Literal.fractionText, if_pos hf, List.append_nil, List.append_assoc,
      List.singleton_append, skipNumber_whole n hp, skipAfterWhole, hn, if_neg (by simp)]
  | @mark _ n m sign hx hm hs hr hplain =>
    have hmark : NoDigit (m :: (sign ++ rest)) := hm.noDigit _
    rw [Literal.unsigned_of_none hx, List.append_assoc, List.append_assoc, List.cons_append, Literal.fractionText]
    split
    · rw [List.nil_append, skipNumber_whole n hmark,
        skipAfterWhole_plain (by rcases hm with rfl | rfl <;> simp), skipScale_breaks hm hs hr hplain]
    · rename_i hf
      have hp : NoDigit ('.' :: n.fraction ++ (m :: (sign ++ rest))) := rfl
      rw [skipNumber_whole n hp, List.cons_append, skipAfterWhole_fraction ⟨hf, n.isFraction⟩ hmark,
        skipScale_breaks hm hs hr hplain]

end

end PagingGate.Json
