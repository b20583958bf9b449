import PagingGate.Json.Text
import PagingGate.Proofs.Decimal.Digits
import PagingGate.Proofs.Decimal.Exact
import PagingGate.Proofs.Decimal.Fixed
import PagingGate.Proofs.Decimal.Shortest
import PagingGate.Proofs.Json.Fields
import PagingGate.Proofs.Json.Significand

set_option autoImplicit false

namespace PagingGate.Json

open Binary64 (Canonical isFinite_of_value? rational rounded rounded_zero)
open Decimal (Layout head_toDigits natOfDigits positionalText scientificText)

theorem isDigits_toDigits (n : ℕ) : IsDigits (Nat.toDigits 10 n) :=
  ⟨Nat.toDigits_ne_nil, fun _ h => Nat.isDigit_of_mem_toDigits (by decide) (by decide) h⟩

theorem natOfDigits_toDigits (n : ℕ) : natOfDigits (Nat.toDigits 10 n) = n := Nat.ofDigitChars_ten_toDigits

theorem isDigit_of_mem_zeros {n : ℕ} {c : Char} (h : c ∈ List.replicate n '0') : c.isDigit = true := by
  rw [List.eq_of_mem_replicate h]
  rfl

/-- The literal has this text behind its sign, and this significand and power. -/
structure Literal.Writes (n : Literal) (text : List Char) (s : ℕ) (p : ℤ) : Prop where
  unsigned_eq : n.unsigned = text
  isScaled : n.IsScaled
  significand_eq : n.significand = s
  power_eq : n.power = p

section
variable {d : ℕ} {k : ℤ}

theorem writes_whole (negative : Bool) (hd : 0 < d) (hk : 0 ≤ k) : ∃ n : Literal, n.negative = negative ∧
    n.Writes (positionalText (Nat.toDigits 10 d) k) (d * 10 ^ (k.toNat + 1)) (-1) := by
  have hdigits := isDigits_toDigits d
  have hhead : (Nat.toDigits 10 d ++ List.replicate k.toNat '0').head? ≠ some '0' := by
    rw [List.head?_append_of_ne_nil _ hdigits.1]
    exact head_toDigits hd
  let n : Literal :=
    { negative
      whole := Nat.toDigits 10 d ++ List.replicate k.toNat '0'
      fraction := ['0']
      exponent := none
      isWhole := by
        refine ⟨⟨by simp [hdigits.1], fun c hc => ?_⟩, fun h => absurd h hhead⟩
        rcases List.mem_append.mp hc with hc | hc
        · exact hdigits.2 c hc
        · exact isDigit_of_mem_zeros hc
      isFraction := by simp }
  refine ⟨n, rfl, ?_, ⟨Or.inl (by simp [n]), by simp [n]⟩, ?_, rfl⟩
  · simp [Literal.unsigned, Literal.fractionText, Literal.exponentText, positionalText, n, hk]
  · simp only [Literal.significand, Literal.digits, natOfDigits, n, Nat.ofDigitChars_append,
      Nat.ofDigitChars_ten_toDigits, Nat.ofDigitChars_replicate_zero]
    rw [Nat.ofDigitChars_cons, Nat.ofDigitChars_nil, pow_succ, Nat.sub_self, Nat.add_zero]
    ring

theorem writes_inner (negative : Bool) (hd : 0 < d) (hk : k < 0)
    (hp : 0 < ((Nat.toDigits 10 d).length : ℤ) + k) : ∃ n : Literal, n.negative = negative ∧
    n.Writes (positionalText (Nat.toDigits 10 d) k) d k := by
  have hdigits := isDigits_toDigits d
  have hhead := head_toDigits hd
  have hvalue := natOfDigits_toDigits d
  generalize Nat.toDigits 10 d = ds at hdigits hhead hvalue hp
  generalize hpoint : ((ds.length : ℤ) + k).toNat = point
  have hfront : ds.take point ≠ [] := by
    have := List.length_pos_iff.mpr hdigits.1
    rw [ne_eq, List.take_eq_nil_iff]
    simp only [hdigits.1, or_false]
    omega
  have hback : ds.drop point ≠ [] := by
    rw [ne_eq, List.drop_eq_nil_iff]
    omega
  let n : Literal :=
    { negative
      whole := ds.take point
      fraction := ds.drop point
      exponent := none
      isWhole := by
        refine ⟨⟨hfront, fun c hc => hdigits.2 c (List.mem_of_mem_take hc)⟩, fun h => ?_⟩
        rw [List.head?_take, if_neg (by omega)] at h
        exact absurd h hhead
      isFraction := fun c hc => hdigits.2 c (List.mem_of_mem_drop hc) }
  refine ⟨n, rfl, ?_, ⟨Or.inl hback, by simp [n]⟩, ?_, ?_⟩
  · simp [Literal.unsigned, Literal.fractionText, Literal.exponentText, positionalText, n, hback, hpoint, hp,
      not_le.mpr hk]
  · simp only [Literal.significand, Literal.digits, n, List.take_append_drop, hvalue]
  · simp only [Literal.power, Literal.writtenPower, n, Option.map_none, Option.getD_none, List.length_drop]
    omega

theorem writes_small (negative : Bool) (hp : ((Nat.toDigits 10 d).length : ℤ) + k ≤ 0) : ∃ n : Literal,
    n.negative = negative ∧ n.Writes (positionalText (Nat.toDigits 10 d) k) d k := by
  have hdigits := isDigits_toDigits d
  have hvalue := natOfDigits_toDigits d
  generalize Nat.toDigits 10 d = ds at hdigits hvalue hp
  have hpos := List.length_pos_iff.mpr hdigits.1
  let n : Literal :=
    { negative
      whole := ['0']
      fraction := List.replicate (-(ds.length + k)).toNat '0' ++ ds
      exponent := none
      isWhole := ⟨⟨by simp, by simp⟩, by simp⟩
      isFraction := fun c hc => by
        rcases List.mem_append.mp hc with hc | hc
        · exact isDigit_of_mem_zeros hc
        · exact hdigits.2 c hc }
  have hback : n.fraction ≠ [] := by simp [n, hdigits.1]
  refine ⟨n, rfl, ?_, ⟨Or.inl hback, by simp [n]⟩, ?_, ?_⟩
  · have hk : ¬ 0 ≤ k := by omega
    simp only [Literal.unsigned, Literal.fractionText, if_neg hback, Literal.exponentText, positionalText, if_neg hk,
      if_neg (not_lt.mpr hp)]
    simp [n]
  · simp only [Literal.significand, Literal.digits, natOfDigits, n, Nat.ofDigitChars_append,
      Nat.ofDigitChars_replicate_zero]
    exact hvalue
  · simp only [Literal.power, Literal.writtenPower, n, Option.map_none, Option.getD_none, List.length_append,
      List.length_replicate]
    push_cast
    omega

theorem isMark_small : IsMark 'e' := Or.inl rfl

def signedExponent (e : ℤ) : Exponent where
  mark := 'e'
  sign := [if 0 ≤ e then '+' else '-']
  digits := Nat.toDigits 10 e.natAbs
  isMark := isMark_small
  isSign := by
    split
    · exact Or.inr (Or.inl rfl)
    · exact Or.inr (Or.inr rfl)
  isDigits := isDigits_toDigits _

theorem written_signedExponent (e : ℤ) : (signedExponent e).written = e := by
  by_cases h : 0 ≤ e
  · have hsign : (signedExponent e).sign = ['+'] := by simp [signedExponent, h]
    rw [Exponent.written, hsign, if_neg (by decide), signedExponent, natOfDigits_toDigits]
    omega
  · have hsign : (signedExponent e).sign = ['-'] := by simp [signedExponent, h]
    rw [Exponent.written, hsign, if_pos rfl, signedExponent, natOfDigits_toDigits]
    omega

theorem scientificText_cons (c : Char) (rest : List Char) (e : ℤ) : scientificText (c :: rest) e =
    c :: ((if rest = [] then [] else '.' :: rest) ++ (signedExponent e).text) := by
  cases rest <;> simp [scientificText, signedExponent, Exponent.text]

theorem writes_scientific (negative : Bool) (hd : 0 < d) {e : ℤ} (he : e.natAbs ≤ largestExponent) :
    ∃ n : Literal, n.negative = negative ∧ n.Writes (scientificText (Nat.toDigits 10 d) e) d
      (e - ((Nat.toDigits 10 d).length - 1)) := by
  have hdigits := isDigits_toDigits d
  have hhead := head_toDigits hd
  have hvalue := natOfDigits_toDigits d
  generalize Nat.toDigits 10 d = ds at hdigits hhead hvalue
  obtain ⟨c, rest, rfl⟩ := List.exists_cons_of_ne_nil hdigits.1
  let n : Literal :=
    { negative
      whole := [c]
      fraction := rest
      exponent := some (signedExponent e)
      isWhole := by
        refine ⟨⟨by simp, fun x hx => hdigits.2 x ?_⟩, fun h => absurd h hhead⟩
        exact List.mem_cons.mpr (Or.inl (List.mem_singleton.mp hx))
      isFraction := fun x hx => hdigits.2 x (List.mem_cons_of_mem c hx) }
  refine ⟨n, rfl, ?_, ⟨Or.inr rfl, fun x hx => ?_⟩, hvalue, ?_⟩
  · rw [scientificText_cons]
    rfl
  · obtain rfl := Option.some.inj hx
    rw [signedExponent, natOfDigits_toDigits]
    exact he
  · have hpower : n.power = (signedExponent e).written - rest.length := rfl
    rw [hpower, written_signedExponent, List.length_cons]
    push_cast
    ring

/-- Positional or scientific, the text stands for `d * 10 ^ k`. Whole numbers have a zero behind the point. -/
theorem writes_layout (l : Layout) (negative : Bool) (hd : 0 < d)
    (he : (((Nat.toDigits 10 d).length : ℤ) - 1 + k).natAbs ≤ largestExponent) :
    ∃ (n : Literal) (s : ℕ) (p : ℤ), n.negative = negative ∧ n.Writes (l.text d k) s p ∧
      (s = d ∧ p = k ∨
        0 ≤ k ∧ l.positional ((Nat.toDigits 10 d).length - 1 + k) = true ∧ s = d * 10 ^ (k.toNat + 1) ∧ p = -1) := by
  unfold Layout.text
  simp only
  split
  · rename_i hl
    by_cases hk : 0 ≤ k
    · obtain ⟨n, hn, hw⟩ := writes_whole negative hd hk
      exact ⟨n, _, _, hn, hw, Or.inr ⟨hk, hl, rfl, rfl⟩⟩
    · rcases lt_or_ge 0 (((Nat.toDigits 10 d).length : ℤ) + k) with hp | hp
      · obtain ⟨n, hn, hw⟩ := writes_inner negative hd (not_le.mp hk) hp
        exact ⟨n, _, _, hn, hw, Or.inl ⟨rfl, rfl⟩⟩
      · obtain ⟨n, hn, hw⟩ := writes_small negative hp
        exact ⟨n, _, _, hn, hw, Or.inl ⟨rfl, rfl⟩⟩
  · obtain ⟨n, hn, hw⟩ := writes_scientific negative hd he
    refine ⟨n, _, _, hn, hw, Or.inl ⟨rfl, ?_⟩⟩
    ring

end

/-- The literal of a number with mantissa `m` and exponent `e`: its shortest digits, with zeros behind them if need be. -/
structure Literal.Shows (n : Literal) (negative : Bool) (m : ℕ) (e : ℤ) : Prop where
  negative_eq : n.negative = negative
  isScaled : n.IsScaled
  small : n.significand < 2 ^ 57
  low : -324 ≤ n.power
  high : n.power ≤ 308
  zero : m = 0 → n.significand = 0 ∧ n.power = -1
  shortest : 0 < m → ∃ j : ℕ, n.significand = (Decimal.shortest m e).1 * 10 ^ j ∧ n.power = (Decimal.shortest m e).2 - j
  contains : 0 < m → 0 < n.significand ∧ (Decimal.roundingInterval m e).Contains (n.significand * 10 ^ n.power)

def zeroLiteral (negative : Bool) : Literal where
  negative := negative
  whole := ['0']
  fraction := ['0']
  exponent := none
  isWhole := ⟨⟨by simp, by simp⟩, by simp⟩
  isFraction := by simp

theorem zeroLiteral_shows (negative : Bool) (e : ℤ) : (zeroLiteral negative).Shows negative 0 e where
  negative_eq := rfl
  isScaled := ⟨Or.inl (by simp [zeroLiteral]), by simp [zeroLiteral]⟩
  small := show 0 < 2 ^ 57 by decide
  low := show (-324 : ℤ) ≤ -1 by decide
  high := show (-1 : ℤ) ≤ 308 by decide
  zero := fun _ => ⟨rfl, rfl⟩
  shortest := fun h => absurd h (lt_irrefl 0)
  contains := fun h => absurd h (lt_irrefl 0)

theorem text_eq_sign_append (n : Literal) :
    n.text = if n.negative then '-' :: n.unsigned else n.unsigned := by
  cases h : n.negative with
  | false => exact Literal.text_of_not_negative h
  | true => exact Literal.text_of_negative h

theorem lt_ten_pow_length (d : ℕ) : d < 10 ^ (Nat.toDigits 10 d).length :=
  (Nat.length_toDigits_le_iff (by decide) Nat.length_toDigits_pos).mp le_rfl

theorem small_of_positional {d : ℕ} {k : ℤ} (hk : 0 ≤ k)
    (hl : Decimal.jsonLayout.positional ((Nat.toDigits 10 d).length - 1 + k) = true) : d * 10 ^ (k.toNat + 1) < 2 ^ 57 := by
  have hwindow : ((Nat.toDigits 10 d).length : ℤ) - 1 + k ≤ 15 := by
    simp only [Layout.positional, Decimal.jsonLayout, Bool.and_eq_true, decide_eq_true_iff] at hl
    exact hl.2
  calc d * 10 ^ (k.toNat + 1)
      < 10 ^ (Nat.toDigits 10 d).length * 10 ^ (k.toNat + 1) :=
        Nat.mul_lt_mul_of_pos_right (lt_ten_pow_length d) (Nat.pow_pos (by decide))
    _ = 10 ^ ((Nat.toDigits 10 d).length + (k.toNat + 1)) := (Nat.pow_add _ _ _).symm
    _ ≤ 10 ^ 17 := Nat.pow_le_pow_right (by decide) (by omega)
    _ < 2 ^ 57 := by decide

theorem whole_value (d : ℕ) {k : ℤ} (hk : 0 ≤ k) :
    ((d * 10 ^ (k.toNat + 1) : ℕ) : ℚ) * 10 ^ (-1 : ℤ) = d * 10 ^ k := by
  have hk' : k = k.toNat := by omega
  rw [zpow_neg_one, pow_succ]
  conv_rhs => rw [hk', zpow_natCast]
  push_cast
  field_simp

theorem finiteText_literal (negative : Bool) {m : ℕ} {e : ℤ} (h : 0 < m → Canonical m e) : ∃ n : Literal,
    Decimal.jsonLayout.finiteText negative m e = n.text ∧ n.Shows negative m e := by
  unfold Layout.finiteText
  by_cases hm : m = 0
  · subst hm
    refine ⟨zeroLiteral negative, ?_, zeroLiteral_shows negative e⟩
    rw [if_pos rfl, text_eq_sign_append]
    rfl
  · have hm0 : 0 < m := Nat.pos_of_ne_zero hm
    obtain ⟨d, k, hs, hc, hd, hsmall, hlow, hhigh⟩ := Decimal.shortest_contains hm0 (h hm0)
    have hlength : (Nat.toDigits 10 d).length ≤ 18 :=
      (Nat.length_toDigits_le_iff (by decide) (by decide)).mpr (hsmall.trans (by decide))
    have hexponent : (((Nat.toDigits 10 d).length : ℤ) - 1 + k).natAbs ≤ largestExponent := by
      rw [largestExponent]
      omega
    obtain ⟨n, _, _, hn, ⟨hunsigned, hscaled, rfl, rfl⟩, hsp⟩ := writes_layout Decimal.jsonLayout negative hd hexponent
    rw [if_neg hm, hs]
    refine ⟨n, by rw [text_eq_sign_append, hunsigned, hn], ?_⟩
    rcases hsp with ⟨hd', hk'⟩ | ⟨hk, hl, hd', hp⟩
    · rw [← hd', ← hk'] at hc
      rw [← hd'] at hd hsmall
      rw [← hk'] at hlow hhigh
      exact ⟨hn, hscaled, hsmall, hlow, hhigh, fun h0 => absurd h0 hm, fun _ => ⟨0, by rw [hs]; simp [hd', hk']⟩,
        fun _ => ⟨hd, hc⟩⟩
    · refine ⟨hn, hscaled, ?_, by omega, by omega, fun h0 => absurd h0 hm,
        fun _ => ⟨k.toNat + 1, by rw [hs, hd'], by rw [hs]; omega⟩, fun _ => ⟨?_, ?_⟩⟩
      · rw [hd']
        exact small_of_positional hk hl
      · rw [hd']
        positivity
      · rwa [hd', hp, whole_value d hk]

theorem numberText_literal {x : Float} {negative : Bool} {m : ℕ} {e : ℤ}
    (h : Decimal.exact x = .finite negative m e) : ∃ n : Literal, numberText x = n.text ∧ n.Shows negative m e := by
  rw [numberText, h]
  exact finiteText_literal negative (Decimal.canonical_of_exact h)

theorem Literal.Shows.rounded_eq {n : Literal} {negative : Bool} {m : ℕ} {e : ℤ} (h : n.Shows negative m e)
    (hc : 0 < m → Canonical m e) : rounded (n.significand * 10 ^ n.power) = m * 2 ^ e := by
  rcases m.eq_zero_or_pos with rfl | hm
  · rw [(h.zero rfl).1, Nat.cast_zero, zero_mul, zero_mul, rounded_zero]
  · exact Decimal.rounded_of_contains hm (hc hm) (h.contains hm).2

/-- What is written for a number: a literal that is rounded to it and has its sign, or null if the number is infinite or
NaN. -/
inductive IsFigure (x : Float) : Value → Prop where
  | number {n : Literal} : x.isFinite → n.negative = Decimal.signBit x →
      rounded (n.significand * 10 ^ n.power) = |rational x| → IsFigure x (.number n)
  | null : ¬ x.isFinite → IsFigure x .null

theorem spells_numberText (x : Float) : ∃ v, Spells (.value v) (numberText x) ∧ IsFigure x v := by
  by_cases hx : x.isFinite
  · obtain ⟨negative, m, e, h⟩ := Decimal.exists_exact hx
    obtain ⟨n, hn, hshows⟩ := numberText_literal h
    refine ⟨.number n, hn ▸ .number n, .number hx ?_ ?_⟩
    · rw [hshows.negative_eq, Decimal.signBit_of_exact h]
    · rw [hshows.rounded_eq (Decimal.canonical_of_exact h), Decimal.abs_rational_of_exact h]
  · refine ⟨.null, ?_, .null hx⟩
    cases h : Decimal.exact x with
    | finite negative m e => exact absurd (isFinite_of_value? (Decimal.value?_of_exact h)).1 hx
    | notANumber => rw [numberText, h]; exact .null
    | infinite negative => rw [numberText, h]; exact .null

theorem spells_flagText (b : Bool) : Spells (.value (.flag b)) (flagText b) := by
  cases b with
  | false => exact .no
  | true => exact .yes

theorem hexNumber?_control : ∀ n < 32, Text.hexNumber? ('0' :: '0' :: hexPair n) = some n := by decide

theorem short_piece {letter c : Char} (h : shortEscape? letter = some c) : ∃ x : Piece, x.text = ['\\', letter] ∧
    ∀ s cs, Unescapes s cs → Unescapes (x :: s) (c :: cs) :=
  ⟨.short letter c h, rfl, fun _ _ => .short⟩

theorem control_piece {c : Char} (h : c.toNat < 32) : ∃ x : Piece,
    x.text = '\\' :: 'u' :: '0' :: '0' :: hexPair c.toNat ∧ ∀ s cs, Unescapes s cs → Unescapes (x :: s) (c :: cs) := by
  have hlow : isLowSurrogate c.toNat = false := by
    simp only [isLowSurrogate, Bool.and_eq_false_iff, decide_eq_false_iff_not]
    omega
  have hhigh : isHighSurrogate c.toNat = false := by
    simp only [isHighSurrogate, Bool.and_eq_false_iff, decide_eq_false_iff_not]
    omega
  have hunit : ∀ s cs, Unescapes s cs →
      Unescapes (.unit '0' '0' _ _ c.toNat (hexNumber?_control c.toNat h) :: s) (Char.ofNat c.toNat :: cs) :=
    fun s cs => .unit hlow hhigh
  rw [Char.ofNat_toNat] at hunit
  exact ⟨_, rfl, hunit⟩

theorem escaped_piece (c : Char) : ∃ x : Piece, x.text = escaped c ∧
    ∀ s cs, Unescapes s cs → Unescapes (x :: s) (c :: cs) := by
  unfold escaped
  split_ifs with hquote hslash hfeed hreturn htab hback hform hcontrol
  · exact short_piece (by rw [hquote]; rfl)
  · exact short_piece (by rw [hslash]; rfl)
  · exact short_piece (by rw [hfeed]; rfl)
  · exact short_piece (by rw [hreturn]; rfl)
  · exact short_piece (by rw [htab]; rfl)
  · exact short_piece (by rw [hback]; rfl)
  · exact short_piece (by rw [hform]; rfl)
  · exact control_piece hcontrol
  · exact ⟨.plain c ⟨hquote, hslash, not_lt.mp hcontrol⟩, rfl, fun _ _ => .plain⟩

theorem unescapes_escaped (cs : List Char) : ∃ s, s.flatMap Piece.text = cs.flatMap escaped ∧ Unescapes s cs := by
  induction cs with
  | nil => exact ⟨[], rfl, .nil⟩
  | cons c cs ih =>
    obtain ⟨x, hx, hc⟩ := escaped_piece c
    obtain ⟨s, hs, hcs⟩ := ih
    exact ⟨x :: s, by rw [List.flatMap_cons, List.flatMap_cons, hx, hs], hc s cs hcs⟩

theorem stringText_quoted (text : String) : ∃ s, stringText text = quoted s ∧ Unescapes s text.toList := by
  obtain ⟨s, hs, hu⟩ := unescapes_escaped text.toList
  exact ⟨s, by rw [stringText, quoted, unquoted, hs, List.cons_append], hu⟩

/-- The members of an object behind the first one, up to its brace: `feed` stands in front of each member and `close`
in front of the brace. -/
def laterMembers (feed gap close : List Char) : List (String × List Char) → List Char
  | [] => close ++ ['\x7d']
  | m :: ms => ',' :: (feed ++ (memberText (':' :: gap) m ++ laterMembers feed gap close ms))

def Spelled (members : List (String × List Char)) (fields : List (String × Value)) : Prop :=
  List.Forall₂ (fun m f => m.1 = f.1 ∧ Spells (.value f.2) m.2) members fields

section
variable {feed gap close : List Char} {members : List (String × List Char)} {fields : List (String × Value)}

theorem spells_member {first : Bool} {sep : List Char} (hsep : IsSeparator first sep) (hg : IsBlank gap)
    {m : String × List Char} {f : String × Value} (hname : m.1 = f.1) (hv : Spells (.value f.2) m.2)
    {ms : List (List Piece × Value)} {rest : List Char} (hrest : Spells (.members false ms) rest) :
    ∃ key, Unescapes key f.1.toList ∧
      Spells (.members first ((key, f.2) :: ms)) (sep ++ (memberText (':' :: gap) m ++ rest)) := by
  obtain ⟨key, hkey, hu⟩ := stringText_quoted m.1
  have hspells : Spells (.members first ((key, f.2) :: ms)) (sep ++ (quoted key ++ ([] ++ ':' :: (gap ++ (m.2 ++ rest))))) :=
    .member hsep isBlank_nil hg hv hrest
  refine ⟨key, hname ▸ hu, ?_⟩
  rw [memberText, hkey]
  simpa using hspells

theorem spells_laterMembers (hf : IsBlank feed) (hg : IsBlank gap) (hc : IsBlank close) (h : Spelled members fields) :
    ∃ ms, Named ms fields ∧ Spells (.members false ms) (laterMembers feed gap close members) := by
  induction h with
  | nil => exact ⟨[], .nil, .noMember hc⟩
  | @cons m f members fields hm _ ih =>
    obtain ⟨ms, hnamed, hrest⟩ := ih
    have hsep : IsSeparator false (',' :: feed) := ⟨[], feed, isBlank_nil, hf, rfl⟩
    obtain ⟨key, hkey, hspells⟩ := spells_member hsep hg hm.1 hm.2 hrest
    exact ⟨(key, f.2) :: ms, .cons ⟨hkey, rfl⟩ hnamed, hspells⟩

theorem spells_object {first : List Char} (h0 : IsBlank first) (hf : IsBlank feed) (hg : IsBlank gap)
    (hc : IsBlank close) {m : String × List Char} (h : Spelled (m :: members) fields) :
    ∃ ms, Named ms fields ∧ Spells (.value (.object ms))
      ('\x7b' :: (first ++ (memberText (':' :: gap) m ++ laterMembers feed gap close members))) := by
  cases h with
  | @cons _ f _ fields hm hrest =>
    obtain ⟨ms, hnamed, hlater⟩ := spells_laterMembers hf hg hc hrest
    have hsep : IsSeparator true first := h0
    obtain ⟨key, hkey, hspells⟩ := spells_member hsep hg hm.1 hm.2 hlater
    exact ⟨(key, f.2) :: ms, .cons ⟨hkey, rfl⟩ hnamed, .object hspells⟩

end

theorem intercalate_members (feed indent gap close : List Char) (m : String × List Char)
    (members : List (String × List Char)) :
    List.intercalate (',' :: feed) ((m :: members).map fun m => indent ++ memberText (':' :: gap) m) ++
        (close ++ ['\x7d']) =
      indent ++ (memberText (':' :: gap) m ++ laterMembers (feed ++ indent) gap close members) := by
  induction members generalizing m with
  | nil => simp [laterMembers]
  | cons m' members ih =>
    have hlater := ih m'
    rw [List.map_cons] at hlater
    rw [List.map_cons, List.map_cons, List.intercalate_cons_cons, List.append_assoc, List.append_assoc, hlater]
    simp [laterMembers]

theorem spells_compactObject {m : String × List Char} {members : List (String × List Char)}
    {fields : List (String × Value)} (h : Spelled (m :: members) fields) :
    ∃ ms, Named ms fields ∧ Spells (.value (.object ms)) (compactObject (m :: members)) := by
  obtain ⟨ms, hnamed, hspells⟩ := spells_object isBlank_nil isBlank_nil isBlank_nil isBlank_nil h
  have htext := intercalate_members [] [] [] [] m members
  exact ⟨ms, hnamed, (congrArg (Spells _ <| '\x7b' :: ·) htext).mpr hspells⟩

theorem spells_prettyObject {m : String × List Char} {members : List (String × List Char)}
    {fields : List (String × Value)} (h : Spelled (m :: members) fields) :
    ∃ ms, Named ms fields ∧ Spells (.value (.object ms)) (prettyObject (m :: members)) := by
  have hindent : IsBlank ['\n', ' ', ' '] := by simp [IsBlank, isBlank]
  have hgap : IsBlank [' '] := by simp [IsBlank, isBlank]
  have hclose : IsBlank ['\n'] := by simp [IsBlank, isBlank]
  obtain ⟨ms, hnamed, hspells⟩ := spells_object hindent hindent hgap hclose h
  have htext := intercalate_members ['\n'] [' ', ' '] [' '] ['\n'] m members
  exact ⟨ms, hnamed, (congrArg (Spells _ <| '\x7b' :: '\n' :: ·) htext).mpr hspells⟩

end PagingGate.Json
