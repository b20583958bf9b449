import PagingGate.Proofs.Toml.Keys

set_option autoImplicit false

namespace PagingGate.Toml

open Binary64
open Decimal (IsExponent IsFraction Numeral isMinus isNumeralChar natOfDigits numeralChars_of_readFloat? readFloat? signedInt
  splitSign withSign)
open Json (IsDigits IsMark IsSign not_sign_of_isDigit)

variable {sign ds t u whole w fraction f x run rest token : List Char} {e n : Int} {radix : Nat} {letter : Char}

section
variable {p : Char → Bool}

theorem Spaced.isDigits (h : Spaced p ds t) : ds ≠ [] ∧ ∀ c ∈ ds, p c = true := by
  induction h with
  | one hc => simpa using hc
  | next hc _ ih => exact ⟨List.cons_ne_nil _ _, List.forall_mem_cons.mpr ⟨hc, ih.2⟩⟩
  | separated hc _ ih => exact ⟨List.cons_ne_nil _ _, List.forall_mem_cons.mpr ⟨hc, ih.2⟩⟩

theorem Spaced.chars (h : Spaced p ds t) : ∀ c ∈ t, p c = true ∨ c = '_' := by
  induction h with
  | one hc => simpa using Or.inl hc
  | next hc _ ih => exact List.forall_mem_cons.mpr ⟨.inl hc, ih⟩
  | separated hc _ ih => exact List.forall_mem_cons.mpr ⟨.inl hc, List.forall_mem_cons.mpr ⟨.inr rfl, ih⟩⟩

theorem Spaced.exists_cons (h : Spaced p ds t) : ∃ c tail, t = c :: tail ∧ p c = true := by
  cases h with
  | one hc => exact ⟨_, _, rfl, hc⟩
  | next hc _ => exact ⟨_, _, rfl, hc⟩
  | separated hc _ => exact ⟨_, _, rfl, hc⟩

theorem Spaced.filter (hp : p '_' = false) (h : Spaced p ds t) : t.filter (· ≠ '_') = ds := by
  have hne : ∀ {c}, p c = true → c ≠ '_' := by
    rintro c hc rfl
    rw [hp] at hc
    cases hc
  induction h with
  | one hc => simp [hne hc]
  | next hc _ ih => simp only [List.filter_cons, ne_eq, hne hc, not_false_eq_true, decide_true, if_true, ih]
  | separated hc _ ih =>
    simp only [List.filter_cons, ne_eq, hne hc, not_false_eq_true, not_true_eq_false, decide_true, decide_false, if_true,
      Bool.false_eq_true, if_false, ih]

theorem digits?_eq_some_iff (hp : p '_' = false) : digits? p t = some ds ↔ Spaced p ds t := by
  constructor
  · intro h
    fun_induction digits? p t generalizing ds with
    | case1 => cases h
    | case2 c hc =>
      cases h
      exact .one hc
    | case3 => cases h
    | case4 c rest hc ih =>
      obtain ⟨ds, hds, rfl⟩ := Option.map_eq_some_iff.mp h
      exact .separated hc (ih hds)
    | case5 => cases h
    | case6 c rest _ _ hc ih =>
      obtain ⟨ds, hds, rfl⟩ := Option.map_eq_some_iff.mp h
      exact .next hc (ih hds)
    | case7 => cases h
  · intro h
    induction h with
    | one hc => rw [digits?, if_pos hc]
    | @next c ds t hc h ih =>
      obtain ⟨d, tail, rfl, hd⟩ := h.exists_cons
      rw [digits?, if_pos hc, ih]
      · rfl
      · exact List.cons_ne_nil _ _
      · rintro rest h
        rw [(List.cons.inj h).1, hp] at hd
        cases hd
    | separated hc _ ih =>
      rw [digits?, if_pos hc, ih]
      rfl

end

theorem valueOfDigits_ten (h : ∀ c ∈ ds, c.isDigit = true) : valueOfDigits 10 ds = natOfDigits ds := by
  have hfold : ∀ n, ds.foldl (fun n c => n * 10 + (Text.hexValue? c).getD 0) n = Nat.ofDigitChars 10 ds n := by
    induction ds with
    | nil => exact fun n => rfl
    | cons d ds ih =>
      intro n
      obtain ⟨hd, hds⟩ := List.forall_mem_cons.mp h
      have hvalue : (Text.hexValue? d).getD 0 = d.toNat - '0'.toNat := by
        rw [Text.hexValue?, if_pos hd, Option.getD_some]
      rw [List.foldl_cons, ih hds, hvalue, Nat.ofDigitChars_cons, Nat.mul_comm]
  exact hfold 0

theorem decimalDigits?_eq_some_iff : decimalDigits? t = some ds ↔ SpacedWhole ds t := by
  have hzero : (ds.length = 1 || ds.head? ≠ some '0') = true ↔ ds.length = 1 ∨ ds.head? ≠ some '0' := by simp
  rw [decimalDigits?, Option.filter_eq_some_iff, digits?_eq_some_iff rfl, hzero]
  exact ⟨fun h => ⟨h.1, h.2⟩, fun h => ⟨h.spaced, h.noZero⟩⟩

theorem splitSign_spaced (hs : IsSign sign) (h : Spaced Char.isDigit ds t) (u : List Char) :
    splitSign (sign ++ (t ++ u)) = (isMinus sign, t ++ u) := by
  refine Json.splitSign_append hs fun _ c hc => not_sign_of_isDigit ?_
  obtain ⟨d, tail, rfl, hd⟩ := h.exists_cons
  rwa [← Option.some.inj hc]

theorem decimalInteger?_spelled (hs : IsSign sign) (h : SpacedWhole ds t) :
    decimalInteger? (sign ++ t) = some (signedInt sign ds) := by
  have hsplit := splitSign_spaced hs h.spaced []
  rw [List.append_nil] at hsplit
  simp only [decimalInteger?, hsplit, decimalDigits?_eq_some_iff.mpr h, Option.map_some, signedInt,
    valueOfDigits_ten h.spaced.isDigits.2]

theorem splitSign_cases (cs : List Char) : ∃ sign, IsSign sign ∧ cs = sign ++ (splitSign cs).2 ∧
    (splitSign cs).1 = isMinus sign := by
  unfold splitSign
  split
  · exact ⟨['-'], .inr (.inr rfl), rfl, rfl⟩
  · exact ⟨['+'], .inr (.inl rfl), rfl, rfl⟩
  · exact ⟨[], .inl rfl, rfl, rfl⟩

theorem decimalInteger?_eq_some_iff : decimalInteger? token = some n ↔
    ∃ sign ds t, token = sign ++ t ∧ IsSign sign ∧ SpacedWhole ds t ∧ n = signedInt sign ds := by
  constructor
  · intro h
    obtain ⟨sign, hs, htoken, hminus⟩ := splitSign_cases token
    have hdef : decimalInteger? token = (decimalDigits? (splitSign token).2).map fun ds =>
        if (splitSign token).1 then -(valueOfDigits 10 ds : Int) else valueOfDigits 10 ds := rfl
    rw [hdef, hminus] at h
    obtain ⟨ds, hds, rfl⟩ := Option.map_eq_some_iff.mp h
    rw [decimalDigits?_eq_some_iff] at hds
    exact ⟨sign, ds, _, htoken, hs, hds, by rw [signedInt, valueOfDigits_ten hds.spaced.isDigits.2]⟩
  · rintro ⟨sign, ds, t, rfl, hs, h, rfl⟩
    exact decimalInteger?_spelled hs h

/-- A date or a time begins with digits, and a mark stands behind them. -/
theorem begins_of_isDateTime (h : isDateTime token = true) :
    ∃ ds m u, token = ds ++ m :: u ∧ IsDigits ds ∧ (m = '-' ∨ m = ':') := by
  have hdate : ∀ {cs}, date? token = some cs →
      ∃ ds m u, token = ds ++ m :: u ∧ IsDigits ds ∧ (m = '-' ∨ m = ':') := by
    intro cs h
    unfold date? at h
    split at h
    · rename_i a b c d _ _ _ _ _ _
      split at h
      · rename_i hdigits
        exact ⟨[a, b, c, d], '-', _, rfl, ⟨List.cons_ne_nil _ _, List.all_eq_true.mp hdigits⟩, .inl rfl⟩
      · cases h
    · cases h
  have htime : ∀ {cs}, time? token = some cs →
      ∃ ds m u, token = ds ++ m :: u ∧ IsDigits ds ∧ (m = '-' ∨ m = ':') := by
    intro cs h
    unfold time? at h
    split at h
    · rename_i a b _ _ _ _ _ _
      obtain ⟨hour, hhour, -⟩ := Option.bind_eq_some_iff.mp h
      unfold twoDigits? at hhour
      split at hhour
      · rename_i hdigits
        rw [Bool.and_eq_true] at hdigits
        exact ⟨[a, b], ':', _, rfl, ⟨List.cons_ne_nil _ _, by simpa using hdigits⟩, .inr rfl⟩
      · cases hhour
    · cases h
  unfold isDateTime at h
  split at h
  · exact hdate ‹_›
  · exact hdate ‹_›
  · exact htime (of_decide_eq_true h)

section
variable (hs : IsSign sign) (hrun : ∀ c ∈ run, isDigitOrSeparator c = true)
include hs hrun

theorem rest_of_digits (hrest : ∀ c ∈ rest.head?, isDigitOrSeparator c = false) (hd : IsDigits ds) {m : Char}
    (hm : isDigitOrSeparator m = false) (h : sign ++ (run ++ rest) = ds ++ m :: u) : rest = m :: u := by
  obtain ⟨hne, hdigits⟩ := hd
  have hseparators : ∀ c ∈ ds, isDigitOrSeparator c = true := fun c hc => by simp [isDigitOrSeparator, hdigits c hc]
  rcases hs with rfl | rfl | rfl
  · rw [List.nil_append] at h
    have hdrop := congrArg (List.dropWhile isDigitOrSeparator) h
    rwa [dropWhile_run hrun hrest, dropWhile_run hseparators (by simpa using hm)] at hdrop
  · obtain ⟨d, tail, rfl⟩ := List.exists_cons_of_ne_nil hne
    exact absurd (List.cons.inj h).1.symm (not_sign_of_isDigit (hdigits d List.mem_cons_self)).1
  · obtain ⟨d, tail, rfl⟩ := List.exists_cons_of_ne_nil hne
    exact absurd (List.cons.inj h).1.symm (not_sign_of_isDigit (hdigits d List.mem_cons_self)).2

theorem scalar?_of_run
    (hrest : ∀ c ∈ rest.head?, isDigitOrSeparator c = false ∧ c ≠ '-' ∧ c ≠ ':' ∧ c ≠ 't' ∧ c ≠ 'f') :
    scalar? (sign ++ (run ++ rest)) = ((integer? (sign ++ (run ++ rest))).map Value.integer).or
      ((float? (sign ++ (run ++ rest))).map Value.float) := by
  have hdate : isDateTime (sign ++ (run ++ rest)) = false := by
    rw [← Bool.not_eq_true]
    intro h
    obtain ⟨ds, m, u, heq, hd, hm⟩ := begins_of_isDateTime h
    have hmark : isDigitOrSeparator m = false := by rcases hm with rfl | rfl <;> rfl
    obtain rfl := rest_of_digits hs hrun (fun c hc => (hrest c hc).1) hd hmark heq
    obtain ⟨_, hdash, hcolon, _⟩ := hrest m rfl
    exact hm.elim hdash hcolon
  have hhead : ∀ c ∈ (sign ++ (run ++ rest)).head?, c ≠ 't' ∧ c ≠ 'f' := by
    rcases hs with rfl | rfl | rfl
    · cases run with
      | nil => exact fun c hc => (hrest c hc).2.2.2
      | cons d run =>
        intro c hc
        obtain rfl := Option.some.inj hc
        have hd := hrun d List.mem_cons_self
        refine ⟨?_, ?_⟩ <;> rintro rfl <;> cases hd
    · simp
    · simp
  have htrue : sign ++ (run ++ rest) ≠ "true".toList := fun h => (hhead 't' (by rw [h]; simp)).1 rfl
  have hfalse : sign ++ (run ++ rest) ≠ "false".toList := fun h => (hhead 'f' (by rw [h]; simp)).2 rfl
  rw [scalar?, if_neg htrue, if_neg hfalse, hdate]
  rfl

theorem integer?_of_run
    (hrest : ∀ c ∈ rest.head?, isDigitOrSeparator c = false ∧ c ≠ 'x' ∧ c ≠ 'o' ∧ c ≠ 'b') :
    integer? (sign ++ (run ++ rest)) = (decimalInteger? (sign ++ (run ++ rest))).filter inRange := by
  have hletters : ∀ m u, isDigitOrSeparator m = false → m = 'x' ∨ m = 'o' ∨ m = 'b' →
      sign ++ (run ++ rest) ≠ '0' :: m :: u := by
    intro m u hmark hm h
    have hzero : IsDigits ['0'] := ⟨List.cons_ne_nil _ _, by simp⟩
    obtain rfl := rest_of_digits hs hrun (fun c hc => (hrest c hc).1) hzero hmark h
    obtain ⟨_, hx, ho, hb⟩ := hrest m rfl
    exact hm.elim hx fun hm => hm.elim ho hb
  unfold integer?
  split
  · rename_i h
    exact absurd h (hletters _ _ (by decide) (.inl rfl))
  · rename_i h
    exact absurd h (hletters _ _ (by decide) (.inr (.inl rfl)))
  · rename_i h
    exact absurd h (hletters _ _ (by decide) (.inr (.inr rfl)))
  · rfl

end

theorem inRange_iff : inRange n = true ↔ -2 ^ 63 ≤ n ∧ n < 2 ^ 63 := by
  rw [inRange, Bool.and_eq_true, decide_eq_true_eq, decide_eq_true_eq]
  norm_num

theorem separators_of_spaced (h : Spaced Char.isDigit ds t) : ∀ c ∈ t, isDigitOrSeparator c = true := by
  intro c hc
  rw [isDigitOrSeparator, Bool.or_eq_true, decide_eq_true_eq]
  exact h.chars c hc

theorem scalar?_decimal (hs : IsSign sign) (h : SpacedWhole ds t) (hlow : -2 ^ 63 ≤ signedInt sign ds)
    (hhigh : signedInt sign ds < 2 ^ 63) : scalar? (sign ++ t) = some (.integer (signedInt sign ds)) := by
  have hrun := separators_of_spaced h.spaced
  have hscalar : scalar? (sign ++ (t ++ [])) = _ := scalar?_of_run hs hrun (by simp)
  have hinteger : integer? (sign ++ (t ++ [])) = _ := integer?_of_run hs hrun (by simp)
  rw [List.append_nil] at hscalar hinteger
  rw [hscalar, hinteger, decimalInteger?_spelled hs h, Option.filter_some_pos (inRange_iff.mpr ⟨hlow, hhigh⟩)]
  rfl

theorem integer?_prefixed (h : Prefix letter radix) (cs : List Char) :
    integer? ('0' :: letter :: cs) = (radixInteger? radix cs).filter inRange := by
  cases h <;> rfl

theorem scalar?_prefixed (h : Prefix letter radix) (ht : Spaced (isDigitOf radix) ds t)
    (hhigh : valueOfDigits radix ds < 2 ^ 63) : scalar? ('0' :: letter :: t) = some (.integer (valueOfDigits radix ds)) := by
  have hrest : ∀ c ∈ (letter :: t).head?,
      isDigitOrSeparator c = false ∧ c ≠ '-' ∧ c ≠ ':' ∧ c ≠ 't' ∧ c ≠ 'f' := by
    cases h <;> simp [isDigitOrSeparator]
  have hsign : IsSign [] := .inl rfl
  have hzero : ∀ c ∈ ['0'], isDigitOrSeparator c = true := by simp [isDigitOrSeparator]
  have hscalar := scalar?_of_run hsign hzero hrest
  have hseparator : isDigitOf radix '_' = false := by cases h <;> decide
  have hrange : inRange (valueOfDigits radix ds) = true := inRange_iff.mpr ⟨by omega, by omega⟩
  have hinteger : integer? ('0' :: letter :: t) = some (valueOfDigits radix ds : Int) := by
    rw [integer?_prefixed h, radixInteger?, (digits?_eq_some_iff hseparator).mpr ht, Option.map_some,
      Option.filter_some_pos hrange]
  exact hscalar.trans (by rw [List.nil_append, List.cons_append, List.nil_append, hinteger]; rfl)

theorem SpellsExponent.head (h : SpellsExponent e x) : ∀ c ∈ x.head?, IsMark c := by
  cases h with
  | none => simp
  | some hm _ _ => simpa using hm

theorem scale_head (hf : SpellsFraction fraction f) (hx : SpellsExponent e x) :
    ∀ c ∈ (f ++ x).head?, c = '.' ∨ IsMark c := by
  cases hf with
  | none => exact fun c hc => .inr (hx.head c hc)
  | some _ => simp

theorem isExponent_spelled (hx : SpellsExponent e x) (hne : x ≠ []) : isExponent x = true := by
  cases hx with
  | none => exact absurd rfl hne
  | @some m sign ds t hm hs ht =>
    have hsplit := splitSign_spaced hs ht []
    rw [List.append_nil] at hsplit
    have hmark : m = 'e' ∨ m = 'E' := hm
    simp [isExponent, hmark, hsplit, (digits?_eq_some_iff rfl).mpr ht]

theorem isFraction_spelled (ht : Spaced Char.isDigit ds t) (hx : SpellsExponent e x) : isFraction ('.' :: (t ++ x)) = true := by
  have hhead : ∀ c ∈ x.head?, isDigitOrSeparator c = false := by
    intro c hc
    rcases hx.head c hc with rfl | rfl <;> rfl
  have hend : x = [] ∨ isExponent x = true := or_iff_not_imp_left.mpr (isExponent_spelled hx)
  rw [isFraction]
  simp [takeWhile_run (separators_of_spaced ht) hhead, dropWhile_run (separators_of_spaced ht) hhead,
    (digits?_eq_some_iff rfl).mpr ht, hend]

theorem isFloat_spelled (hw : SpacedWhole whole w) (hf : SpellsFraction fraction f) (hx : SpellsExponent e x)
    (hne : f ++ x ≠ []) : isFloat (w ++ (f ++ x)) = true := by
  have hhead : ∀ c ∈ (f ++ x).head?, isDigitOrSeparator c = false := by
    intro c hc
    rcases scale_head hf hx c hc with rfl | rfl | rfl <;> rfl
  have hscale : isFraction (f ++ x) = true ∨ isExponent (f ++ x) = true := by
    cases hf with
    | none => exact .inr (isExponent_spelled hx hne)
    | some ht => exact .inl (isFraction_spelled ht hx)
  simp [isFloat, takeWhile_run (separators_of_spaced hw.spaced) hhead, dropWhile_run (separators_of_spaced hw.spaced) hhead,
    decimalDigits?_eq_some_iff.mpr hw, hscale]

theorem SpellsFraction.filter (h : SpellsFraction fraction f) : IsFraction fraction (f.filter (· ≠ '_')) := by
  cases h with
  | none => exact .absent
  | some ht =>
    rw [List.filter_cons_of_pos (by simp), ht.filter rfl]
    exact .present ht.isDigits

theorem filter_sign (hs : IsSign sign) : sign.filter (· ≠ '_') = sign := by
  rcases hs with rfl | rfl | rfl <;> rfl

theorem SpellsExponent.filter (h : SpellsExponent e x) : IsExponent e (x.filter (· ≠ '_')) := by
  cases h with
  | none => exact .absent
  | some hm hs ht =>
    rw [List.filter_cons_of_pos (by rcases hm with rfl | rfl <;> simp), List.filter_append, filter_sign hs, ht.filter rfl]
    exact .present hm hs ht.isDigits

/-- A float is read as its numeral, and is refused only if that is too large. -/
theorem float?_spelled (hs : IsSign sign) (hw : SpacedWhole whole w) (hf : SpellsFraction fraction f)
    (hx : SpellsExponent e x) (hne : f ++ x ≠ []) : float? (sign ++ (w ++ (f ++ x))) =
      (some (Numeral.toFloat ⟨isMinus sign, natOfDigits (whole ++ fraction), e - fraction.length⟩)).filter
        fun y => !(y == 1 / 0) := by
  have hword : ∀ {c cs}, c.isDigit = false → w ++ (f ++ x) ≠ c :: cs := by
    intro c cs hc h
    obtain ⟨d, tail, rfl, hd⟩ := hw.spaced.exists_cons
    rw [(List.cons.inj h).1, hc] at hd
    cases hd
  have hinf : w ++ (f ++ x) ≠ "inf".toList := hword (by decide)
  have hnan : w ++ (f ++ x) ≠ "nan".toList := hword (by decide)
  have hfilter : (sign ++ (w ++ (f ++ x))).filter (· ≠ '_') =
      sign ++ (whole ++ (f.filter (· ≠ '_') ++ x.filter (· ≠ '_'))) := by
    rw [List.filter_append, List.filter_append, List.filter_append, filter_sign hs, hw.spaced.filter rfl]
  have hread := Decimal.readFloat?_spelled hs hw.spaced.isDigits hf.filter hx.filter
  simp only [float?, splitSign_spaced hs hw.spaced, if_neg hinf, if_neg hnan, if_pos (isFloat_spelled hw hf hx hne), hfilter,
    hread]

theorem scalar?_float {y : Float} (hs : IsSign sign) (hw : SpacedWhole whole w) (hf : SpellsFraction fraction f)
    (hx : SpellsExponent e x) (hne : f ++ x ≠ []) (hy : float? (sign ++ (w ++ (f ++ x))) = some y) :
    scalar? (sign ++ (w ++ (f ++ x))) = some (.float y) := by
  have hrun := separators_of_spaced hw.spaced
  have hhead := scale_head hf hx
  have hscalar : scalar? (sign ++ (w ++ (f ++ x))) = _ :=
    scalar?_of_run hs hrun fun c hc => by rcases hhead c hc with rfl | rfl | rfl <;> decide
  have hinteger : integer? (sign ++ (w ++ (f ++ x))) = _ :=
    integer?_of_run hs hrun fun c hc => by rcases hhead c hc with rfl | rfl | rfl <;> decide
  -- what stands behind the whole part belongs to no integer
  have hwhole : decimalDigits? (w ++ (f ++ x)) = none := by
    rw [Option.eq_none_iff_forall_ne_some]
    intro ds hds
    obtain ⟨c, tail, hscale⟩ := List.exists_cons_of_ne_nil hne
    rw [hscale] at hhead hds
    have hc := (decimalDigits?_eq_some_iff.mp hds).spaced.chars c (by simp)
    rcases hhead c rfl with rfl | rfl | rfl <;> simp at hc
  have hnone : decimalInteger? (sign ++ (w ++ (f ++ x))) = none := by
    simp only [decimalInteger?, splitSign_spaced hs hw.spaced, hwhole, Option.map_none]
  rw [hscalar, hinteger, hnone, hy]
  rfl

theorem scalar?_infinity (hs : IsSign sign) :
    scalar? (sign ++ "inf".toList) = some (.float (withSign (isMinus sign) (1 / 0))) := by
  rcases hs with rfl | rfl | rfl <;> rfl

theorem scalar?_nan (hs : IsSign sign) : scalar? (sign ++ "nan".toList) = some (.float (withSign (isMinus sign) (0 / 0))) := by
  rcases hs with rfl | rfl | rfl <;> rfl

/-- Whole numbers stand for the nearest binary64 number, and floats for themselves. -/
inductive Value.StandsFor : Value → Option Extended → Prop where
  | integer (n : Int) : StandsFor (.integer n) (some (nearest n))
  | float (y : Float) : StandsFor (.float y) (value? y)

@[simp] theorem value?_withSign_infinity (negative : Bool) :
    value? (withSign negative (1 / 0)) = some (infinite (Decimal.sign negative)) := by
  cases negative <;> rfl

@[simp] theorem value?_withSign_nan (negative : Bool) : value? (withSign negative (0 / 0)) = none := by
  cases negative <;> rfl

theorem scalar?_of_denotes {meaning : Option Extended} (h : Denotes token meaning) :
    ∃ v, scalar? token = some v ∧ v.StandsFor meaning := by
  cases h with
  | decimal hs ht hlow hhigh => exact ⟨_, scalar?_decimal hs ht hlow hhigh, .integer _⟩
  | @prefixed letter radix ds t hletter ht hhigh =>
    refine ⟨_, scalar?_prefixed hletter ht hhigh, ?_⟩
    rw [← Int.cast_natCast]
    exact .integer _
  | @float sign whole w fraction f e x hs hw hf hx hne htop =>
    have hvalue := Numeral.value?_toFloat ⟨isMinus sign, natOfDigits (whole ++ fraction), e - fraction.length⟩
    rw [← hvalue]
    refine ⟨_, scalar?_float hs hw hf hx hne ?_, .float _⟩
    rw [float?_spelled hs hw hf hx hne]
    refine Option.filter_some_pos ?_
    rw [Bool.not_eq_true', ← Bool.not_eq_true, beq_iff hvalue value?_infinity]
    exact htop
  | infinity hs =>
    rw [← value?_withSign_infinity]
    exact ⟨_, scalar?_infinity hs, .float _⟩
  | @nan sign hs =>
    rw [← value?_withSign_nan (isMinus sign)]
    exact ⟨_, scalar?_nan hs, .float _⟩

theorem isScalarChar_of_isDigit {c : Char} (h : c.isDigit = true) : isScalarChar c = true := by
  simp [isScalarChar, Char.isAlphanum, h]

theorem isScalarChar_of_isDigitOf {c : Char} (h : isDigitOf radix c = true) : isScalarChar c = true := by
  have hletter : ∀ low high : Char, low ≤ c ∧ c ≤ high → 'a' ≤ low ∧ high ≤ 'z' ∨ 'A' ≤ low ∧ high ≤ 'Z' →
      isScalarChar c = true := by
    rintro low high ⟨hlow, hhigh⟩ hbounds
    have halpha : c.isAlpha = true := by
      rw [Char.isAlpha, Bool.or_eq_true]
      rcases hbounds with ⟨ha, hz⟩ | ⟨ha, hz⟩
      · exact .inr (by simpa [Char.isLower] using ⟨ha.trans hlow, hhigh.trans hz⟩)
      · exact .inl (by simpa [Char.isUpper] using ⟨ha.trans hlow, hhigh.trans hz⟩)
    simp [isScalarChar, Char.isAlphanum, halpha]
  rw [isDigitOf, Text.hexValue?] at h
  split_ifs at h with hdigit hlower hupper
  · exact isScalarChar_of_isDigit hdigit
  · exact hletter 'a' 'f' hlower (by decide)
  · exact hletter 'A' 'F' hupper (by decide)
  · cases h

theorem scalarChars_sign (hs : IsSign sign) : ∀ c ∈ sign, isScalarChar c = true := by
  rcases hs with rfl | rfl | rfl <;> simp [isScalarChar]

theorem scalarChars_spaced {p : Char → Bool} (hp : ∀ c, p c = true → isScalarChar c = true) (h : Spaced p ds t) :
    ∀ c ∈ t, isScalarChar c = true := by
  intro c hc
  rcases h.chars c hc with hd | rfl
  · exact hp c hd
  · rfl

theorem isToken_of_denotes {meaning : Option Extended} (h : Denotes token meaning) : IsToken token := by
  have hdigits : ∀ {ds t}, Spaced Char.isDigit ds t → ∀ c ∈ t, isScalarChar c = true := fun h =>
    scalarChars_spaced (fun _ => isScalarChar_of_isDigit) h
  have hspaced : ∀ {p ds t}, Spaced p ds t → t ≠ [] := by
    rintro p ds _ h rfl
    cases h
  cases h with
  | decimal hs ht _ _ =>
    exact ⟨by simp [hspaced ht.spaced], List.forall_mem_append.mpr ⟨scalarChars_sign hs, hdigits ht.spaced⟩⟩
  | prefixed hletter ht _ =>
    refine ⟨List.cons_ne_nil _ _, List.forall_mem_cons.mpr ⟨rfl, List.forall_mem_cons.mpr ⟨?_, ?_⟩⟩⟩
    · cases hletter <;> rfl
    · exact scalarChars_spaced (fun _ => isScalarChar_of_isDigitOf) ht
  | @float sign whole w fraction f e x hs hw hf hx _ _ =>
    have hfraction : ∀ c ∈ f, isScalarChar c = true := by
      cases hf with
      | none => simp
      | some ht => exact List.forall_mem_cons.mpr ⟨rfl, hdigits ht⟩
    have hexponent : ∀ c ∈ x, isScalarChar c = true := by
      cases hx with
      | none => simp
      | some hm hs ht =>
        refine List.forall_mem_cons.mpr ⟨?_, List.forall_mem_append.mpr ⟨scalarChars_sign hs, hdigits ht⟩⟩
        rcases hm with rfl | rfl <;> rfl
    refine ⟨by simp [hspaced hw.spaced], List.forall_mem_append.mpr ⟨scalarChars_sign hs, ?_⟩⟩
    exact List.forall_mem_append.mpr ⟨hdigits hw.spaced, List.forall_mem_append.mpr ⟨hfraction, hexponent⟩⟩
  | infinity hs =>
    exact ⟨by simp, List.forall_mem_append.mpr ⟨scalarChars_sign hs, by simp [isScalarChar, Char.isAlphanum]⟩⟩
  | nan hs => exact ⟨by simp, List.forall_mem_append.mpr ⟨scalarChars_sign hs, by simp [isScalarChar, Char.isAlphanum]⟩⟩

theorem readFloat?_prefixed (h : Prefix letter radix) (cs : List Char) : readFloat? ('0' :: letter :: cs) = none := by
  have hword : Decimal.readWord? false ('0' :: letter :: cs) = none := Decimal.readWord?_digit rfl _ _
  have hsplit : splitSign ('0' :: letter :: cs) = (false, '0' :: letter :: cs) := rfl
  have hnumeral : Decimal.readUnsigned? false ('0' :: letter :: cs) = none := by
    cases h <;> simp [Decimal.readUnsigned?, Decimal.splitDigits, Decimal.readExponent?]
  rw [readFloat?, hsplit]
  dsimp only
  rw [hword, hnumeral]
  rfl

theorem rational_signedInt (sign ds : List Char) :
    Numeral.rational ⟨isMinus sign, natOfDigits ds, 0⟩ = signedInt sign ds := by
  rw [Numeral.rational, signedInt, zpow_zero, mul_one]
  cases isMinus sign <;> simp [Decimal.sign, signed]

theorem value?_of_integer? {y : Float} (h : integer? token = some n) (hread : readFloat? token = some y) :
    value? y = some (nearest n) := by
  have hplain : '_' ∉ token := fun hc => absurd ((numeralChars_of_readFloat? hread).2 '_' hc) (by decide)
  have hdecimal : decimalInteger? token = some n := by
    unfold integer? at h
    split at h
    · rw [readFloat?_prefixed .hexadecimal] at hread
      cases hread
    · rw [readFloat?_prefixed .octal] at hread
      cases hread
    · rw [readFloat?_prefixed .binary] at hread
      cases hread
    · exact (Option.filter_eq_some_iff.mp h).1
  obtain ⟨sign, ds, t, rfl, hs, ht, rfl⟩ := decimalInteger?_eq_some_iff.mp hdecimal
  -- without separators, the text is the digits themselves
  have hds : t = ds := by
    rw [← ht.spaced.filter rfl, List.filter_eq_self.mpr]
    rintro c hc
    refine decide_eq_true ?_
    rintro rfl
    exact hplain (List.mem_append_right sign hc)
  subst hds
  have hspelled := Decimal.readFloat?_spelled hs ht.spaced.isDigits .absent .absent
  rw [List.append_nil, List.append_nil, hread] at hspelled
  rw [Option.some.inj hspelled, Numeral.value?_toFloat, ← rational_signedInt]
  rfl

theorem value?_of_float? {x y : Float} (h : float? token = some x) (hread : readFloat? token = some y) :
    value? y = value? x := by
  have hplain : token.filter (· ≠ '_') = token := by
    refine List.filter_eq_self.mpr fun c hc => decide_eq_true ?_
    rintro rfl
    exact absurd ((numeralChars_of_readFloat? hread).2 '_' hc) (by decide)
  have hword : ∀ {z}, Decimal.readWord? (splitSign token).1 (splitSign token).2 = some z → y = z := by
    intro z hz
    have hor := congrArg (Option.or · ((Decimal.readUnsigned? (splitSign token).1 (splitSign token).2).map Numeral.toFloat)) hz
    exact Option.some.inj (hread.symm.trans hor)
  have hdef : float? token = if (splitSign token).2 = "inf".toList then some (withSign (splitSign token).1 (1 / 0))
      else if (splitSign token).2 = "nan".toList then some (withSign (splitSign token).1 (0 / 0))
      else if isFloat (splitSign token).2 then (readFloat? (token.filter (· ≠ '_'))).filter fun x => !(x == 1 / 0)
      else none := rfl
  rw [hdef] at h
  split at h
  · rename_i hinf
    rw [hinf] at hword
    rw [hword rfl, Option.some.inj h]
  · split at h
    · rename_i hnan
      rw [hnan] at hword
      rw [hword rfl, ← Option.some.inj h, value?_withSign_nan]
      rfl
    · split at h
      · rw [hplain, hread] at h
        rw [(Option.some.inj (Option.filter_eq_some_iff.mp h).1)]
      · cases h

end PagingGate.Toml
