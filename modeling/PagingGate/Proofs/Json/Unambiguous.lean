import PagingGate.Proofs.Json.Fields
import PagingGate.Proofs.Json.Scan

set_option autoImplicit false

/-!
# A text spells one value

A scan passes over whatever value stands in front, so in a text that begins with two values both end where it stops. From
the outside in, they have the same parts.
-/

namespace PagingGate.Json

variable {v v' : Value} {t t' rest rest' ws ws' : List Char}

theorem Piece.head_ne_quote (x : Piece) (cs : List Char) : (x.text ++ cs).head? ≠ some '"' := by
  cases x with
  | plain c ok => simpa [Piece.text] using ok.1
  | short letter c ok => simp [Piece.text]
  | unit a b c d code ok => simp [Piece.text]

theorem Piece.text_append_inj {x y : Piece} {cs ds : List Char} (h : x.text ++ cs = y.text ++ ds) : x = y ∧ cs = ds := by
  cases x with
  | plain c ok =>
    cases y with
    | plain d ok' =>
      cases h
      exact ⟨rfl, rfl⟩
    | short letter d ok' => exact absurd (List.cons.inj h).1 ok.2.1
    | unit a' b' c' d' code' ok' => exact absurd (List.cons.inj h).1 ok.2.1
  | short letter c ok =>
    cases y with
    | plain d ok' => exact absurd (List.cons.inj h).1.symm ok'.2.1
    | short letter' d ok' =>
      cases h
      obtain rfl : c = d := Option.some.inj (ok.symm.trans ok')
      exact ⟨rfl, rfl⟩
    | unit a' b' c' d' code' ok' =>
      cases h
      exact absurd rfl (ne_u_of_shortEscape? ok)
  | unit a b c d code ok =>
    cases y with
    | plain d ok' => exact absurd (List.cons.inj h).1.symm ok'.2.1
    | short letter' d ok' =>
      cases h
      exact absurd rfl (ne_u_of_shortEscape? ok')
    | unit a' b' c' d' code' ok' =>
      cases h
      obtain rfl : code = code' := Option.some.inj (ok.symm.trans ok')
      exact ⟨rfl, rfl⟩

theorem unquoted_injective : Function.Injective unquoted := by
  have hend : ∀ (x : Piece) (s : List Piece), unquoted [] ≠ unquoted (x :: s) := by
    intro x s h
    rw [unquoted_nil, unquoted_cons] at h
    exact x.head_ne_quote (unquoted s) (congrArg List.head? h).symm
  intro s s' h
  induction s generalizing s' with
  | nil =>
    cases s' with
    | nil => rfl
    | cons y s' => exact absurd h (hend y s')
  | cons x s ih =>
    cases s' with
    | nil => exact absurd h.symm (hend x s)
    | cons y s' =>
      rw [unquoted_cons, unquoted_cons] at h
      obtain ⟨rfl, hs⟩ := Piece.text_append_inj h
      rw [ih hs]

theorem IsSign.not_isDigit {sign : List Char} (h : IsSign sign) : ∀ c ∈ sign, c.isDigit = false := by
  intro c hc
  rw [← Bool.not_eq_true]
  intro hd
  obtain ⟨hp, hm⟩ := not_sign_of_isDigit hd
  rcases h with rfl | rfl | rfl
  · cases hc
  · exact hp (List.mem_singleton.mp hc)
  · exact hm (List.mem_singleton.mp hc)

theorem Exponent.takeWhile_sign (x : Exponent) : (x.sign ++ x.digits).takeWhile (!·.isDigit) = x.sign := by
  obtain ⟨d, ds, hd⟩ := List.exists_cons_of_ne_nil x.isDigits.1
  have hdigit : d.isDigit = true := x.isDigits.2 d (by simp [hd])
  rw [List.takeWhile_append_of_pos fun c hc => by simp [x.isSign.not_isDigit c hc], hd,
    List.takeWhile_cons_of_neg (by simp [hdigit]), List.append_nil]

theorem Exponent.text_injective : Function.Injective Exponent.text := by
  intro x y h
  obtain ⟨hmark, hrest⟩ : x.mark = y.mark ∧ x.sign ++ x.digits = y.sign ++ y.digits := List.cons.inj h
  have hsign : x.sign = y.sign := by rw [← x.takeWhile_sign, ← y.takeWhile_sign, hrest]
  have hdigits : x.digits = y.digits := List.append_cancel_left (hsign ▸ hrest)
  cases x
  cases y
  cases hmark
  cases hsign
  cases hdigits
  rfl

namespace Literal

theorem exponent_eq {n m : Literal} (h : n.exponentText = m.exponentText) : n.exponent = m.exponent := by
  cases hn : n.exponent with
  | none =>
    rw [exponentText_of_none hn] at h
    cases hm : m.exponent with
    | none => rfl
    | some y =>
      rw [exponentText_of_some hm] at h
      cases h
  | some x =>
    rw [exponentText_of_some hn] at h
    cases hm : m.exponent with
    | none =>
      rw [exponentText_of_none hm] at h
      cases h
    | some y =>
      rw [exponentText_of_some hm] at h
      rw [Exponent.text_injective h]

theorem noDigit_behind (n : Literal) : NoDigit n.exponentText := by
  have h : NoDigit (n.exponentText ++ []) := noDigit_exponentText n rfl
  rwa [List.append_nil] at h

theorem behind_whole (n : Literal) : n.fraction = [] ∧ n.fractionText ++ n.exponentText = n.exponentText ∨
    n.fraction ≠ [] ∧ n.fractionText ++ n.exponentText = '.' :: (n.fraction ++ n.exponentText) := by
  rw [fractionText]
  split
  · exact .inl ⟨‹_›, rfl⟩
  · exact .inr ⟨‹_›, rfl⟩

theorem noDigit_behind_whole (n : Literal) : NoDigit (n.fractionText ++ n.exponentText) := by
  rcases n.behind_whole with ⟨_, h⟩ | ⟨_, h⟩
  · rw [h]
    exact n.noDigit_behind
  · rw [h]
    rfl

theorem point_iff (n : Literal) : (n.fractionText ++ n.exponentText).head? = some '.' ↔ n.fraction ≠ [] := by
  rcases n.behind_whole with ⟨hf, h⟩ | ⟨hf, h⟩
  · have hhead := head_ne_point n (n.ends_of_stops stops_nil) hf
    rw [List.append_nil] at hhead
    rw [h]
    exact iff_of_false hhead (by simp [hf])
  · rw [h]
    exact iff_of_true rfl hf

theorem fraction_eq {n m : Literal} (h : n.fractionText ++ n.exponentText = m.fractionText ++ m.exponentText) :
    n.fraction = m.fraction ∧ n.exponentText = m.exponentText := by
  -- an exponent has no point, so a point tells that there is a fraction
  have hpoint : n.fraction ≠ [] ↔ m.fraction ≠ [] := by rw [← n.point_iff, ← m.point_iff, h]
  rcases n.behind_whole with ⟨hn, hntext⟩ | ⟨hn, hntext⟩ <;> rcases m.behind_whole with ⟨hm, hmtext⟩ | ⟨hm, hmtext⟩
  · exact ⟨hn.trans hm.symm, by rw [← hntext, ← hmtext, h]⟩
  · exact absurd hn (hpoint.mpr hm)
  · exact absurd hm (hpoint.mp hn)
  · rw [hntext, hmtext] at h
    have hdigits : n.fraction ++ n.exponentText = m.fraction ++ m.exponentText := (List.cons.inj h).2
    have hfraction : n.fraction = m.fraction := by
      rw [← takeWhile_digits n.isFraction n.noDigit_behind, ← takeWhile_digits m.isFraction m.noDigit_behind, hdigits]
    exact ⟨hfraction, List.append_cancel_left (hfraction ▸ hdigits)⟩

theorem unsigned_eq {n m : Literal} (h : n.unsigned = m.unsigned) :
    n.whole = m.whole ∧ n.fraction = m.fraction ∧ n.exponent = m.exponent := by
  have hwhole : n.whole = m.whole := by
    rw [← takeWhile_digits n.isWhole.1.2 n.noDigit_behind_whole, ← takeWhile_digits m.isWhole.1.2 m.noDigit_behind_whole]
    exact congrArg _ h
  rw [unsigned, unsigned, hwhole] at h
  obtain ⟨hfraction, hexponent⟩ := fraction_eq (List.append_cancel_left h)
  exact ⟨hwhole, hfraction, exponent_eq hexponent⟩

theorem minus_iff (n : Literal) : n.text.head? = some '-' ↔ n.negative = true := by
  cases hn : n.negative with
  | true =>
    rw [text_of_negative hn]
    simp
  | false =>
    obtain ⟨c, tail, hc, hd⟩ := n.unsigned_head
    rw [text_of_not_negative hn, hc]
    simpa using (not_sign_of_isDigit hd).2

theorem text_injective : Function.Injective text := by
  intro n m h
  have hnegative : n.negative = m.negative := by
    rw [Bool.eq_iff_iff, ← n.minus_iff, ← m.minus_iff, h]
  have hsign : n.sign = m.sign := by rw [sign, sign, hnegative]
  rw [text, text, hsign] at h
  obtain ⟨hwhole, hfraction, hexponent⟩ := unsigned_eq (List.append_cancel_left h)
  cases n
  cases m
  cases hnegative
  cases hwhole
  cases hfraction
  cases hexponent
  rfl

end Literal

theorem Spells.text_eq (h : Spells (.value v) t) (h' : Spells (.value v') t') (hr : Stops rest) (hr' : Stops rest')
    (heq : t ++ rest = t' ++ rest') : t = t' ∧ rest = rest' := by
  have hskip : skipValue (t ++ rest) = .ok rest := skipValue_spelled h isBlank_nil hr
  have hskip' : skipValue (t' ++ rest') = .ok rest' := skipValue_spelled h' isBlank_nil hr'
  rw [heq, hskip'] at hskip
  obtain rfl : rest' = rest := Except.ok.inj hskip
  exact ⟨List.append_cancel_right heq, rfl⟩

theorem unquoted_eq {s s' : List Piece} (h : unquoted s ++ rest = unquoted s' ++ rest') : s = s' ∧ rest = rest' := by
  have hskip := skipString_unquoted s rest
  rw [h, skipString_unquoted] at hskip
  obtain rfl : rest' = rest := Except.ok.inj hskip
  exact ⟨unquoted_injective (List.append_cancel_right h), rfl⟩

theorem StartsValue.eq_of_blank {cs cs' : List Char} (h : StartsValue cs) (h' : StartsValue cs') (hw : IsBlank ws)
    (hw' : IsBlank ws') (heq : ws ++ cs = ws' ++ cs') : cs = cs' := by
  obtain ⟨c, tail, rfl, hc, _⟩ := h
  obtain ⟨c', tail', rfl, hc', _⟩ := h'
  rw [← skipBlank_mark hw hc, heq, skipBlank_mark hw' hc']

section
variable {first : Bool} {vs : List Value} {key : List Piece} {ms : List (List Piece × Value)}

theorem Spells.items_nil (h : Spells (.items first []) t) : nextItem first t = .ok (.done []) := by
  cases h with
  | noItem hw => exact nextItem_bracket first hw

theorem Spells.items_cons (h : Spells (.items first (v :: vs)) t) : ∃ front behind,
    nextItem first t = .ok (.item (front ++ behind)) ∧ Spells (.value v) front ∧ Spells (.items false vs) behind := by
  cases h with
  | item hsep hv hvs => exact ⟨_, _, nextItem_separator hsep (hv.startsValue.append _), hv, hvs⟩

theorem Spells.members_nil (h : Spells (.members first []) t) : nextKey first t = .ok (.done []) := by
  cases h with
  | noMember hw => exact nextKey_brace first hw

theorem Spells.members_cons (h : Spells (.members first ((key, v) :: ms)) t) : ∃ before ws front behind,
    nextKey first t = .ok (.item (unquoted key ++ before)) ∧ expectColon before = .ok (ws ++ (front ++ behind)) ∧
    IsBlank ws ∧ Spells (.value v) front ∧ Spells (.members false ms) behind := by
  cases h with
  | member hsep ha hb hv hms => exact ⟨_, _, _, _, nextKey_separator hsep, expectColon_colon ha, hb, hv, hms⟩

theorem Spells.stops_behind_item (h : Spells (.items false vs) t) : Stops t := by
  have hstops := h.stops_items []
  rwa [List.append_nil] at hstops

theorem Spells.stops_behind_member (h : Spells (.members false ms) t) : Stops t := by
  have hstops := h.stops_members []
  rwa [List.append_nil] at hstops

end

theorem Spells.alike (h : Spells (.value v) t) (h' : Spells (.value v') t) : v.Alike v' :=
  Value.alike_of_lead (Option.some.inj (h.leadOf.symm.trans h'.leadOf))

theorem Spells.number_text {n : Literal} (h : Spells (.value (.number n)) t) : t = n.text := by
  cases h
  rfl

theorem Spells.string_text {s : List Piece} (h : Spells (.value (.string s)) t) : t = quoted s := by
  cases h
  rfl

theorem Spells.list_text {vs : List Value} (h : Spells (.value (.list vs)) ('[' :: t)) : Spells (.items true vs) t := by
  cases h
  assumption

theorem Spells.object_text {ms : List (List Piece × Value)} (h : Spells (.value (.object ms)) ('\x7b' :: t)) :
    Spells (.members true ms) t := by
  cases h
  assumption

/-- A text spells no other value, or no other items or members. -/
def SpellsOnly : Part → List Char → Prop
  | .value v, t => ∀ v', Spells (.value v') t → v' = v
  | .items first vs, t => ∀ vs', Spells (.items first vs') t → vs' = vs
  | .members first ms, t => ∀ ms', Spells (.members first ms') t → ms' = ms

theorem Spells.only {part : Part} (h : Spells part t) : SpellsOnly part t := by
  induction h with
  | null =>
    intro v' h'
    cases Spells.null.alike h'
    rfl
  | yes =>
    intro v' h'
    cases Spells.yes.alike h'
    rfl
  | no =>
    intro v' h'
    cases Spells.no.alike h'
    rfl
  | number n =>
    intro v' h'
    cases (Spells.number n).alike h' with
    | number _ n' => rw [Literal.text_injective h'.number_text]
  | string s =>
    intro v' h'
    cases (Spells.string s).alike h' with
    | string _ s' => rw [unquoted_injective (List.cons.inj h'.string_text).2]
  | list hvs ih =>
    intro v' h'
    cases (Spells.list hvs).alike h' with
    | list _ vs' => rw [ih vs' h'.list_text]
  | object hms ih =>
    intro v' h'
    cases (Spells.object hms).alike h' with
    | object _ ms' => rw [ih ms' h'.object_text]
  | @noItem first ws hw =>
    intro vs' h'
    cases vs' with
    | nil => rfl
    | cons v' vs' =>
      obtain ⟨_, _, hnext, _⟩ := h'.items_cons
      rw [nextItem_bracket first hw] at hnext
      cases hnext
  | @item first sep v t vs u hsep hv hvs ihv ihvs =>
    have hnext := nextItem_separator hsep (hv.startsValue.append u)
    intro vs' h'
    cases vs' with
    | nil =>
      rw [h'.items_nil] at hnext
      cases hnext
    | cons v' vs' =>
      obtain ⟨t', u', hnext', hv', hvs'⟩ := h'.items_cons
      rw [hnext', Except.ok.injEq, Next.item.injEq] at hnext
      -- the scan says where the value ends, so both induction hypotheses are about the right texts
      obtain ⟨rfl, rfl⟩ := hv.text_eq hv' hvs.stops_behind_item hvs'.stops_behind_item hnext.symm
      rw [ihv v' hv', ihvs vs' hvs']
  | @noMember first ws hw =>
    intro ms' h'
    cases ms' with
    | nil => rfl
    | cons m' ms' =>
      obtain ⟨_, _, _, _, hnext, _⟩ := h'.members_cons
      rw [nextKey_brace first hw] at hnext
      cases hnext
  | @member first sep key a b v t ms u hsep ha hb hv hms ihv ihms =>
    have hnext : nextKey first (sep ++ '"' :: (unquoted key ++ (a ++ ':' :: (b ++ (t ++ u))))) =
        .ok (.item (unquoted key ++ (a ++ ':' :: (b ++ (t ++ u))))) := nextKey_separator hsep
    intro ms' h'
    cases ms' with
    | nil =>
      have hnext' := h'.members_nil
      rw [quoted_append, hnext] at hnext'
      cases hnext'
    | cons m' ms' =>
      obtain ⟨key', v'⟩ := m'
      obtain ⟨before, b', t', u', hnext', hcolon, hb', hv', hms'⟩ := h'.members_cons
      rw [quoted_append, hnext, Except.ok.injEq, Next.item.injEq] at hnext'
      obtain ⟨rfl, rfl⟩ := unquoted_eq hnext'
      rw [expectColon_colon ha, Except.ok.injEq] at hcolon
      have hvalue := StartsValue.eq_of_blank (hv.startsValue.append u) (hv'.startsValue.append u') hb hb' hcolon
      obtain ⟨rfl, rfl⟩ := hv.text_eq hv' hms.stops_behind_member hms'.stops_behind_member hvalue
      rw [ihv v' hv', ihms ms' hms']

theorem IsDocument.unique {text : List Char} (h : IsDocument v text) (h' : IsDocument v' text) : v' = v := by
  obtain ⟨before, t, after, hb, ht, ha, rfl⟩ := h
  obtain ⟨before', t', after', hb', ht', ha', heq⟩ := h'
  have hvalue := StartsValue.eq_of_blank (ht.startsValue.append after) (ht'.startsValue.append after') hb hb' heq
  obtain ⟨rfl, rfl⟩ := ht.text_eq ht' (stops_of_isBlank ha) (stops_of_isBlank ha') hvalue
  exact ht.only v' ht'

/-- A text that is a document of one value is a document of no other. -/
theorem IsDocument.iff_eq {text : List Char} (h : IsDocument v text) : IsDocument v' text ↔ v' = v :=
  ⟨h.unique, fun heq => heq ▸ h⟩

theorem Unescapes.unique {s : List Piece} {cs cs' : List Char} (h : Unescapes s cs) (h' : Unescapes s cs') : cs' = cs := by
  have hread := (readString_unquoted h' []).symm.trans (readString_unquoted h [])
  exact (Prod.mk.inj (Except.ok.inj hread)).1

theorem Named.unique {ms : List (List Piece × Value)} {fields fields' : List (String × Value)} (h : Named ms fields)
    (h' : Named ms fields') : fields' = fields := by
  induction h generalizing fields' with
  | nil => exact List.forall₂_nil_left_iff.mp h'
  | @cons m f ms fields hm _ ih =>
    obtain ⟨f', fields'', hm', hms, rfl⟩ := List.forall₂_cons_left_iff.mp h'
    have hname : f'.1 = f.1 := String.toList_inj.mp (hm.1.unique hm'.1)
    have hvalue : f'.2 = f.2 := hm'.2.symm.trans hm.2
    rw [Prod.ext hname hvalue, ih hms]

theorem IsRecord.unique {keys : List String} {fields fields' : List (String × Value)} (h : IsRecord keys v fields)
    (h' : IsRecord keys v fields') : fields' = fields := by
  cases h with
  | list _ =>
    cases h'
    rfl
  | object hnamed _ =>
    cases h' with
    | object hnamed' _ => exact hnamed.unique hnamed'

end PagingGate.Json
