import Mathlib.Data.List.Forall2
import PagingGate.Json.Record
import PagingGate.Proofs.Json.Strings
import PagingGate.Proofs.Json.Tokens

set_option autoImplicit false

namespace PagingGate.Json

variable {α β : Type} {v : Value} {t p s ws rest cs : List Char} {first : Bool}

/-- A reader that takes exactly the values of a shape, up to where they end. -/
structure Reader.Decodes (r : Reader α) (Fits : Value → α → Prop) : Prop where
  sound : ∀ {cs rest a}, r.read cs = .ok (a, rest) →
    ∃ ws v t, IsBlank ws ∧ Spells (.value v) t ∧ Fits v a ∧ cs = ws ++ (t ++ rest)
  complete : ∀ {ws v t a rest}, IsBlank ws → Spells (.value v) t → Fits v a → Stops rest →
    r.read (ws ++ (t ++ rest)) = .ok (a, rest)
  blank : ∀ {ws}, IsBlank ws → r.read ws = .error .endOfValue
  cut : ∀ {ws v p s a}, IsBlank ws → Spells (.value v) (p ++ s) → Fits v a → p ≠ [] → s ≠ [] →
    Interrupted v (fun t => ∃ v, Spells (.value v) t ∧ Fits v a) p s (r.read (ws ++ p))

theorem Reader.Decodes.interrupted {r : Reader α} {Fits : Value → α → Prop} {a : α} (h : r.Decodes Fits)
    (hw : IsBlank ws) (ht : Spells (.value v) (p ++ s)) (hv : Fits v a) (hs : s ≠ []) :
    Interrupted v (fun t => ∃ v, Spells (.value v) t ∧ Fits v a) p s (r.read (ws ++ p)) := by
  by_cases hp : p = []
  · refine .inl ⟨.endOfValue, ?_, .of_ended rfl⟩
    rw [hp, List.append_nil, h.blank hw]
  · exact h.cut hw ht hv hp hs

def IsText (v : Value) (text : String) : Prop := ∃ s, v = .string s ∧ Unescapes s text.toList

theorem readText_quote (hw : IsBlank ws) (cs : List Char) : readText (ws ++ '"' :: cs) =
    (readString cs).map fun (text, rest) => (String.ofList text, rest) := by
  rw [readText, skipBlank_mark hw (by decide)]
  rfl

theorem Reader.text_decodes : Reader.text.Decodes IsText where
  sound := by
    intro cs rest a h
    replace h : readText cs = .ok (a, rest) := h
    rw [readText] at h
    split at h
    · simp at h
    · rename_i c tail hb
      obtain ⟨ws, hw, _, rfl⟩ := skipBlank_eq_cons_iff.mp hb
      split at h
      · rename_i hquote
        obtain ⟨_, hs, h⟩ := Except.map_eq_ok.mp h
        obtain ⟨rfl, rfl⟩ := Prod.mk.inj h
        obtain ⟨s, rfl, hun⟩ := readString_eq_ok hs
        exact ⟨ws, .string s, quoted s, hw, .string s, ⟨s, rfl, by rwa [String.toList_ofList]⟩, by
          rw [hquote, quoted, List.cons_append]⟩
      · simp at h
  complete := by
    rintro ws v t a rest hw ht ⟨s, rfl, hun⟩ _
    cases ht
    show readText (ws ++ '"' :: (unquoted s ++ rest)) = _
    rw [readText_quote hw, readString_unquoted hun]
    simp
  blank := by
    intro ws hw
    show readText ws = _
    rw [readText, skipBlank_eq_nil_iff.mpr hw]
  cut := by
    rintro ws v p s a hw ht ⟨str, rfl, hun⟩ hp hs
    obtain ⟨c, p, rfl⟩ := List.exists_cons_of_ne_nil hp
    generalize hps : c :: p ++ s = t at ht
    cases ht
    obtain ⟨rfl, hp'⟩ := List.cons.inj hps
    refine .inl ⟨.endOfString, ?_, .of_ended rfl⟩
    show readText (ws ++ '"' :: p) = _
    rw [readText_quote hw, readString_cut hun hp'.symm hs]
    rfl

def IsFloat (v : Value) (x : Float) : Prop := ∃ n, v = .number n ∧ n.value = .ok x

theorem readFloat_minus (hw : IsBlank ws) (cs : List Char) : readFloat (ws ++ '-' :: cs) =
    (readNumber true cs).map fun (n, rest) => (n.toFloat, rest) := by
  rw [readFloat, skipBlank_mark hw (by decide)]
  rfl

theorem readFloat_digit {c : Char} (hw : IsBlank ws) (hd : c.isDigit = true) (cs : List Char) :
    readFloat (ws ++ c :: cs) = (readNumber false (c :: cs)).map fun (n, rest) => (n.toFloat, rest) := by
  have hminus : c ≠ '-' := by
    rintro rfl
    exact absurd hd (by decide)
  rw [readFloat, skipBlank_mark hw (isBlank_of_isDigit hd)]
  simp only [if_neg hminus, hd, if_true]

theorem readFloat_sign (n : Literal) (hw : IsBlank ws) (h : n.negative = false → startsWithDigit cs = true) :
    readFloat (ws ++ (n.sign ++ cs)) =
      (readNumber n.negative cs).map fun (n, rest) => (n.toFloat, rest) := by
  cases hn : n.negative with
  | true =>
    rw [Literal.sign, hn]
    exact readFloat_minus hw cs
  | false =>
    have hstart := h hn
    rw [Literal.sign, hn]
    cases cs with
    | nil => simp [startsWithDigit] at hstart
    | cons c cs => exact readFloat_digit hw hstart cs

theorem readFloat_literal (n : Literal) (hw : IsBlank ws) (h : n.Ends rest) :
    readFloat (ws ++ (n.text ++ rest)) = n.value.map (·, rest) := by
  rw [Literal.text, List.append_assoc, readFloat_sign n hw fun _ => n.startsWithDigit_unsigned rest,
    readNumber_literal n h, Literal.value]
  cases n.number <;> rfl

theorem Literal.value_error {n : Literal} {e : Error} (h : n.value = .error e) : e = .numberOutOfRange := by
  rw [value] at h
  cases hn : n.number with
  | error e' =>
    rw [hn] at h
    exact Except.error.inj h ▸ number_error hn
  | ok x => simp [hn] at h

theorem Reader.float_decodes : Reader.float.Decodes IsFloat where
  sound := by
    intro cs rest x h
    have hnumber : ∀ {negative cs}, ((readNumber negative cs).map fun (n, rest) => (n.toFloat, rest)) =
        .ok (x, rest) → ∃ n : Literal, n.negative = negative ∧ cs = n.unsigned ++ rest ∧ n.value = .ok x := by
      intro negative cs hcs
      rcases literal_or_breaks negative cs with ⟨n, rest', rfl, rfl, hends⟩ | ⟨front, rest', hb, rfl⟩
      · rw [readNumber_literal n hends] at hcs
        cases hn : n.number with
        | error e => simp [hn] at hcs
        | ok y =>
          simp only [hn, Except.ok_map, Except.ok.injEq, Prod.mk.injEq] at hcs
          obtain ⟨rfl, rfl⟩ := hcs
          exact ⟨n, rfl, rfl, by simp [Literal.value, hn]⟩
      · simp [readNumber_breaks hb] at hcs
    replace h : readFloat cs = .ok (x, rest) := h
    rw [readFloat] at h
    split at h
    · simp at h
    · rename_i c tail hb
      obtain ⟨ws, hw, _, rfl⟩ := skipBlank_eq_cons_iff.mp hb
      split at h
      · rename_i hminus
        obtain ⟨n, hn, rfl, hx⟩ := hnumber h
        exact ⟨ws, .number n, n.text, hw, .number n, ⟨n, rfl, hx⟩, by
          rw [hminus, Literal.text_of_negative hn, List.cons_append]⟩
      · split at h
        · obtain ⟨n, hn, hcs, hx⟩ := hnumber h
          exact ⟨ws, .number n, n.text, hw, .number n, ⟨n, rfl, hx⟩, by
            rw [hcs, Literal.text_of_not_negative hn]⟩
        · simp at h
  complete := by
    rintro ws v t x rest hw ht ⟨n, rfl, hx⟩ hr
    cases ht
    show readFloat _ = _
    rw [readFloat_literal n hw (n.ends_of_stops hr), hx]
    rfl
  blank := by
    intro ws hw
    show readFloat ws = _
    rw [readFloat, skipBlank_eq_nil_iff.mpr hw]
  cut := by
    rintro ws v p s x hw ht ⟨n, rfl, _⟩ hp hs
    generalize hps : p ++ s = t at ht
    cases ht
    show Interrupted _ _ _ _ (readFloat _)
    rcases n.cut hps.symm with h0 | ⟨m, rfl⟩ | ⟨front, rfl, hb, hstart⟩
    · exact absurd h0 hp
    · have hread := readFloat_literal m hw (m.ends_of_stops stops_nil)
      rw [List.append_nil] at hread
      rw [hread]
      cases hm : m.value with
      | error e => exact .inl ⟨e, rfl, .inr (.inl (Literal.value_error hm))⟩
      | ok y => exact .inr ⟨n, y, rfl, rfl⟩
    · have hbreak : readNumber n.negative (front ++ []) = .error .endOfValue := readNumber_breaks hb
      rw [List.append_nil] at hbreak
      refine .inl ⟨.endOfValue, ?_, .of_ended rfl⟩
      rw [readFloat_sign n hw hstart, hbreak]
      rfl

variable {Fits : Value → α → Prop} {Fits' : Value → β → Prop} {r : Reader α}

theorem Interrupted.map {p s : List Char} {F F' : List Char → Prop} {result : Except Error (α × List Char)}
    (h : Interrupted v F p s result) (f : α → β) (hfit : ∀ t, F t → F' t) :
    Interrupted v F' p s (result.map fun (a, rest) => (f a, rest)) := by
  rcases h with ⟨e, rfl, hbroken⟩ | ⟨n, a, hv, rfl⟩
  · exact .inl ⟨e, rfl, hbroken.mono hfit⟩
  · exact .inr ⟨n, f a, hv, rfl⟩

theorem Reader.Decodes.mapped (h : r.Decodes Fits) (f : α → β) :
    (r.mapped f).Decodes fun v b => ∃ a, Fits v a ∧ b = f a where
  sound := by
    intro cs rest b hb
    replace hb : ((r.read cs).map fun (a, rest) => (f a, rest)) = .ok (b, rest) := hb
    obtain ⟨_, hr, hb⟩ := Except.map_eq_ok.mp hb
    obtain ⟨rfl, rfl⟩ := Prod.mk.inj hb
    obtain ⟨ws, v, t, hw, ht, hv, hcs⟩ := h.sound hr
    exact ⟨ws, v, t, hw, ht, ⟨_, hv, rfl⟩, hcs⟩
  complete := by
    rintro ws v t b rest hw ht ⟨a, hv, rfl⟩ hr
    show (r.read _).map _ = _
    rw [h.complete hw ht hv hr]
    rfl
  blank := by
    intro ws hw
    show (r.read ws).map _ = _
    rw [h.blank hw]
    rfl
  cut := by
    rintro ws v p s b hw ht ⟨a, hv, rfl⟩ hp hs
    refine (h.cut hw ht hv hp hs).map f ?_
    rintro t ⟨v, ht, hv⟩
    exact ⟨v, ht, a, hv, rfl⟩

theorem Reader.Decodes.congr {Fits' : Value → α → Prop} (h : r.Decodes Fits) (heq : ∀ v a, Fits v a ↔ Fits' v a) :
    r.Decodes Fits' := by
  obtain rfl : Fits = Fits' := funext fun v => funext fun a => propext (heq v a)
  exact h

inductive Nullable (Fits : Value → α → Prop) : Value → Option α → Prop where
  | null : Nullable Fits .null none
  | value {v a} : Fits v a → Nullable Fits v (some a)

theorem Spells.eq_null (h : Spells (.value v) ('n' :: t)) : v = .null := by
  have hlead : Value.null.lead = v.lead := Option.some.inj h.leadOf
  cases Value.alike_of_lead hlead
  rfl

theorem Spells.null_text (h : Spells (.value .null) t) : t = 'n' :: "ull".toList := by
  cases h
  rfl

theorem skipBlank_ne_null {c : Char} (hw : IsBlank ws) (ht : Spells (.value v) (c :: t)) (hv : v ≠ .null)
    (cs tail : List Char) : skipBlank (ws ++ c :: cs) ≠ 'n' :: tail := by
  obtain ⟨d, t', heq, hd, _⟩ := ht.startsValue
  obtain ⟨rfl, rfl⟩ := List.cons.inj heq
  rw [skipBlank_mark hw hd]
  intro h
  obtain ⟨rfl, _⟩ := List.cons.inj h
  exact hv ht.eq_null

theorem Reader.readNullable_null (r : Reader α) (hw : IsBlank ws) (cs : List Char) :
    r.readNullable (ws ++ 'n' :: cs) = (expectWord "ull".toList cs).map (none, ·) := by
  rw [readNullable, skipBlank_mark hw (by decide)]
  rfl

theorem Reader.readNullable_value (r : Reader α) (h : ∀ tail, skipBlank cs ≠ 'n' :: tail) :
    r.readNullable cs = (r.read cs).map fun (a, rest) => (some a, rest) := by
  rw [readNullable]
  split
  · rename_i tail ht
    exact absurd ht (h tail)
  · rfl

theorem Reader.Decodes.nullable (h : r.Decodes Fits) (hne : ∀ {v a}, Fits v a → v ≠ .null) :
    r.nullable.Decodes (Nullable Fits) where
  sound := by
    intro cs rest o ho
    replace ho : r.readNullable cs = .ok (o, rest) := ho
    rw [readNullable] at ho
    split at ho
    · rename_i tail hb
      obtain ⟨ws, hw, _, rfl⟩ := skipBlank_eq_cons_iff.mp hb
      have htail := expectWord_eq_ok (pair_ok ho)
      rw [htail, expectWord_append] at ho
      simp only [Except.ok_map, Except.ok.injEq, Prod.mk.injEq, and_true] at ho
      subst ho
      exact ⟨ws, .null, _, hw, .null, .null, by rw [htail]; rfl⟩
    · obtain ⟨_, hr, ho⟩ := Except.map_eq_ok.mp ho
      obtain ⟨rfl, rfl⟩ := Prod.mk.inj ho
      obtain ⟨ws, v, t, hw, ht, hv, hcs⟩ := h.sound hr
      exact ⟨ws, v, t, hw, ht, .value hv, hcs⟩
  complete := by
    intro ws v t o rest hw ht hv hr
    show r.readNullable _ = _
    cases hv with
    | null =>
      cases ht
      show r.readNullable (ws ++ 'n' :: ("ull".toList ++ rest)) = _
      rw [r.readNullable_null hw, expectWord_append]
      rfl
    | @value _ a hv =>
      obtain ⟨c, t, rfl, _⟩ := ht.startsValue
      have hread := h.complete hw ht hv hr
      rw [List.cons_append] at hread ⊢
      rw [r.readNullable_value (skipBlank_ne_null hw ht (hne hv) (t ++ rest)), hread]
      rfl
  blank := by
    intro ws hw
    show r.readNullable ws = _
    rw [r.readNullable_value (by simp [skipBlank_eq_nil_iff.mpr hw]), h.blank hw]
    rfl
  cut := by
    intro ws v p s o hw ht hv hp hs
    show Interrupted _ _ _ _ (r.readNullable _)
    obtain ⟨c, p, rfl⟩ := List.exists_cons_of_ne_nil hp
    cases hv with
    | null =>
      obtain ⟨rfl, hp'⟩ := List.cons.inj ht.null_text
      refine .inl ⟨.endOfValue, ?_, .of_ended rfl⟩
      rw [r.readNullable_null hw, expectWord_cut hp'.symm hs]
      rfl
    | @value _ a hv =>
      rw [r.readNullable_value (skipBlank_ne_null hw ht (hne hv) p)]
      refine (h.cut hw ht hv hp hs).map some ?_
      rintro t ⟨v, ht, hv⟩
      exact ⟨v, ht, .value hv⟩

def IsListOf (Fits : Value → α → Prop) (v : Value) (as : List α) : Prop :=
  ∃ vs, v = .list vs ∧ List.Forall₂ Fits vs as

theorem Reader.items_error {e : Error} (h : nextItem first cs = .error e) : r.items first cs = .error e := by
  rw [items]
  split <;> simp_all

theorem Reader.items_done (h : nextItem first cs = .ok (.done rest)) : r.items first cs = .ok ([], rest) := by
  rw [items]
  split <;> simp_all

theorem Reader.items_item (h : nextItem first cs = .ok (.item rest)) : r.items first cs =
    match r.read rest with
    | .error e => .error e
    | .ok (a, rest) => (r.items false rest).map fun (as, rest) => (a :: as, rest) := by
  rw [items]
  split
  · simp_all
  · simp_all
  · rename_i rest' hn
    rw [h, Except.ok.injEq, Next.item.injEq] at hn
    subst hn
    split <;> simp_all

theorem Reader.items_blank (r : Reader α) (first : Bool) (hw : IsBlank ws) :
    r.items first ws = .error .endOfList := items_error (nextItem_blank first hw)

theorem Reader.Decodes.items_sound (h : r.Decodes Fits) {as : List α} (hr : r.items first cs = .ok (as, rest)) :
    ∃ vs t, Spells (.items first vs) t ∧ List.Forall₂ Fits vs as ∧ cs = t ++ rest := by
  fun_induction Reader.items r first cs generalizing as with
  | case1 => simp at hr
  | case2 first cs rest' hn =>
    simp only [Except.ok.injEq, Prod.mk.injEq] at hr
    obtain ⟨rfl, rfl⟩ := hr
    obtain ⟨ws, hw, rfl⟩ := nextItem_eq_done hn
    exact ⟨[], ws ++ [']'], .noItem hw, .nil, by simp⟩
  | case3 => simp at hr
  | case4 first cs rest' hn a rest'' ha ih =>
    obtain ⟨_, hi, hr⟩ := Except.map_eq_ok.mp hr
    obtain ⟨rfl, rfl⟩ := Prod.mk.inj hr
    obtain ⟨vs, u, hu, hvs, rfl⟩ := ih hi
    obtain ⟨ws, v, t, hw, ht, hv, rfl⟩ := h.sound ha
    obtain ⟨sep, hsep, rfl⟩ := nextItem_eq_item hn
    exact ⟨v :: vs, _, .item (hsep.append_blank hw) ht hu, .cons hv hvs, by simp⟩

theorem Reader.Decodes.items_complete (h : r.Decodes Fits) {vs : List Value} {as : List α}
    (hvs : List.Forall₂ Fits vs as) (ht : Spells (.items first vs) t) (rest : List Char) :
    r.items first (t ++ rest) = .ok (as, rest) := by
  induction hvs generalizing first t with
  | nil =>
    cases ht with
    | noItem hw =>
      refine items_done ?_
      rw [List.append_assoc]
      exact nextItem_bracket first hw
  | @cons v a vs as hv _ ih =>
    cases ht with
    | @item _ sep _ t _ u hsep ht hu =>
      have hread : r.read (t ++ (u ++ rest)) = .ok (a, u ++ rest) :=
        h.complete isBlank_nil ht hv (hu.stops_items rest)
      rw [List.append_assoc, List.append_assoc,
        items_item (nextItem_separator hsep (ht.startsValue.append (u ++ rest))), hread]
      simp only [ih hu]
      rfl

theorem Reader.Decodes.items_cut (h : r.Decodes Fits) {vs : List Value} {as : List α}
    (hvs : List.Forall₂ Fits vs as) (ht : Spells (.items first vs) (p ++ s)) (hs : s ≠ []) :
    ∃ e, r.items first p = .error e ∧
      Broken (fun t => ∃ vs, Spells (.items first vs) t ∧ List.Forall₂ Fits vs as) p s e := by
  induction hvs generalizing first p with
  | nil =>
    generalize hps : p ++ s = t at ht
    cases ht with
    | noItem hw => exact ⟨_, r.items_blank first (isBlank_of_cut hw hps.symm hs), .of_ended rfl⟩
  | @cons v a vs as hv hvs ih =>
    generalize hps : p ++ s = text at ht
    cases ht with
    | @item _ sep _ t _ u hsep ht hu =>
      rcases cut_in_or_beyond hps.symm with ⟨s', rfl⟩ | ⟨p1, hp1, rfl, h1⟩
      · obtain ⟨e, he, hended⟩ := nextItem_cut hsep
        exact ⟨e, items_error he, .of_ended hended⟩
      rw [items_item (nextItem_separator hsep (ht.startsValue.of_append h1 hp1))]
      rcases cut_cases h1 with ⟨s', hs', rfl, rfl⟩ | ⟨p2, rfl, h2⟩
      · rcases h.interrupted isBlank_nil ht hv hs' with ⟨e, hread, hbroken⟩ | ⟨n, a', _, hread⟩ <;>
          rw [List.nil_append] at hread <;> simp only [hread]
        · refine ⟨e, rfl, hbroken.within ?_⟩
          rintro t ⟨v, ht, hv⟩
          exact ⟨v :: vs, .item hsep ht hu, .cons hv hvs⟩
        · rw [r.items_blank false isBlank_nil]
          exact ⟨_, rfl, .of_ended rfl⟩
      · have hread : r.read (t ++ p2) = .ok (a, p2) :=
          h.complete isBlank_nil ht hv (.front hu.stops_items h2)
        obtain ⟨e, hitems, hbroken⟩ := ih (p := p2) (h2 ▸ hu)
        simp only [hread, hitems]
        refine ⟨e, rfl, ?_⟩
        rw [← List.append_assoc]
        refine hbroken.behind ?_
        rintro u ⟨vs, hu, hvs⟩
        rw [List.append_assoc]
        exact ⟨v :: vs, .item hsep ht hu, .cons hv hvs⟩

theorem Reader.readList_bracket (r : Reader α) (hw : IsBlank ws) (cs : List Char) :
    r.readList (ws ++ '[' :: cs) = r.items true cs := by
  rw [readList, skipBlank_mark hw (by decide)]
  rfl

theorem Reader.Decodes.list (h : r.Decodes Fits) : r.list.Decodes (IsListOf Fits) where
  sound := by
    intro cs rest as hr
    replace hr : r.readList cs = .ok (as, rest) := hr
    rw [readList] at hr
    split at hr
    · simp at hr
    · rename_i c tail hb
      obtain ⟨ws, hw, _, rfl⟩ := skipBlank_eq_cons_iff.mp hb
      split at hr
      · rename_i hbracket
        obtain ⟨vs, t, ht, hvs, rfl⟩ := h.items_sound hr
        exact ⟨ws, .list vs, '[' :: t, hw, .list ht, ⟨vs, rfl, hvs⟩, by rw [hbracket, List.cons_append]⟩
      · simp at hr
  complete := by
    rintro ws v t as rest hw ht ⟨vs, rfl, hvs⟩ _
    cases ht with
    | @list _ t ht =>
      show r.readList (ws ++ '[' :: (t ++ rest)) = _
      rw [r.readList_bracket hw, h.items_complete hvs ht]
  blank := by
    intro ws hw
    show r.readList ws = _
    rw [readList, skipBlank_eq_nil_iff.mpr hw]
  cut := by
    rintro ws v p s as hw ht ⟨vs, rfl, hvs⟩ hp hs
    obtain ⟨c, p, rfl⟩ := List.exists_cons_of_ne_nil hp
    generalize hps : c :: p ++ s = t at ht
    cases ht with
    | @list _ t ht =>
      obtain ⟨rfl, rfl⟩ := List.cons.inj hps
      obtain ⟨e, he, hbroken⟩ := h.items_cut hvs ht hs
      refine .inl ⟨e, ?_, ?_⟩
      · show r.readList (ws ++ '[' :: p) = _
        rw [r.readList_bracket hw, he]
      · refine hbroken.behind (a := ['[']) ?_
        rintro t ⟨vs, ht, hvs⟩
        exact ⟨.list vs, .list ht, vs, rfl, hvs⟩

theorem Reader.Decodes.document_sound (h : r.Decodes Fits) {text : String} {a : α}
    (hr : r.document text = .ok a) : ∃ v, IsDocument v text.toList ∧ Fits v a := by
  rw [document] at hr
  split at hr
  · simp at hr
  · rename_i b rest hread
    split at hr
    · rename_i hblank
      obtain rfl := Except.ok.inj hr
      obtain ⟨ws, v, t, hw, ht, hv, htext⟩ := h.sound hread
      exact ⟨v, ⟨ws, t, rest, hw, ht, skipBlank_eq_nil_iff.mp hblank, htext⟩, hv⟩
    · simp at hr

theorem Reader.Decodes.document_complete (h : r.Decodes Fits) {text : String} {a : α}
    (hd : IsDocument v text.toList) (hv : Fits v a) : r.document text = .ok a := by
  obtain ⟨before, t, after, hbefore, ht, hafter, htext⟩ := hd
  rw [document, htext, h.complete hbefore ht hv (stops_of_isBlank hafter)]
  exact if_pos (skipBlank_eq_nil_iff.mpr hafter)

theorem Spells.not_isBlank (ht : Spells (.value v) (p ++ s)) (hs : s ≠ []) : ¬ IsBlank s := by
  obtain ⟨c, hc, hb⟩ := ht.getLast?
  rw [List.getLast?_append, List.getLast?_eq_some_getLast hs, Option.some_or] at hc
  intro hblank
  have hlast := hblank _ (List.getLast_mem hs)
  rw [Option.some.inj hc, hb] at hlast
  exact Bool.false_ne_true hlast

theorem IsDocument.of_blank (hd : IsDocument v (p ++ s)) (hs : IsBlank s) : IsDocument v p := by
  obtain ⟨before, t, after, hbefore, ht, hafter, h⟩ := hd
  rcases cut_cases h.symm with ⟨s', _, rfl, rfl⟩ | ⟨p1, rfl, h1⟩
  · obtain ⟨c, tail, rfl, hc, _⟩ := ht.startsValue
    have hblank := hs c (by simp)
    rw [hc] at hblank
    exact absurd hblank Bool.false_ne_true
  rcases cut_cases h1 with ⟨s', hs', rfl, rfl⟩ | ⟨p2, rfl, rfl⟩
  · exact absurd (isBlank_append.mp hs).1 (ht.not_isBlank hs')
  · exact ⟨before, t, p2, hbefore, ht, (isBlank_append.mp hafter).1, rfl⟩

/-- A document that loses more than white space is refused. -/
theorem Reader.Decodes.document_cut (h : r.Decodes Fits) {a : α} (hd : IsDocument v (p ++ s)) (hv : Fits v a)
    (hroot : ∀ n, v ≠ .number n) (hs : ¬ IsBlank s) : ∃ e, r.document (String.ofList p) = .error e ∧
      Broken (fun t => ∃ v, IsDocument v t ∧ Fits v a) p s e := by
  obtain ⟨before, t, after, hbefore, ht, hafter, heq⟩ := hd
  rcases cut_cases heq.symm with ⟨s', _, rfl, _⟩ | ⟨p1, rfl, h1⟩
  · refine ⟨.endOfValue, ?_, .of_ended rfl⟩
    rw [document, String.toList_ofList, h.blank (isBlank_append.mp hbefore).1]
  rcases cut_cases h1 with ⟨s', hs', rfl, rfl⟩ | ⟨p2, rfl, rfl⟩
  · rcases h.interrupted hbefore ht hv hs' with ⟨e, hread, hbroken⟩ | ⟨n, _, hn, _⟩
    · refine ⟨e, by rw [document, String.toList_ofList, hread], ?_⟩
      refine hbroken.within ?_
      rintro t ⟨v, ht, hv⟩
      exact ⟨v, ⟨before, t, after, hbefore, ht, hafter, rfl⟩, hv⟩
    · exact absurd hn (hroot n)
  · exact absurd (isBlank_append.mp hafter).2 hs

end PagingGate.Json
