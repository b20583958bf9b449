import PagingGate.Proofs.Json.Cut
import PagingGate.Proofs.Json.Numbers

set_option autoImplicit false

namespace PagingGate.Json

variable {w p s sep ws rest cs : List Char} {first : Bool}

theorem expectWord_append (w rest : List Char) : expectWord w (w ++ rest) = .ok rest := by
  induction w with
  | nil => rw [expectWord, List.nil_append]
  | cons c w ih => rw [List.cons_append, expectWord, if_pos rfl, ih]

theorem expectWord_eq_ok (h : expectWord w cs = .ok rest) : cs = w ++ rest := by
  fun_induction expectWord w cs with
  | case1 => simpa using h
  | case2 => simp at h
  | case3 c _ _ ih => rw [List.cons_append, ih h]
  | case4 => simp at h

theorem expectWord_cut (h : w = p ++ s) (hs : s ≠ []) : expectWord w p = .error .endOfValue := by
  subst h
  induction p with
  | nil =>
    obtain ⟨c, s, rfl⟩ := List.exists_cons_of_ne_nil hs
    rw [List.nil_append, expectWord]
  | cons c p ih => rw [List.cons_append, expectWord, if_pos rfl, ih]

theorem isBlank_of_isDigit {c : Char} (h : c.isDigit = true) : isBlank c = false := by
  unfold isBlank
  by_contra hb
  simp only [Bool.not_eq_false, Bool.or_eq_true, decide_eq_true_eq] at hb
  rcases hb with ((rfl | rfl) | rfl) | rfl <;> exact absurd h (by decide)

@[simp] theorem stops_nil : Stops [] := by simp [Stops]

theorem stops_blank (hw : IsBlank ws) (h : Stops rest) : Stops (ws ++ rest) := by
  cases ws with
  | nil => exact h
  | cons b ws =>
    intro c hc
    obtain rfl : b = c := by simpa using hc
    have hb := (isBlank_cons.mp hw).1
    simp only [isBlank, Bool.or_eq_true, decide_eq_true_eq] at hb
    rcases hb with ((rfl | rfl) | rfl) | rfl <;> simp [IsMark]

theorem stops_of_isBlank (hw : IsBlank ws) : Stops ws := by
  simpa using stops_blank hw stops_nil

theorem stops_delimiter {c : Char} (hw : IsBlank ws) (hc : c = ',' ∨ c = ']' ∨ c = '\x7d') :
    Stops (ws ++ c :: rest) := by
  refine stops_blank hw fun d hd => ?_
  obtain rfl : c = d := by simpa using hd
  rcases hc with rfl | rfl | rfl <;> simp [IsMark]

theorem Stops.of_append (h : Stops (p ++ s)) : Stops p := by
  cases p with
  | nil => simp [Stops]
  | cons c p => exact h

theorem Stops.front {t : List Char} (h : ∀ rest, Stops (t ++ rest)) (ht : t = p ++ s) : Stops p := by
  have hstops := h []
  rw [List.append_nil, ht] at hstops
  exact hstops.of_append

theorem Spells.stops_items {vs : List Value} {t : List Char} (h : Spells (.items false vs) t)
    (rest : List Char) : Stops (t ++ rest) := by
  cases h with
  | @noItem _ ws hw =>
    have hstops : Stops (ws ++ ']' :: rest) := stops_delimiter hw (.inr (.inl rfl))
    simpa using hstops
  | item hsep =>
    obtain ⟨a, b, ha, _, rfl⟩ := hsep
    simpa using stops_delimiter ha (.inl rfl)

theorem Spells.stops_members {ms : List (List Piece × Value)} {t : List Char}
    (h : Spells (.members false ms) t) (rest : List Char) : Stops (t ++ rest) := by
  cases h with
  | @noMember _ ws hw =>
    have hstops : Stops (ws ++ '\x7d' :: rest) := stops_delimiter hw (.inr (.inr rfl))
    simpa using hstops
  | member hsep =>
    obtain ⟨a, b, ha, _, rfl⟩ := hsep
    simpa using stops_delimiter ha (.inl rfl)

def StartsValue (cs : List Char) : Prop := ∃ c tail, cs = c :: tail ∧ isBlank c = false ∧ c ≠ ']'

theorem StartsValue.append (h : StartsValue cs) (rest : List Char) : StartsValue (cs ++ rest) := by
  obtain ⟨c, tail, rfl, hc⟩ := h
  exact ⟨c, tail ++ rest, rfl, hc⟩

theorem StartsValue.of_append (h : StartsValue cs) (heq : cs ++ rest = p ++ s) (hp : p ≠ []) : StartsValue p := by
  obtain ⟨c, p, rfl⟩ := List.exists_cons_of_ne_nil hp
  obtain ⟨d, tail, rfl, hd⟩ := h
  rw [List.cons_append, List.cons_append, List.cons.injEq] at heq
  exact ⟨c, p, rfl, heq.1 ▸ hd⟩

theorem Literal.text_head (n : Literal) : ∃ c tail, n.text = c :: tail ∧ (c = '-' ∨ c.isDigit = true) := by
  cases hn : n.negative with
  | true => exact ⟨'-', n.unsigned, text_of_negative hn, .inl rfl⟩
  | false =>
    obtain ⟨c, tail, hc, hd⟩ := n.unsigned_head
    exact ⟨c, tail, (text_of_not_negative hn).trans hc, .inr hd⟩

theorem Literal.startsValue (n : Literal) : StartsValue n.text := by
  obtain ⟨c, tail, hc, rfl | hd⟩ := n.text_head
  · exact ⟨'-', tail, hc, by decide, by decide⟩
  · refine ⟨c, tail, hc, isBlank_of_isDigit hd, ?_⟩
    rintro rfl
    exact absurd hd (by decide)

theorem Spells.startsValue {v : Value} {t : List Char} (h : Spells (.value v) t) : StartsValue t := by
  cases h with
  | null => exact ⟨'n', _, rfl, by decide, by decide⟩
  | yes => exact ⟨'t', _, rfl, by decide, by decide⟩
  | no => exact ⟨'f', _, rfl, by decide, by decide⟩
  | number n => exact n.startsValue
  | string s => exact ⟨'"', _, rfl, by decide, by decide⟩
  | list => exact ⟨'[', _, rfl, by decide, by decide⟩
  | object => exact ⟨'\x7b', _, rfl, by decide, by decide⟩

/-- The first character of a value. Zero stands for all with which a number can begin. -/
def Value.lead : Value → Char
  | .null => 'n'
  | .flag true => 't'
  | .flag false => 'f'
  | .number _ => '0'
  | .string _ => '"'
  | .list _ => '['
  | .object _ => '\x7b'

def leadOf (c : Char) : Char := if c = '-' ∨ c.isDigit = true then '0' else c

theorem Spells.leadOf {v : Value} {t : List Char} (h : Spells (.value v) t) : t.head?.map leadOf = some v.lead := by
  cases h with
  | number n =>
    obtain ⟨c, tail, hc, hd⟩ := n.text_head
    rw [hc, List.head?_cons, Option.map_some, Json.leadOf, if_pos hd]
    rfl
  | _ => rfl

/-- Both values are made in the same way. -/
inductive Value.Alike : Value → Value → Prop where
  | null : Alike .null .null
  | flag (b : Bool) : Alike (.flag b) (.flag b)
  | number (n n' : Literal) : Alike (.number n) (.number n')
  | string (s s' : List Piece) : Alike (.string s) (.string s')
  | list (vs vs' : List Value) : Alike (.list vs) (.list vs')
  | object (ms ms' : List (List Piece × Value)) : Alike (.object ms) (.object ms')

theorem Value.alike_of_lead {v v' : Value} (h : v.lead = v'.lead) : v.Alike v' := by
  rcases v with _ | (_ | _) | n | s | vs | ms <;> rcases v' with _ | (_ | _) | n' | s' | vs' | ms' <;>
    first
    | constructor
    | cases h

theorem IsDigits.getLast? {ds : List Char} (h : IsDigits ds) (cs : List Char) :
    ∃ c, (cs ++ ds).getLast? = some c ∧ c.isDigit = true := by
  refine ⟨ds.getLast h.1, ?_, h.2 _ (List.getLast_mem h.1)⟩
  rw [List.getLast?_append, List.getLast?_eq_some_getLast h.1, Option.some_or]

theorem Literal.getLast? (n : Literal) : ∃ c, n.text.getLast? = some c ∧ c.isDigit = true := by
  rw [text, unsigned]
  cases hx : n.exponent with
  | some x =>
    rw [exponentText_of_some hx, Exponent.text, ← List.append_assoc, ← List.append_assoc, ← List.append_assoc]
    exact x.isDigits.getLast? _
  | none =>
    rw [exponentText_of_none hx, List.append_nil, fractionText]
    split
    · rw [List.append_nil]
      exact n.isWhole.1.getLast? _
    · rename_i hf
      rw [← List.singleton_append, ← List.append_assoc, ← List.append_assoc]
      exact IsDigits.getLast? ⟨hf, n.isFraction⟩ _

theorem Spells.getLast? {part : Part} {t : List Char} (h : Spells part t) :
    ∃ c, t.getLast? = some c ∧ isBlank c = false := by
  induction h with
  | null => exact ⟨'l', rfl, rfl⟩
  | yes => exact ⟨'e', rfl, rfl⟩
  | no => exact ⟨'e', rfl, rfl⟩
  | number n =>
    obtain ⟨c, hc, hd⟩ := n.getLast?
    exact ⟨c, hc, isBlank_of_isDigit hd⟩
  | string s => exact ⟨'"', by rw [quoted, unquoted, ← List.cons_append, List.getLast?_concat], rfl⟩
  | list _ ih =>
    obtain ⟨c, hc, hb⟩ := ih
    exact ⟨c, by simp [List.getLast?_cons, hc], hb⟩
  | object _ ih =>
    obtain ⟨c, hc, hb⟩ := ih
    exact ⟨c, by simp [List.getLast?_cons, hc], hb⟩
  | noItem hw => exact ⟨']', by simp, rfl⟩
  | noMember hw => exact ⟨'\x7d', by simp, rfl⟩
  | item _ _ _ _ ih =>
    obtain ⟨c, hc, hb⟩ := ih
    exact ⟨c, by simp [List.getLast?_append, hc], hb⟩
  | member _ _ _ _ _ _ ih =>
    obtain ⟨c, hc, hb⟩ := ih
    exact ⟨c, by simp [List.getLast?_append, List.getLast?_cons, hc], hb⟩

theorem skipBlank_mark {c : Char} (hw : IsBlank ws) (hc : isBlank c = false) :
    skipBlank (ws ++ c :: rest) = c :: rest := by
  rw [skipBlank_append hw, skipBlank_cons hc]

theorem isBlank_of_cut {c : Char} (hw : IsBlank ws) (h : ws ++ [c] = p ++ s) (hs : s ≠ []) : IsBlank p := by
  rcases cut_cases h with ⟨s', _, rfl, _⟩ | ⟨p', rfl, hc⟩
  · exact (isBlank_append.mp hw).1
  · rcases List.singleton_eq_append_iff.mp hc with ⟨rfl, _⟩ | ⟨_, h0⟩
    · simpa using hw
    · exact absurd h0 hs

theorem IsSeparator.append_blank {sep : List Char} (h : IsSeparator first sep) (hw : IsBlank ws) :
    IsSeparator first (sep ++ ws) := by
  cases first with
  | true => exact isBlank_append.mpr ⟨h, hw⟩
  | false =>
    obtain ⟨a, b, ha, hb, rfl⟩ := h
    exact ⟨a, b ++ ws, ha, by simp [hb, hw], by simp⟩

theorem separator_cut (hsep : IsSeparator first (p ++ s)) :
    IsBlank p ∨ (first = false ∧ ∃ a b, IsBlank a ∧ IsBlank b ∧ p = a ++ ',' :: b) := by
  cases first with
  | true => exact .inl (isBlank_append.mp hsep).1
  | false =>
    obtain ⟨a, b, ha, hb, h⟩ := hsep
    rcases cut_cases h.symm with ⟨s', _, rfl, _⟩ | ⟨p', rfl, h'⟩
    · exact .inl (isBlank_append.mp ha).1
    · rcases List.cons_eq_append_iff.mp h' with ⟨rfl, _⟩ | ⟨p'', rfl, rfl⟩
      · exact .inl (by simpa using ha)
      · exact .inr ⟨rfl, a, p'', ha, (isBlank_append.mp hb).1, rfl⟩

theorem nextItem_separator (hsep : IsSeparator first sep) (h : StartsValue cs) :
    nextItem first (sep ++ cs) = .ok (.item cs) := by
  obtain ⟨c, tail, rfl, hc, hb⟩ := h
  cases first with
  | true => rw [nextItem, skipBlank_mark hsep hc]; simp [hb]
  | false =>
    obtain ⟨a, b, ha, hb', rfl⟩ := hsep
    rw [List.append_assoc, List.cons_append, nextItem, skipBlank_mark ha (by decide)]
    simp [skipBlank_mark hb' hc, hb]

theorem nextItem_bracket (first : Bool) (hw : IsBlank ws) :
    nextItem first (ws ++ ']' :: rest) = .ok (.done rest) := by
  rw [nextItem, skipBlank_mark hw (by decide)]
  simp

/-- A bracket ends the list, behind white space. All else that is accepted is a separator before the next item. -/
theorem nextItem_eq_ok {n : Next} (h : nextItem first cs = .ok n) :
    (∃ ws rest, IsBlank ws ∧ cs = ws ++ ']' :: rest ∧ n = .done rest) ∨
    ∃ sep rest, IsSeparator first sep ∧ cs = sep ++ rest ∧ n = .item rest := by
  unfold nextItem at h
  split at h
  · cases h
  · rename_i c tail hb
    obtain ⟨ws, hws, hc, rfl⟩ := skipBlank_eq_cons_iff.mp hb
    split at h
    · rename_i hbracket
      exact .inl ⟨ws, tail, hws, by rw [hbracket], (Except.ok.inj h).symm⟩
    · cases first with
      | true => exact .inr ⟨ws, c :: tail, hws, rfl, (Except.ok.inj h).symm⟩
      | false =>
        simp only [Bool.false_eq_true, if_false] at h
        split at h
        · rename_i hcomma
          subst hcomma
          split at h
          · cases h
          · rename_i d tail' hd
            obtain ⟨ws', hws', hd', rfl⟩ := skipBlank_eq_cons_iff.mp hd
            split at h
            · cases h
            · exact .inr ⟨ws ++ ',' :: ws', d :: tail', ⟨ws, ws', hws, hws', rfl⟩, by simp, (Except.ok.inj h).symm⟩
        · cases h

theorem nextItem_eq_item (h : nextItem first cs = .ok (.item rest)) :
    ∃ sep, IsSeparator first sep ∧ cs = sep ++ rest := by
  rcases nextItem_eq_ok h with ⟨_, _, _, _, hn⟩ | ⟨sep, _, hsep, hcs, hn⟩
  · cases hn
  · obtain rfl := Next.item.inj hn
    exact ⟨sep, hsep, hcs⟩

theorem nextItem_eq_done (h : nextItem first cs = .ok (.done rest)) :
    ∃ ws, IsBlank ws ∧ cs = ws ++ ']' :: rest := by
  rcases nextItem_eq_ok h with ⟨ws, _, hws, hcs, hn⟩ | ⟨_, _, _, _, hn⟩
  · obtain rfl := Next.done.inj hn
    exact ⟨ws, hws, hcs⟩
  · cases hn

theorem nextItem_blank (first : Bool) (hw : IsBlank ws) : nextItem first ws = .error .endOfList := by
  rw [nextItem, skipBlank_eq_nil_iff.mpr hw]

theorem nextItem_cut (hsep : IsSeparator first (p ++ s)) : ∃ e, nextItem first p = .error e ∧ e.kind = .ended := by
  rcases separator_cut hsep with hp | ⟨rfl, a, b, ha, hb, rfl⟩
  · exact ⟨_, nextItem_blank first hp, rfl⟩
  · refine ⟨.endOfValue, ?_, rfl⟩
    rw [nextItem, skipBlank_mark ha (by decide)]
    simp [skipBlank_eq_nil_iff.mpr hb]

theorem expectListEnd_bracket (hw : IsBlank ws) : expectListEnd (ws ++ ']' :: rest) = .ok rest := by
  rw [expectListEnd, skipBlank_mark hw (by decide)]
  simp

theorem expectListEnd_eq_ok (h : expectListEnd cs = .ok rest) : ∃ ws, IsBlank ws ∧ cs = ws ++ ']' :: rest := by
  unfold expectListEnd at h
  split at h
  · simp at h
  · rename_i c tail hb
    obtain ⟨ws, hws, hc, rfl⟩ := skipBlank_eq_cons_iff.mp hb
    split at h
    · rename_i hbracket
      rw [Except.ok.injEq] at h
      exact ⟨ws, hws, by rw [hbracket, h]⟩
    · split at h <;> simp at h

theorem expectListEnd_blank (hw : IsBlank ws) : expectListEnd ws = .error .endOfList := by
  rw [expectListEnd, skipBlank_eq_nil_iff.mpr hw]

theorem nextKey_separator (hsep : IsSeparator first sep) :
    nextKey first (sep ++ '"' :: rest) = .ok (.item rest) := by
  cases first with
  | true => rw [nextKey, skipBlank_mark hsep (by decide)]; simp
  | false =>
    obtain ⟨a, b, ha, hb, rfl⟩ := hsep
    have hquote : skipBlank (b ++ '"' :: rest) = '"' :: rest := skipBlank_mark hb (by decide)
    rw [List.append_assoc, List.cons_append, nextKey, skipBlank_mark ha (by decide)]
    simp [hquote]

theorem nextKey_brace (first : Bool) (hw : IsBlank ws) :
    nextKey first (ws ++ '\x7d' :: rest) = .ok (.done rest) := by
  rw [nextKey, skipBlank_mark hw (by decide)]
  simp

theorem nextKey_eq_ok {n : Next} (h : nextKey first cs = .ok n) :
    (∃ ws rest, IsBlank ws ∧ cs = ws ++ '\x7d' :: rest ∧ n = .done rest) ∨
    ∃ sep rest, IsSeparator first sep ∧ cs = sep ++ '"' :: rest ∧ n = .item rest := by
  unfold nextKey at h
  split at h
  · cases h
  · rename_i c tail hb
    obtain ⟨ws, hws, hc, rfl⟩ := skipBlank_eq_cons_iff.mp hb
    split at h
    · rename_i hbrace
      exact .inl ⟨ws, tail, hws, by rw [hbrace], (Except.ok.inj h).symm⟩
    · cases first with
      | true =>
        simp only [if_true] at h
        split at h
        · rename_i hquote
          exact .inr ⟨ws, tail, hws, by rw [hquote], (Except.ok.inj h).symm⟩
        · cases h
      | false =>
        simp only [Bool.false_eq_true, if_false] at h
        split at h
        · rename_i hcomma
          subst hcomma
          split at h
          · cases h
          · rename_i d tail' hd
            obtain ⟨ws', hws', hd', rfl⟩ := skipBlank_eq_cons_iff.mp hd
            split at h
            · rename_i hquote
              exact .inr ⟨ws ++ ',' :: ws', tail', ⟨ws, ws', hws, hws', rfl⟩, by simp [hquote], (Except.ok.inj h).symm⟩
            · split at h <;> cases h
        · cases h

theorem nextKey_eq_item (h : nextKey first cs = .ok (.item rest)) :
    ∃ sep, IsSeparator first sep ∧ cs = sep ++ '"' :: rest := by
  rcases nextKey_eq_ok h with ⟨_, _, _, _, hn⟩ | ⟨sep, _, hsep, hcs, hn⟩
  · cases hn
  · obtain rfl := Next.item.inj hn
    exact ⟨sep, hsep, hcs⟩

theorem nextKey_eq_done (h : nextKey first cs = .ok (.done rest)) :
    ∃ ws, IsBlank ws ∧ cs = ws ++ '\x7d' :: rest := by
  rcases nextKey_eq_ok h with ⟨ws, _, hws, hcs, hn⟩ | ⟨_, _, _, _, hn⟩
  · obtain rfl := Next.done.inj hn
    exact ⟨ws, hws, hcs⟩
  · cases hn

theorem nextKey_blank (first : Bool) (hw : IsBlank ws) : nextKey first ws = .error .endOfObject := by
  rw [nextKey, skipBlank_eq_nil_iff.mpr hw]

theorem nextKey_cut (hsep : IsSeparator first (p ++ s)) : ∃ e, nextKey first p = .error e ∧ e.kind = .ended := by
  rcases separator_cut hsep with hp | ⟨rfl, a, b, ha, hb, rfl⟩
  · exact ⟨_, nextKey_blank first hp, rfl⟩
  · refine ⟨.endOfValue, ?_, rfl⟩
    rw [nextKey, skipBlank_mark ha (by decide)]
    simp [skipBlank_eq_nil_iff.mpr hb]

theorem expectColon_colon (hw : IsBlank ws) : expectColon (ws ++ ':' :: rest) = .ok rest := by
  rw [expectColon, skipBlank_mark hw (by decide)]
  simp

theorem expectColon_eq_ok (h : expectColon cs = .ok rest) : ∃ ws, IsBlank ws ∧ cs = ws ++ ':' :: rest := by
  unfold expectColon at h
  split at h
  · simp at h
  · rename_i c tail hb
    obtain ⟨ws, hws, hc, rfl⟩ := skipBlank_eq_cons_iff.mp hb
    split at h
    · rename_i hcolon
      rw [Except.ok.injEq] at h
      exact ⟨ws, hws, by rw [hcolon, h]⟩
    · simp at h

theorem expectColon_blank (hw : IsBlank ws) : expectColon ws = .error .endOfObject := by
  rw [expectColon, skipBlank_eq_nil_iff.mpr hw]

end PagingGate.Json
