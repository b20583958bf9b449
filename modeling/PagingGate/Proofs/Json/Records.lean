import PagingGate.Proofs.Json.Fields
import PagingGate.Proofs.Json.Readers
import PagingGate.Proofs.Json.Scan

set_option autoImplicit false

namespace PagingGate.Json

variable {σ α : Type} {slots ls : List (Slot σ)} {l : Slot σ} {r : Record σ α} {key : String} {v : Value}
  {seen : List String} {draft d : σ} {state state' : List String × σ} {fields : List (String × Value)}
  {t p s ws rest cs : List Char} {first : Bool}

def Slot.Sets (l : Slot σ) (v : Value) (f : σ → σ) : Prop := ∃ x, l.Fits v x ∧ f = l.set x

def Slot.IsReadBy (l : Slot σ) (m : Member σ) : Prop := m.key = l.key ∧ m.value.Decodes l.Sets

theorem Slot.isReadBy_mapped {l : Slot σ} {r : Reader l.β} (h : r.Decodes l.Fits) :
    l.IsReadBy ⟨l.key, r.mapped l.set⟩ := ⟨rfl, h.mapped l.set⟩

def Required {β : Type} (Fits : Value → β → Prop) (v : Value) (o : Option β) : Prop := ∃ b, o = some b ∧ Fits v b

theorem Slot.isReadBy_required {β : Type} {key : String} {get : σ → Option β} {set : Option β → σ → σ}
    {Fits : Value → β → Prop} {r : Reader β} (h : r.Decodes Fits) :
    (Slot.mk key (Option β) get set (Required Fits)).IsReadBy ⟨key, r.mapped fun b => set (some b)⟩ := by
  refine ⟨rfl, (h.mapped fun b => set (some b)).congr fun v f => ?_⟩
  constructor
  · rintro ⟨b, hb, rfl⟩
    exact ⟨some b, ⟨b, rfl, hb⟩, rfl⟩
  · rintro ⟨_, ⟨b, rfl, hb⟩, rfl⟩
    exact ⟨b, hb, rfl⟩

theorem Slot.agrees_required {β : Type} {key : String} {get : σ → Option β} {set : Option β → σ → σ}
    {Fits : Value → β → Prop} {blank d : σ} {b : β} (hblank : get blank = none) (hd : get d = some b)
    (field : Option Value) :
    (Slot.mk key (Option β) get set (Required Fits)).Agrees blank d field ↔ ∃ v, field = some v ∧ Fits v b := by
  cases field <;> simp [Agrees, Required, hblank, hd]

structure Record.HasSlots (r : Record σ α) (slots : List (Slot σ)) : Prop where
  readBy : List.Forall₂ (fun m (l : Slot σ) => l.IsReadBy m) r.members slots
  independent : Independent slots

theorem find_slot {ms : List (Member σ)} (h : List.Forall₂ (fun m (l : Slot σ) => l.IsReadBy m) ms slots)
    (key : String) :
    (∃ m, ∃ l ∈ slots, ms.find? (·.key == key) = some m ∧ l.key = key ∧ m.value.Decodes l.Sets) ∨
      (ms.find? (·.key == key) = none ∧ key ∉ slots.map Slot.key) := by
  induction h with
  | nil => exact .inr ⟨rfl, by simp⟩
  | @cons m l ms slots hm _ ih =>
    obtain ⟨hkey, hdecodes⟩ := hm
    by_cases hk : m.key = key
    · refine .inl ⟨m, l, List.mem_cons_self, ?_, hkey ▸ hk, hdecodes⟩
      rw [List.find?_cons_of_pos (by simp [hk])]
    · rw [List.find?_cons_of_neg (by simp [hk])]
      rcases ih with ⟨m', l', hl', hfind, hk', hd⟩ | ⟨hfind, hnone⟩
      · exact .inl ⟨m', l', List.mem_cons_of_mem l hl', hfind, hk', hd⟩
      · refine .inr ⟨hfind, ?_⟩
        rw [List.map_cons, List.mem_cons, not_or, ← hkey]
        exact ⟨fun heq => hk heq.symm, hnone⟩

theorem Record.HasSlots.member? (h : r.HasSlots slots) (key : String) :
    (∃ m, ∃ l ∈ slots, r.member? key = some m ∧ l.key = key ∧ m.value.Decodes l.Sets) ∨
      (r.member? key = none ∧ key ∉ slots.map Slot.key) := find_slot h.readBy key

def Reader.ignored : Reader Unit where
  read := fun cs => (skipValue cs).map ((), ·)
  shortens := by
    intro cs rest u h
    obtain ⟨ws, v, t, _, ht, rfl⟩ := skipValue_eq_ok (pair_ok h)
    obtain ⟨c, tail, rfl, _⟩ := ht.startsValue
    simp only [List.length_append, List.length_cons]
    omega

theorem Reader.ignored_decodes : Reader.ignored.Decodes fun _ _ => True where
  sound := by
    intro cs rest u h
    obtain ⟨ws, v, t, hw, ht, hcs⟩ := skipValue_eq_ok (pair_ok h)
    exact ⟨ws, v, t, hw, ht, trivial, hcs⟩
  complete := by
    intro ws v t u rest hw ht _ hr
    show (skipValue _).map _ = _
    rw [skipValue_spelled ht hw hr]
    rfl
  blank := by
    intro ws hw
    show (skipValue _).map _ = _
    rw [skipValue_blank hw]
    rfl
  cut := by
    intro ws v p s u hw ht _ _ hs
    show Interrupted _ _ _ _ ((skipValue _).map _)
    rcases skipValue_cut ht hs hw with ⟨⟨n, hn⟩, hskip⟩ | ⟨e, hskip, hbroken⟩
    · exact .inr ⟨n, (), hn, by rw [hskip]; rfl⟩
    · refine .inl ⟨e, by rw [hskip]; rfl, ?_⟩
      simpa using hbroken

/-- Behind its key a member is read by one reader, unless the key has been seen. -/
theorem Record.HasSlots.readMember_cases (h : r.HasSlots slots) (seen : List String) (draft : σ) (key : String) :
    (∃ m : Reader (List String × σ), m.Decodes (fun v state => FillsOne slots key v (seen, draft) state) ∧
      ∀ cs, r.readMember seen draft key cs = expectColon cs >>= m.read) ∨
    ((∃ e, ∀ cs, r.readMember seen draft key cs = .error e) ∧
      ∀ v state, ¬ FillsOne slots key v (seen, draft) state) := by
  rcases h.member? key with ⟨m, l, hl, hm, rfl, hdecodes⟩ | ⟨hm, hnone⟩
  · have hmem : l.key ∈ slots.map Slot.key := List.mem_map_of_mem hl
    by_cases hseen : l.key ∈ seen
    · refine .inr ⟨⟨.duplicateField l.key, fun cs => by simp only [readMember, hm, if_pos hseen]⟩, ?_⟩
      rintro v state (⟨_, _, hnot, _⟩ | hk)
      · exact hnot hseen
      · exact hk hmem
    · refine .inl ⟨m.value.mapped fun f => (l.key :: seen, f draft),
        (hdecodes.mapped _).congr fun v state => ?_, fun cs => ?_⟩
      · constructor
        · rintro ⟨f, ⟨x, hfits, rfl⟩, rfl⟩
          exact .known hl rfl hseen hfits
        · rintro (⟨hl', hk, _, hfits⟩ | hk)
          · obtain rfl := h.independent.eq_of_key hl' hl hk
            exact ⟨_, ⟨_, hfits, rfl⟩, rfl⟩
          · exact absurd hmem hk
      · simp only [readMember, hm, if_neg hseen]
        cases expectColon cs with
        | error e => rfl
        | ok cs => cases hr : m.value.read cs <;> simp [hr, Reader.mapped]
  · refine .inl ⟨Reader.ignored.mapped fun _ => (seen, draft),
      (Reader.ignored_decodes.mapped _).congr fun v state => ?_, fun cs => ?_⟩
    · constructor
      · rintro ⟨_, _, rfl⟩
        exact .other hnone
      · rintro (⟨hl, hk, _, _⟩ | _)
        · exact absurd (hk ▸ List.mem_map_of_mem hl) hnone
        · exact ⟨(), trivial, rfl⟩
    · simp only [readMember, hm]
      cases expectColon cs with
      | error e => rfl
      | ok cs => cases hr : skipValue cs <;> simp [hr, Reader.mapped, Reader.ignored]

def AfterKey (v : Value) (w : List Char) : Prop :=
  ∃ a b t, IsBlank a ∧ IsBlank b ∧ Spells (.value v) t ∧ w = a ++ ':' :: (b ++ t)

theorem Record.HasSlots.readMember_sound (h : r.HasSlots slots)
    (hr : r.readMember seen draft key cs = .ok (state', rest)) :
    ∃ v w, AfterKey v w ∧ FillsOne slots key v (seen, draft) state' ∧ cs = w ++ rest := by
  rcases h.readMember_cases seen draft key with ⟨m, hm, heq⟩ | ⟨⟨e, he⟩, _⟩
  · rw [heq] at hr
    obtain ⟨_, hcolon, hread⟩ := Except.bind_eq_ok.mp hr
    obtain ⟨a, ha, rfl⟩ := expectColon_eq_ok hcolon
    obtain ⟨b, v, t, hb, ht, hone, rfl⟩ := hm.sound hread
    exact ⟨v, _, ⟨a, b, t, ha, hb, ht, rfl⟩, hone, by simp⟩
  · simp [he cs] at hr

theorem Record.HasSlots.readMember_complete (h : r.HasSlots slots) {w : List Char} (hw : AfterKey v w)
    (hone : FillsOne slots key v (seen, draft) state') (hr : Stops rest) :
    r.readMember seen draft key (w ++ rest) = .ok (state', rest) := by
  rcases h.readMember_cases seen draft key with ⟨m, hm, heq⟩ | ⟨_, hnone⟩
  · obtain ⟨a, b, t, ha, hb, ht, rfl⟩ := hw
    rw [heq, List.append_assoc, List.cons_append, List.append_assoc, expectColon_colon ha]
    exact hm.complete hb ht hone hr
  · exact absurd hone (hnone v state')

theorem Record.HasSlots.readMember_cut (h : r.HasSlots slots) (hw : AfterKey v (p ++ s))
    (hone : FillsOne slots key v (seen, draft) state') (hs : s ≠ []) :
    (∃ e, r.readMember seen draft key p = .error e ∧
      Broken (fun w => ∃ v, AfterKey v w ∧ FillsOne slots key v (seen, draft) state') p s e) ∨
    ∃ state'', r.readMember seen draft key p = .ok (state'', []) := by
  rcases h.readMember_cases seen draft key with ⟨m, hm, heq⟩ | ⟨_, hnone⟩
  · obtain ⟨a, b, t, ha, hb, ht, htext⟩ := hw
    have hblank : IsBlank p → r.readMember seen draft key p = .error .endOfObject := by
      intro hp
      rw [heq, expectColon_blank hp]
      rfl
    rcases cut_in_or_beyond htext.symm with ⟨s', rfl⟩ | ⟨p1, hp1, rfl, h1⟩
    · exact .inl ⟨_, hblank (isBlank_append.mp ha).1, .of_ended rfl⟩
    obtain ⟨p2, rfl, h2⟩ := (List.cons_eq_append_iff.mp h1).resolve_left fun h0 => hp1 h0.1
    rw [heq, expectColon_colon ha]
    rcases cut_cases h2 with ⟨s', _, rfl, _⟩ | ⟨p3, rfl, rfl⟩
    · exact .inl ⟨_, hm.blank (isBlank_append.mp hb).1, .of_ended rfl⟩
    · rcases hm.interrupted hb ht hone hs with ⟨e, hread, hbroken⟩ | ⟨_, state'', _, hread⟩
      · refine .inl ⟨e, hread, ?_⟩
        rw [← List.cons_append, ← List.append_assoc]
        refine hbroken.behind ?_
        rintro t ⟨v, ht, hone⟩
        exact ⟨v, ⟨a, b, t, ha, hb, ht, by rw [List.append_assoc, List.cons_append]⟩, hone⟩
      · exact .inr ⟨state'', hread⟩
  · exact absurd hone (hnone v state')

theorem Spells.member_afterKey {sep w u : List Char} {k : List Piece} {ms : List (List Piece × Value)}
    (hsep : IsSeparator first sep) (hw : AfterKey v w) (hu : Spells (.members false ms) u) :
    Spells (.members first ((k, v) :: ms)) (sep ++ (quoted k ++ (w ++ u))) := by
  obtain ⟨a, b, t, ha, hb, ht, rfl⟩ := hw
  have hmember : Spells (.members first ((k, v) :: ms)) _ := .member hsep ha hb ht hu
  simpa only [List.append_assoc, List.cons_append] using hmember

theorem Record.readMembers_error {e : Error} (h : nextKey first cs = .error e) :
    r.readMembers first seen draft cs = .error e := by
  rw [readMembers]
  split <;> simp_all

theorem Record.readMembers_done (h : nextKey first cs = .ok (.done rest)) :
    r.readMembers first seen draft cs = .ok (draft, rest) := by
  rw [readMembers]
  split <;> simp_all

theorem Record.readMembers_next (h : nextKey first cs = .ok (.item rest)) : r.readMembers first seen draft cs =
    readString rest >>= fun (k, rest) => r.readMember seen draft (String.ofList k) rest >>= fun (state, rest) =>
      r.readMembers false state.1 state.2 rest := by
  rw [readMembers]
  split
  · simp_all
  · simp_all
  · rename_i rest1 hn
    rw [h, Except.ok.injEq, Next.item.injEq] at hn
    subst hn
    split
    · rename_i e hs
      rw [hs]
      rfl
    · rename_i k rest2 hs
      rw [hs]
      change _ = r.readMember seen draft (String.ofList k) rest2 >>= _
      split
      · rename_i e hm
        rw [hm]
        rfl
      · rename_i seen' draft' rest3 hm
        rw [hm]
        rfl

theorem Record.readMembers_item {k rest' : List Char} (h : nextKey first cs = .ok (.item rest))
    (hk : readString rest = .ok (k, rest')) : r.readMembers first seen draft cs =
      r.readMember seen draft (String.ofList k) rest' >>= fun (state, rest) =>
        r.readMembers false state.1 state.2 rest := by
  rw [readMembers_next h, hk]
  rfl

theorem Record.readMembers_blank (r : Record σ α) (first : Bool) (seen : List String) (draft : σ)
    (hw : IsBlank ws) : r.readMembers first seen draft ws = .error .endOfObject :=
  readMembers_error (nextKey_blank first hw)

theorem Record.readMembers_key_error {e : Error} (h : nextKey first cs = .ok (.item rest))
    (hk : readString rest = .error e) : r.readMembers first seen draft cs = .error e := by
  rw [readMembers_next h, hk]
  rfl

theorem Record.HasSlots.readMembers_sound (h : r.HasSlots slots)
    (hr : r.readMembers first seen draft cs = .ok (d, rest)) : ∃ ms fields t, Spells (.members first ms) t ∧
      Named ms fields ∧ Fills slots (seen, draft) fields d ∧ cs = t ++ rest := by
  fun_induction Record.readMembers r first seen draft cs with
  | case1 => simp at hr
  | case2 first seen draft cs rest' hn =>
    simp only [Except.ok.injEq, Prod.mk.injEq] at hr
    obtain ⟨rfl, rfl⟩ := hr
    obtain ⟨ws, hw, rfl⟩ := nextKey_eq_done hn
    exact ⟨[], [], ws ++ ['\x7d'], .noMember hw, .nil, .nil, by simp⟩
  | case3 => simp at hr
  | case4 => simp at hr
  | case5 first seen draft cs rest1 hn k rest2 hs rest3 seen' draft' hm ih =>
    obtain ⟨sep, hsep, rfl⟩ := nextKey_eq_item hn
    obtain ⟨key, rfl, hkey⟩ := readString_eq_ok hs
    obtain ⟨v, w, hw, hone, rfl⟩ := h.readMember_sound hm
    obtain ⟨ms, fields, u, hu, hnamed, hfills, rfl⟩ := ih hr
    refine ⟨(key, v) :: ms, (String.ofList k, v) :: fields, _, .member_afterKey hsep hw hu,
      .cons ⟨by rwa [String.toList_ofList], rfl⟩ hnamed, .cons hone hfills, ?_⟩
    simp [quoted]

theorem Record.HasSlots.readMembers_complete (h : r.HasSlots slots) {ms : List (List Piece × Value)}
    (hfills : Fills slots state fields d) (hnamed : Named ms fields) (ht : Spells (.members first ms) t)
    (rest : List Char) : r.readMembers first state.1 state.2 (t ++ rest) = .ok (d, rest) := by
  induction hfills generalizing ms first t with
  | nil =>
    cases hnamed
    cases ht with
    | noMember hw =>
      refine readMembers_done ?_
      rw [List.append_assoc]
      exact nextKey_brace first hw
  | @cons state state' key v fields d hone hrest ih =>
    obtain ⟨seen, draft⟩ := state
    obtain _ | ⟨⟨hkey, hv⟩, hnamed⟩ := hnamed
    cases ht with
    | @member _ sep k a b v' t ms u hsep ha hb ht hu =>
      obtain rfl : v' = v := hv
      have hafter : AfterKey v' (a ++ ':' :: (b ++ t)) := ⟨a, b, t, ha, hb, ht, rfl⟩
      have hmember := h.readMember_complete hafter hone (hu.stops_members rest)
      have htext : sep ++ (quoted k ++ (a ++ ':' :: (b ++ (t ++ u)))) ++ rest =
          sep ++ '"' :: (unquoted k ++ ((a ++ ':' :: (b ++ t)) ++ (u ++ rest))) := by simp [quoted]
      rw [htext, readMembers_item (nextKey_separator hsep) (readString_unquoted hkey _), String.ofList_toList,
        hmember]
      exact ih hnamed hu

theorem Record.HasSlots.readMembers_cut (h : r.HasSlots slots) {ms : List (List Piece × Value)}
    (hfills : Fills slots state fields d) (hnamed : Named ms fields) (ht : Spells (.members first ms) (p ++ s))
    (hs : s ≠ []) : ∃ e, r.readMembers first state.1 state.2 p = .error e ∧
      Broken (fun t => ∃ ms fields, Spells (.members first ms) t ∧ Named ms fields ∧ Fills slots state fields d)
        p s e := by
  induction hfills generalizing ms first p with
  | nil =>
    cases hnamed
    generalize hps : p ++ s = t at ht
    cases ht with
    | noMember hw => exact ⟨_, r.readMembers_blank first _ _ (isBlank_of_cut hw hps.symm hs), .of_ended rfl⟩
  | @cons state state' key v fields d hone hfills ih =>
    obtain ⟨seen, draft⟩ := state
    obtain _ | @⟨m, _, ms, _, ⟨hkey, hv⟩, hnamed⟩ := hnamed
    generalize hps : p ++ s = text at ht
    cases ht with
    | @member _ sep k a b v' t ms u hsep ha hb ht hu =>
      obtain rfl : v' = v := hv
      have hafter : AfterKey v' (a ++ ':' :: (b ++ t)) := ⟨a, b, t, ha, hb, ht, rfl⟩
      have htext : sep ++ (quoted k ++ (a ++ ':' :: (b ++ (t ++ u)))) =
          sep ++ '"' :: (unquoted k ++ ((a ++ ':' :: (b ++ t)) ++ u)) := by simp [quoted]
      rw [htext] at hps
      generalize a ++ ':' :: (b ++ t) = w at hps hafter
      rcases cut_in_or_beyond hps.symm with ⟨s', rfl⟩ | ⟨p1, hp1, rfl, h1⟩
      · obtain ⟨e, he, hended⟩ := nextKey_cut hsep
        exact ⟨e, readMembers_error he, .of_ended hended⟩
      obtain ⟨p2, rfl, h2⟩ := (List.cons_eq_append_iff.mp h1).resolve_left fun h0 => hp1 h0.1
      have hnext : nextKey first (sep ++ '"' :: p2) = .ok (.item p2) := nextKey_separator hsep
      rcases cut_cases h2 with ⟨s', hs', hk, _⟩ | ⟨p3, rfl, h3⟩
      · exact ⟨_, readMembers_key_error hnext (readString_cut hkey hk hs'), .of_ended rfl⟩
      rw [readMembers_item hnext (readString_unquoted hkey p3), String.ofList_toList]
      rcases cut_cases h3 with ⟨s', hs', rfl, rfl⟩ | ⟨p4, rfl, h4⟩
      · rcases h.readMember_cut hafter hone hs' with ⟨e, hmember, hbroken⟩ | ⟨state'', hmember⟩
        · refine ⟨e, by rw [hmember]; rfl, ?_⟩
          rw [← quoted_append, ← List.append_assoc]
          refine hbroken.within ?_
          rintro w ⟨v, hw, hone⟩
          rw [List.append_assoc]
          exact ⟨(k, v) :: ms, (key, v) :: fields, .member_afterKey hsep hw hu, .cons ⟨hkey, rfl⟩ hnamed,
            .cons hone hfills⟩
        · rw [hmember]
          exact ⟨_, r.readMembers_blank false _ _ isBlank_nil, .of_ended rfl⟩
      · rw [h.readMember_complete hafter hone (.front hu.stops_members h4)]
        obtain ⟨e, hmembers, hbroken⟩ := ih (p := p4) hnamed (h4 ▸ hu)
        refine ⟨e, hmembers, ?_⟩
        rw [← quoted_append, ← List.append_assoc, ← List.append_assoc]
        refine hbroken.behind ?_
        rintro u ⟨ms, fields, hu, hnamed, hfills⟩
        rw [List.append_assoc, List.append_assoc]
        exact ⟨(k, v') :: ms, (key, v') :: fields, .member_afterKey hsep hafter hu, .cons ⟨hkey, rfl⟩ hnamed,
          .cons hone hfills⟩

section
variable {ms : List (Member σ)} {m : Member σ} {index : Nat} {vs : List Value}

theorem Record.readFields_item (h : nextItem (index == 0) cs = .ok (.item rest)) :
    r.readFields index draft (m :: ms) cs = m.value.read rest >>= fun (f, rest) =>
      r.readFields (index + 1) (f draft) ms rest := by
  rw [readFields, h]
  rfl

theorem Record.readFields_error {e : Error} (h : nextItem (index == 0) cs = .error e) :
    r.readFields index draft (m :: ms) cs = .error e := by
  rw [readFields, h]
  rfl

theorem Record.readFields_blank (r : Record σ α) (index : Nat) (draft : σ) (ms : List (Member σ))
    (hw : IsBlank ws) : r.readFields index draft ms ws = .error .endOfList := by
  cases ms with
  | nil =>
    rw [readFields, expectListEnd_blank hw]
    rfl
  | cons m ms => exact readFields_error (nextItem_blank _ hw)

theorem Record.readFields_sound
    (hms : List.Forall₂ (fun m (l : Slot σ) => l.IsReadBy m) ms ls) (hls : ∀ l ∈ ls, l ∈ slots ∧ l.key ∉ seen)
    (hkeys : (ls.map Slot.key).Nodup) (hr : r.readFields index draft ms cs = .ok (d, rest)) :
    ∃ vs t, Spells (.items (index == 0) vs) t ∧ vs.length = (ls.map Slot.key).length ∧
      Fills slots (seen, draft) ((ls.map Slot.key).zip vs) d ∧ cs = t ++ rest := by
  induction hms generalizing index seen draft cs with
  | nil =>
    rw [Record.readFields] at hr
    obtain ⟨ws, hw, rfl⟩ := expectListEnd_eq_ok (pair_ok hr)
    rw [expectListEnd_bracket hw] at hr
    simp only [Except.ok_map, Except.ok.injEq, Prod.mk.injEq, and_true] at hr
    exact ⟨[], ws ++ [']'], .noItem hw, rfl, hr ▸ .nil, by simp⟩
  | @cons m l ms ls hm _ ih =>
    obtain ⟨next, hn, hbehind⟩ := Except.bind_eq_ok.mp hr
    cases next with
    | done => simp at hbehind
    | item behind =>
      obtain ⟨⟨f, behind'⟩, hv, hfields⟩ := Except.bind_eq_ok.mp hbehind
      obtain ⟨sep, hsep, rfl⟩ := nextItem_eq_item hn
      obtain ⟨ws, v, t, hw, ht, ⟨x, hfits, rfl⟩, rfl⟩ := hm.2.sound hv
      obtain ⟨hl, hseen⟩ := hls l List.mem_cons_self
      rw [List.map_cons, List.nodup_cons] at hkeys
      have hrest : ∀ l' ∈ ls, l' ∈ slots ∧ l'.key ∉ l.key :: seen := by
        intro l' hl'
        obtain ⟨hmem, hnot⟩ := hls l' (List.mem_cons_of_mem l hl')
        rw [List.mem_cons, not_or]
        exact ⟨hmem, fun heq => hkeys.1 (heq ▸ List.mem_map_of_mem hl'), hnot⟩
      obtain ⟨vs, u, hu, hlen, hfills, rfl⟩ := ih hrest hkeys.2 hfields
      exact ⟨v :: vs, _, .item (hsep.append_blank hw) ht hu, by simp [hlen],
        .cons (.known hl rfl hseen hfits) hfills, by simp⟩

theorem Fills.slot (hind : Independent slots) (hl : l ∈ slots)
    (h : Fills slots (seen, draft) ((l.key, v) :: fields) d) :
    l.key ∉ seen ∧ ∃ x, l.Fits v x ∧ Fills slots (l.key :: seen, l.set x draft) fields d := by
  obtain _ | ⟨hone, hrest⟩ := h
  cases hone with
  | known hl' hk hseen hfits =>
    obtain rfl := hind.eq_of_key hl' hl hk
    exact ⟨hseen, _, hfits, hrest⟩
  | other hk => exact absurd (List.mem_map_of_mem hl) hk

theorem Record.HasSlots.readFields_complete (h : r.HasSlots slots)
    (hms : List.Forall₂ (fun m (l : Slot σ) => l.IsReadBy m) ms ls) (hls : ∀ l ∈ ls, l ∈ slots)
    (hlen : vs.length = (ls.map Slot.key).length)
    (hfills : Fills slots (seen, draft) ((ls.map Slot.key).zip vs) d)
    (ht : Spells (.items (index == 0) vs) t) (rest : List Char) :
    r.readFields index draft ms (t ++ rest) = .ok (d, rest) := by
  induction hms generalizing index seen draft vs t with
  | nil =>
    obtain rfl := List.length_eq_zero_iff.mp hlen
    cases hfills
    cases ht with
    | noItem hw =>
      rw [readFields, List.append_assoc, List.singleton_append, expectListEnd_bracket hw]
      rfl
  | @cons m l ms ls hm _ ih =>
    cases ht with
    | noItem => simp at hlen
    | @item _ sep v t vs u hsep ht hu =>
      obtain ⟨_, x, hfits, hrest⟩ := hfills.slot h.independent (hls l List.mem_cons_self)
      have hread := hm.2.complete isBlank_nil ht ⟨x, hfits, rfl⟩ (hu.stops_items rest)
      rw [List.nil_append] at hread
      rw [List.append_assoc, List.append_assoc,
        readFields_item (nextItem_separator hsep (ht.startsValue.append (u ++ rest))), hread]
      exact ih (fun l' hl' => hls l' (List.mem_cons_of_mem l hl')) (by simpa using hlen) hrest hu

theorem Record.HasSlots.readFields_cut (h : r.HasSlots slots)
    (hms : List.Forall₂ (fun m (l : Slot σ) => l.IsReadBy m) ms ls) (hls : ∀ l ∈ ls, l ∈ slots)
    (hlen : vs.length = (ls.map Slot.key).length)
    (hfills : Fills slots (seen, draft) ((ls.map Slot.key).zip vs) d)
    (ht : Spells (.items (index == 0) vs) (p ++ s)) (hs : s ≠ []) :
    ∃ e, r.readFields index draft ms p = .error e ∧
      Broken (fun t => ∃ vs, Spells (.items (index == 0) vs) t ∧ vs.length = (ls.map Slot.key).length ∧
        Fills slots (seen, draft) ((ls.map Slot.key).zip vs) d) p s e := by
  induction hms generalizing index seen draft vs p with
  | nil =>
    obtain rfl := List.length_eq_zero_iff.mp hlen
    generalize hps : p ++ s = t at ht
    cases ht with
    | noItem hw => exact ⟨_, r.readFields_blank index draft [] (isBlank_of_cut hw hps.symm hs), .of_ended rfl⟩
  | @cons m l ms ls hm _ ih =>
    generalize hps : p ++ s = text at ht
    cases ht with
    | noItem => simp at hlen
    | @item _ sep v t vs u hsep ht hu =>
      obtain ⟨hseen, x, hfits, hrest⟩ := hfills.slot h.independent (hls l List.mem_cons_self)
      have hlen' : vs.length = (ls.map Slot.key).length := by simpa using hlen
      have hl := hls l List.mem_cons_self
      rcases cut_in_or_beyond hps.symm with ⟨s', rfl⟩ | ⟨p1, hp1, rfl, h1⟩
      · obtain ⟨e, he, hended⟩ := nextItem_cut hsep
        exact ⟨e, readFields_error he, .of_ended hended⟩
      rw [readFields_item (nextItem_separator hsep (ht.startsValue.of_append h1 hp1))]
      rcases cut_cases h1 with ⟨s', hs', rfl, rfl⟩ | ⟨p2, rfl, h2⟩
      · rcases hm.2.interrupted isBlank_nil ht ⟨x, hfits, rfl⟩ hs' with ⟨e, hread, hbroken⟩ | ⟨n, f, _, hread⟩ <;>
          rw [List.nil_append] at hread <;> rw [hread]
        · refine ⟨e, rfl, hbroken.within ?_⟩
          rintro t ⟨v, ht, y, hfits', hset⟩
          exact ⟨v :: vs, .item hsep ht hu, by simp [hlen'], .cons (.known hl rfl hseen hfits') (hset ▸ hrest)⟩
        · exact ⟨_, r.readFields_blank _ _ ms isBlank_nil, .of_ended rfl⟩
      · have hread := hm.2.complete isBlank_nil ht ⟨x, hfits, rfl⟩ (.front hu.stops_items h2)
        rw [List.nil_append] at hread
        have hu' : Spells (.items (index + 1 == 0) vs) (p2 ++ s) := h2 ▸ hu
        obtain ⟨e, hfields, hbroken⟩ := ih (fun l' hl' => hls l' (List.mem_cons_of_mem l hl')) hlen' hrest hu'
        rw [hread]
        refine ⟨e, hfields, ?_⟩
        rw [← List.append_assoc]
        refine hbroken.behind ?_
        rintro u ⟨vs, hu, hlen, hfills⟩
        rw [List.append_assoc]
        exact ⟨v :: vs, .item hsep ht hu, by simpa using hlen, .cons (.known hl rfl hseen hfits) hfills⟩

end

/-- The fields of the value agree with the answer. -/
def Record.Shape (r : Record σ α) (slots : List (Slot σ)) (v : Value) (a : α) : Prop :=
  ∃ fields d, IsRecord (slots.map Slot.key) v fields ∧ (∀ l ∈ slots, l.Agrees r.blank d (fields.lookup l.key)) ∧
    r.finish d = .ok a

theorem Record.complete_eq_ok {a : α} : r.complete d = .ok a ↔ r.finish d = .ok a := by
  rw [Record.complete]
  split <;> simp_all

theorem Record.read_bracket (r : Record σ α) (hw : IsBlank ws) (cs : List Char) : r.read (ws ++ '[' :: cs) =
    r.readFields 0 r.blank r.members cs >>= fun (draft, rest) => (r.complete draft).map (·, rest) := by
  rw [read, skipBlank_mark hw (by decide)]
  simp only [if_true]
  cases r.readFields 0 r.blank r.members cs with
  | error e => rfl
  | ok x => cases hc : r.complete x.1 <;> simp [hc]

theorem Record.read_brace (r : Record σ α) (hw : IsBlank ws) (cs : List Char) : r.read (ws ++ '\x7b' :: cs) =
    r.readMembers true [] r.blank cs >>= fun (draft, rest) => (r.complete draft).map (·, rest) := by
  have hne : '\x7b' ≠ '[' := by decide
  rw [read, skipBlank_mark hw (by decide)]
  simp only [if_neg hne, if_true]
  cases r.readMembers true [] r.blank cs with
  | error e => rfl
  | ok x => cases hc : r.complete x.1 <;> simp [hc]

theorem Record.complete_of_bind {a : α} {result : Except Error (σ × List Char)}
    (h : (result >>= fun (draft, rest) => (r.complete draft).map (·, rest)) = .ok (a, rest)) :
    ∃ d, result = .ok (d, rest) ∧ r.finish d = .ok a := by
  obtain ⟨⟨d, _⟩, hresult, h⟩ := Except.bind_eq_ok.mp h
  obtain ⟨_, hc, h⟩ := Except.map_eq_ok.mp h
  obtain ⟨rfl, rfl⟩ := Prod.mk.inj h
  exact ⟨d, hresult, complete_eq_ok.mp hc⟩

theorem Record.HasSlots.shape_list (h : r.HasSlots slots) {vs : List Value} {a : α}
    (hlen : vs.length = (slots.map Slot.key).length)
    (hfills : Fills slots ([], r.blank) ((slots.map Slot.key).zip vs) d) (hfinish : r.finish d = .ok a) :
    r.Shape slots (.list vs) a :=
  ⟨_, d, .list hlen, ((fills_iff_agrees h.independent).mp hfills).2, hfinish⟩

theorem Record.HasSlots.shape_object (h : r.HasSlots slots) {ms : List (List Piece × Value)} {a : α}
    (hnamed : Named ms fields) (hfills : Fills slots ([], r.blank) fields d) (hfinish : r.finish d = .ok a) :
    r.Shape slots (.object ms) a := by
  obtain ⟨hcount, hagrees⟩ := (fills_iff_agrees h.independent).mp hfills
  exact ⟨fields, d, .object hnamed hcount, hagrees, hfinish⟩

theorem Record.HasSlots.decodes (h : r.HasSlots slots) : r.reader.Decodes (r.Shape slots) where
  sound := by
    intro cs rest a hr
    replace hr : r.read cs = .ok (a, rest) := hr
    cases hb : skipBlank cs with
    | nil => simp [Record.read, hb] at hr
    | cons c tail =>
      obtain ⟨ws, hw, _, rfl⟩ := skipBlank_eq_cons_iff.mp hb
      by_cases hbracket : c = '['
      · subst hbracket
        rw [r.read_bracket hw] at hr
        obtain ⟨d, hfields, hfinish⟩ := complete_of_bind hr
        obtain ⟨vs, t, ht, hlen, hfills, rfl⟩ := Record.readFields_sound h.readBy (fun l hl => ⟨hl, List.not_mem_nil⟩)
          h.independent.distinct hfields
        exact ⟨ws, .list vs, '[' :: t, hw, .list ht, h.shape_list hlen hfills hfinish, rfl⟩
      · by_cases hbrace : c = '\x7b'
        · subst hbrace
          rw [r.read_brace hw] at hr
          obtain ⟨d, hmembers, hfinish⟩ := complete_of_bind hr
          obtain ⟨ms, fields, t, ht, hnamed, hfills, rfl⟩ := h.readMembers_sound hmembers
          exact ⟨ws, .object ms, '\x7b' :: t, hw, .object ht, h.shape_object hnamed hfills hfinish, rfl⟩
        · simp [Record.read, hb, hbracket, hbrace] at hr
  complete := by
    rintro ws v t a rest hw ht ⟨fields, d, hrecord, hagrees, hfinish⟩ _
    have hfills := hrecord.fills h.independent hagrees
    have hcomplete := complete_eq_ok.mpr hfinish
    show r.read _ = _
    cases hrecord with
    | @list vs hlen =>
      cases ht with
      | @list _ t ht =>
        have ht' : Spells (.items ((0 : Nat) == 0) vs) t := ht
        have hread := h.readFields_complete h.readBy (fun l hl => hl) hlen hfills ht' rest
        rw [List.cons_append, r.read_bracket hw, hread]
        simp only [Except.ok_bind, hcomplete]
        rfl
    | object hnamed _ =>
      cases ht with
      | @object _ t ht =>
        have hread := h.readMembers_complete hfills hnamed ht rest
        rw [List.cons_append, r.read_brace hw, hread]
        simp only [Except.ok_bind, hcomplete]
        rfl
  blank := by
    intro ws hw
    show r.read ws = _
    rw [Record.read, skipBlank_eq_nil_iff.mpr hw]
  cut := by
    rintro ws v p s a hw ht ⟨fields, d, hrecord, hagrees, hfinish⟩ hp hs
    have hfills := hrecord.fills h.independent hagrees
    obtain ⟨c, p, rfl⟩ := List.exists_cons_of_ne_nil hp
    refine .inl ?_
    show ∃ e, r.read _ = _ ∧ _
    generalize hps : c :: p ++ s = text at ht
    cases hrecord with
    | @list vs hlen =>
      cases ht with
      | @list _ t ht =>
        obtain ⟨rfl, rfl⟩ := List.cons.inj hps
        have ht' : Spells (.items ((0 : Nat) == 0) vs) (p ++ s) := ht
        obtain ⟨e, he, hbroken⟩ := h.readFields_cut h.readBy (fun l hl => hl) hlen hfills ht' hs
        refine ⟨e, by rw [r.read_bracket hw, he]; rfl, hbroken.behind (a := ['[']) ?_⟩
        rintro t ⟨vs, ht, hlen, hfills⟩
        exact ⟨.list vs, .list ht, h.shape_list hlen hfills hfinish⟩
    | object hnamed hcount =>
      cases ht with
      | @object _ t ht =>
        obtain ⟨rfl, rfl⟩ := List.cons.inj hps
        obtain ⟨e, he, hbroken⟩ := h.readMembers_cut hfills hnamed ht hs
        refine ⟨e, by rw [r.read_brace hw, he]; rfl, hbroken.behind (a := ['\x7b']) ?_⟩
        rintro t ⟨ms, fields, ht, hnamed, hfills⟩
        exact ⟨.object ms, .object ht, h.shape_object hnamed hfills hfinish⟩

theorem Record.HasSlots.decodes_draft {r : Record σ σ} {slots : List (Slot σ)} (h : r.HasSlots slots)
    (hfinish : r.finish = .ok) : r.reader.Decodes fun v d =>
      ∃ fields, IsRecord (slots.map Slot.key) v fields ∧
        ∀ l ∈ slots, l.Agrees r.blank d (fields.lookup l.key) := by
  refine h.decodes.congr fun v d => ?_
  constructor
  · rintro ⟨fields, d', hrecord, hagrees, hd⟩
    rw [hfinish, Except.ok.injEq] at hd
    exact ⟨fields, hrecord, hd ▸ hagrees⟩
  · rintro ⟨fields, hrecord, hagrees⟩
    exact ⟨fields, d, hrecord, hagrees, by rw [hfinish]⟩

end PagingGate.Json
