import PagingGate.Proofs.CommandLine.Layers
import PagingGate.Proofs.Toml.Statements

set_option autoImplicit false

namespace PagingGate

open Toml (Assignment Flat Statement Table Value dotted plain)

namespace Knob

def settingsKey : Knob → String
  | maxPercent => Settings.maxPercentKey
  | minBytes => Settings.minBytesKey

def put (c : ThresholdChoice) (x : Option Float) : Knob → ThresholdChoice
  | maxPercent => { c with maxPercent := x }
  | minBytes => { c with minBytes := x }

theorem settingsKey_injective {k j : Knob} (h : k.settingsKey = j.settingsKey) : k = j := by
  revert h
  cases k <;> cases j <;> decide

@[simp] theorem chosen_put (c : ThresholdChoice) (x : Option Float) (k j : Knob) :
    chosen (put c x k) j = if j = k then x else chosen c j := by
  cases k <;> cases j <;> rfl

theorem chosen_ext {c d : ThresholdChoice} (h : ∀ k, chosen c k = chosen d k) : c = d := by
  obtain ⟨x, y⟩ := c
  obtain rfl : x = d.maxPercent := h maxPercent
  obtain rfl : y = d.minBytes := h minBytes
  rfl

end Knob

namespace Settings

abbrev Setting := Knob × Value

def Setting.member (s : Setting) : String × Value := (s.1.settingsKey, s.2)

/-- Each setting is chosen, and nothing else is. -/
structure Reports (settings : List Setting) (c : ThresholdChoice) : Prop where
  distinct : (settings.map Prod.fst).Nodup
  reported : ∀ s ∈ settings, ∃ x, number s.2 = .ok x ∧ s.1.chosen c = some x
  others : ∀ k, k ∉ settings.map Prod.fst → k.chosen c = none

/-- The statements of a document hold these settings, and `surplus` in an array behind them. -/
inductive Holds : List Statement → List Setting → List Value → Prop where
  | nothing : Holds [] [] []
  | header (settings : List Setting) :
      Holds (.header .table ⟨[], thresholdsKey⟩ :: settings.map fun s => .assignment (plain s.member)) settings []
  | dotted (settings : List Setting) : settings ≠ [] →
      Holds (settings.map fun s => .assignment (dotted thresholdsKey s.member)) settings []
  | braces (settings : List Setting) :
      Holds [.assignment (plain (thresholdsKey, .table .inline (settings.map Setting.member)))] settings []
  | array (a b : Value) (surplus : List Value) :
      Holds [.assignment (plain (thresholdsKey, .array (a :: b :: surplus)))] [(.maxPercent, a), (.minBytes, b)] surplus

variable {c c' : ThresholdChoice} {settings : List Setting} {members : Table} {v : Value}

theorem keys_members (settings : List Setting) :
    (settings.map Setting.member).map Prod.fst = (settings.map Prod.fst).map Knob.settingsKey := by
  rw [List.map_map, List.map_map]
  rfl

theorem nodup_members : ((settings.map Setting.member).map Prod.fst).Nodup ↔ (settings.map Prod.fst).Nodup := by
  rw [keys_members]
  exact List.nodup_map_iff fun _ _ => Knob.settingsKey_injective

theorem not_table_of_number {x : Float} (h : number v = .ok x) : v.isTable = false := by
  cases v with
  | table origin members => cases h
  | tables items => cases h
  | _ => rfl

theorem Reports.flat (h : Reports settings c) : Flat (settings.map Setting.member) := by
  intro m hm
  obtain ⟨s, hs, rfl⟩ := List.mem_map.mp hm
  obtain ⟨x, hx, _⟩ := h.reported s hs
  exact not_table_of_number hx

theorem reports_nil_iff : Reports [] c ↔ c = ⟨none, none⟩ := by
  constructor
  · intro h
    exact Knob.chosen_ext fun k => (h.others k List.not_mem_nil).trans (by cases k <;> rfl)
  · rintro rfl
    exact ⟨List.nodup_nil, fun _ hs => absurd hs List.not_mem_nil, fun k _ => by cases k <;> rfl⟩

theorem reports_concat_iff {k : Knob} : Reports (settings ++ [(k, v)]) c' ↔
    k ∉ settings.map Prod.fst ∧ ∃ c x, Reports settings c ∧ number v = .ok x ∧ c' = k.put c (some x) := by
  have hdistinct : ((settings ++ [(k, v)]).map Prod.fst).Nodup ↔
      k ∉ settings.map Prod.fst ∧ (settings.map Prod.fst).Nodup := by
    rw [List.map_append, List.map_singleton, ← List.concat_eq_append, List.nodup_concat]
  have hother : k ∉ settings.map Prod.fst → ∀ s ∈ settings, s.1 ≠ k := by
    rintro hk s hs rfl
    exact hk (List.mem_map_of_mem hs)
  constructor
  · intro h
    obtain ⟨hk, hnodup⟩ := hdistinct.mp h.distinct
    obtain ⟨x, hx, hchosen⟩ := h.reported (k, v) (List.mem_append_right _ List.mem_cons_self)
    refine ⟨hk, k.put c' none, x, ⟨hnodup, fun s hs => ?_, fun j hj => ?_⟩, hx, Knob.chosen_ext fun j => ?_⟩
    · rw [Knob.chosen_put, if_neg (hother hk s hs)]
      exact h.reported s (List.mem_append_left _ hs)
    · rw [Knob.chosen_put]
      split
      · rfl
      · rename_i hne
        exact h.others j (by simp_all)
    · rw [Knob.chosen_put, Knob.chosen_put]
      split
      · rename_i hj
        rw [hj, hchosen]
      · rfl
  · rintro ⟨hk, c, x, h, hx, rfl⟩
    refine ⟨hdistinct.mpr ⟨hk, h.distinct⟩, fun s hs => ?_, fun j hj => ?_⟩
    · rcases List.mem_append.mp hs with hs | hs
      · rw [Knob.chosen_put, if_neg (hother hk s hs)]
        exact h.reported s hs
      · obtain rfl := List.mem_singleton.mp hs
        exact ⟨x, hx, by rw [Knob.chosen_put, if_pos rfl]⟩
    · rw [List.map_append, List.mem_append, not_or] at hj
      rw [Knob.chosen_put, if_neg (by simpa using hj.2)]
      exact h.others j hj.1

theorem addMember_eq_ok_iff {m : String × Value} : addMember c m = .ok c' ↔
    ∃ k x, m.1 = Knob.settingsKey k ∧ number m.2 = .ok x ∧ c' = k.put c (some x) := by
  have hput : ∀ k : Knob, (number m.2).map (fun x => k.put c (some x)) = .ok c' ↔
      ∃ x, number m.2 = .ok x ∧ c' = k.put c (some x) := by
    intro k
    simp only [Except.map_eq_ok, eq_comm (a := c')]
  have hdef : addMember c m =
      if m.1 = Knob.settingsKey .maxPercent then (number m.2).map fun x => Knob.put c (some x) .maxPercent
      else if m.1 = Knob.settingsKey .minBytes then (number m.2).map fun x => Knob.put c (some x) .minBytes
      else .error (.unknownField m.1 [maxPercentKey, minBytesKey]) := by
    unfold addMember
    cases number m.2 <;> rfl
  rw [hdef]
  constructor
  · intro h
    split_ifs at h with hmax hmin
    · obtain ⟨x, hx⟩ := (hput _).mp h
      exact ⟨_, x, hmax, hx⟩
    · obtain ⟨x, hx⟩ := (hput _).mp h
      exact ⟨_, x, hmin, hx⟩
  · rintro ⟨k, x, hkey, hx⟩
    cases k with
    | maxPercent =>
      rw [if_pos hkey]
      exact (hput _).mpr ⟨x, hx⟩
    | minBytes =>
      rw [if_neg (by rw [hkey]; decide), if_pos hkey]
      exact (hput _).mpr ⟨x, hx⟩

theorem foldlM_concat_eq_ok_iff {m : String × Value} : (members ++ [m]).foldlM addMember c = .ok c' ↔
    ∃ d, members.foldlM addMember c = .ok d ∧ addMember d m = .ok c' := by
  have hsingle : ∀ d, [m].foldlM addMember d = addMember d m := fun d => by
    rw [List.foldlM_cons, funext fun x => List.foldlM_nil, bind_pure]
  rw [List.foldlM_append]
  cases members.foldlM addMember c with
  | error e => exact iff_of_false (fun h => by cases h) (by simp)
  | ok d =>
    change [m].foldlM addMember d = .ok c' ↔ _
    rw [hsingle]
    simp

theorem foldlM_eq_ok_iff (hn : (members.map Prod.fst).Nodup) : members.foldlM addMember ⟨none, none⟩ = .ok c ↔
    ∃ settings, members = settings.map Setting.member ∧ Reports settings c := by
  -- members are added from the left, so the last one is the last step
  induction members using List.reverseRecOn generalizing c with
  | nil =>
    constructor
    · intro h
      exact ⟨[], rfl, reports_nil_iff.mpr (Except.ok.inj h).symm⟩
    · rintro ⟨settings, h, hreports⟩
      rw [List.map_eq_nil_iff.mp h.symm, reports_nil_iff] at hreports
      rw [hreports]
      rfl
  | append_singleton members m ih =>
    obtain ⟨hm, hmembers⟩ := Table.nodup_append_iff.mp hn
    rw [foldlM_concat_eq_ok_iff]
    simp only [ih hmembers, addMember_eq_ok_iff]
    constructor
    · rintro ⟨d, ⟨settings, rfl, hd⟩, k, x, hk, hx, rfl⟩
      refine ⟨settings ++ [(k, m.2)], ?_, reports_concat_iff.mpr ⟨?_, d, x, hd, hx, rfl⟩⟩
      · rw [List.map_append, List.map_singleton, Setting.member, ← hk]
      · rw [Table.lookup_eq_none_iff, keys_members, hk, List.mem_map_of_injective fun _ _ => Knob.settingsKey_injective] at hm
        exact hm
    · rintro ⟨settings, h, hreports⟩
      obtain ⟨before, last, rfl, rfl, hlast⟩ := List.map_eq_append_iff.mp h.symm
      obtain ⟨⟨k, w⟩, rfl, rfl⟩ := List.map_eq_singleton_iff.mp hlast
      obtain ⟨_, d, x, hd, hx, rfl⟩ := reports_concat_iff.mp hreports
      exact ⟨d, ⟨before, rfl, hd⟩, k, x, rfl, hx, rfl⟩

theorem Setting.member_injective : Function.Injective Setting.member := by
  rintro ⟨k, v⟩ ⟨j, w⟩ h
  obtain ⟨hkey, hvalue⟩ := Prod.mk.inj h
  exact Prod.ext (Knob.settingsKey_injective hkey) hvalue

theorem foldlM_members_eq_ok_iff (hn : ((settings.map Setting.member).map Prod.fst).Nodup) :
    (settings.map Setting.member).foldlM addMember ⟨none, none⟩ = .ok c ↔ Reports settings c := by
  rw [foldlM_eq_ok_iff hn]
  constructor
  · rintro ⟨settings', h, hr⟩
    rwa [List.map_injective_iff.mpr Setting.member_injective h]
  · exact fun hr => ⟨settings, rfl, hr⟩

theorem flat_of_foldlM {d : ThresholdChoice} (h : members.foldlM addMember d = .ok c) : Flat members := by
  induction members using List.reverseRecOn generalizing c with
  | nil => exact fun _ hm => absurd hm List.not_mem_nil
  | append_singleton members m ih =>
    obtain ⟨u, hu, hm⟩ := foldlM_concat_eq_ok_iff.mp h
    obtain ⟨k, x, _, hx, _⟩ := addMember_eq_ok_iff.mp hm
    intro m' hm'
    rcases List.mem_append.mp hm' with hm' | hm'
    · exact ih hu m' hm'
    · rw [List.mem_singleton.mp hm']
      exact not_table_of_number hx

theorem ofItems_pair (a b : Value) (surplus : List Value) : ofItems (a :: b :: surplus) =
    (([(.maxPercent, a), (.minBytes, b)] : List Setting).map Setting.member).foldlM addMember ⟨none, none⟩ := by
  have hmin : ∀ x, addMember ⟨some x, none⟩ (minBytesKey, b) = (number b).map fun y => ⟨some x, some y⟩ := by
    intro x
    have hkey : minBytesKey ≠ maxPercentKey := by decide
    rw [addMember, if_neg hkey, if_pos rfl]
    cases number b <;> rfl
  have hdef : ofItems (a :: b :: surplus) = (number a).bind fun x => (number b).bind fun y => .ok ⟨some x, some y⟩ := rfl
  have hfold : (([(.maxPercent, a), (.minBytes, b)] : List Setting).map Setting.member).foldlM addMember ⟨none, none⟩ =
      ((number a).bind fun x => .ok ⟨some x, none⟩).bind fun c => (addMember c (minBytesKey, b)).bind .ok := rfl
  rw [hdef, hfold]
  cases number a with
  | error e => rfl
  | ok x =>
    change _ = (addMember ⟨some x, none⟩ (minBytesKey, b)).bind .ok
    rw [hmin]
    cases number b <;> rfl

theorem ofItems_eq_ok_iff {items : List Value} : ofItems items = .ok c ↔
    ∃ a b surplus, items = a :: b :: surplus ∧ Reports [(.maxPercent, a), (.minBytes, b)] c := by
  match items with
  | [] =>
    refine iff_of_false (fun h => by cases h) ?_
    rintro ⟨_, _, _, h, _⟩
    cases h
  | [a] =>
    have hdef : ofItems [a] = (number a).bind fun _ => .error (.wrongLength 1 title 2) := rfl
    refine iff_of_false (fun h => ?_) ?_
    · rw [hdef] at h
      cases ha : number a with
      | error e => rw [ha] at h; cases h
      | ok x => rw [ha] at h; cases h
    · rintro ⟨_, _, _, h, _⟩
      cases h
  | a :: b :: surplus =>
    rw [ofItems_pair, foldlM_members_eq_ok_iff (by simp [Setting.member, Knob.settingsKey, maxPercentKey, minBytesKey])]
    constructor
    · exact fun hr => ⟨a, b, surplus, rfl, hr⟩
    · rintro ⟨_, _, _, h, hr⟩
      cases h
      exact hr

theorem ofThresholds_ne_rows {items : List Table} : ofThresholds (.tables items) ≠ .ok c := by
  intro h
  obtain ⟨a, b, surplus, hitems, hreports⟩ := ofItems_eq_ok_iff.mp h
  obtain ⟨x, hx, _⟩ := hreports.reported _ List.mem_cons_self
  obtain ⟨u, rest, rfl, rfl, _⟩ := List.map_eq_cons_iff.mp hitems
  cases hx

theorem shallow_of_ofThresholds (h : ofThresholds v = .ok c) : v.Shallow := by
  cases v with
  | table origin members => exact flat_of_foldlM h
  | tables items => exact ofThresholds_ne_rows h
  | _ => trivial

/-- A table of settings, or an array that begins with the two values. -/
theorem ofThresholds_eq_ok_iff (hn : ∀ origin members, v = .table origin members → (members.map Prod.fst).Nodup) :
    ofThresholds v = .ok c ↔
      (∃ origin settings, v = .table origin (settings.map Setting.member) ∧ Reports settings c) ∨
        ∃ a b surplus, v = .array (a :: b :: surplus) ∧ Reports [(.maxPercent, a), (.minBytes, b)] c := by
  constructor
  · intro h
    cases v with
    | table origin members =>
      obtain ⟨settings, rfl, hreports⟩ := (foldlM_eq_ok_iff (hn origin members rfl)).mp h
      exact Or.inl ⟨origin, settings, rfl, hreports⟩
    | array items =>
      obtain ⟨a, b, surplus, rfl, hreports⟩ := ofItems_eq_ok_iff.mp h
      exact Or.inr ⟨a, b, surplus, rfl, hreports⟩
    | tables items => exact absurd h ofThresholds_ne_rows
    | _ => cases h
  · rintro (⟨origin, settings, rfl, hreports⟩ | ⟨a, b, surplus, rfl, hreports⟩)
    · exact (foldlM_eq_ok_iff (hn origin _ rfl)).mpr ⟨settings, rfl, hreports⟩
    · exact ofItems_eq_ok_iff.mpr ⟨a, b, surplus, rfl, hreports⟩

theorem ofMember_eq_ok_iff {m : String × Value} : ofMember m = .ok c ↔ m.1 = thresholdsKey ∧ ofThresholds m.2 = .ok c := by
  unfold ofMember
  split <;> simp_all

theorem ofTable_eq_ok_iff {t : Table} (hn : (t.map Prod.fst).Nodup) : ofTable t = .ok c ↔
    (t = [] ∧ c = ⟨none, none⟩) ∨ ∃ v, t = [(thresholdsKey, v)] ∧ ofThresholds v = .ok c := by
  match t with
  | [] =>
    constructor
    · intro h
      exact Or.inl ⟨rfl, (Except.ok.inj h).symm⟩
    · rintro (⟨_, rfl⟩ | ⟨v, h, _⟩)
      · rfl
      · cases h
  | [m] =>
    have hdef : ofTable [m] = ofMember m := by
      rw [ofTable, List.foldlM_cons, funext fun x => List.foldlM_nil, bind_pure]
    rw [hdef, ofMember_eq_ok_iff]
    constructor
    · rintro ⟨hk, h⟩
      exact Or.inr ⟨m.2, by rw [← hk], h⟩
    · rintro (⟨h, _⟩ | ⟨v, h, hv⟩)
      · cases h
      · cases h
        exact ⟨rfl, hv⟩
  | m :: m' :: t =>
    refine iff_of_false (fun h => ?_) ?_
    · have hdef : ofTable (m :: m' :: t) =
          (ofMember m).bind fun _ => (ofMember m').bind fun d => t.foldlM (fun _ m => ofMember m) d := rfl
      rw [hdef] at h
      cases hm : ofMember m with
      | error e => rw [hm] at h; cases h
      | ok d =>
        cases hm' : ofMember m' with
        | error e => rw [hm, hm'] at h; cases h
        | ok d' =>
          rw [List.map_cons, List.map_cons, List.nodup_cons] at hn
          exact hn.1 (by rw [(ofMember_eq_ok_iff.mp hm).1, (ofMember_eq_ok_iff.mp hm').1]; exact List.mem_cons_self)
    · rintro (⟨h, _⟩ | ⟨v, h, _⟩)
      · cases h
      · cases h

theorem map_plain (settings : List Setting) :
    ((settings.map Setting.member).map plain).map Statement.assignment =
      settings.map fun s => .assignment (plain s.member) := by
  rw [List.map_map, List.map_map]
  rfl

theorem map_dotted (settings : List Setting) :
    ((settings.map Setting.member).map (dotted thresholdsKey)).map Statement.assignment =
      settings.map fun s => .assignment (dotted thresholdsKey s.member) := by
  rw [List.map_map, List.map_map]
  rfl

variable {front : List Assignment} {below : List Toml.Section} {t : Table}

/-- The table of an accepted document has at most one member, which shows how it was built. -/
theorem holds_of_ofSections (hw : ∀ a ∈ front, a.value.IsWritten) (ht : Table.ofSections front below = some t)
    (hc : ofTable t = .ok c) : ∃ settings surplus,
      Holds (front.map .assignment ++ below.flatMap Toml.Section.statements) settings surplus ∧ Reports settings c := by
  rcases (ofTable_eq_ok_iff (Table.nodup_ofSections ht)).mp hc with ⟨rfl, rfl⟩ | ⟨v, rfl, hv⟩
  · obtain ⟨rfl, rfl⟩ := Table.ofSections_eq_nil.mp ht
    exact ⟨[], [], .nothing, reports_nil_iff.mpr rfl⟩
  · have hshallow := shallow_of_ofThresholds hv
    -- the only member comes from one assignment, from dotted keys or from one section
    rcases (Table.ofSections_eq_singleton hw hshallow).mp ht with ⟨rfl, hfront⟩ | ⟨rfl, ms, rfl, rfl, hnodup⟩
    · rcases (Table.assignAll_eq_singleton hw hshallow).mp hfront with rfl | ⟨ms, hne, rfl, rfl, hnodup⟩
      · have hwritten := hw _ List.mem_cons_self
        have hn : ∀ origin members, v = .table origin members → (members.map Prod.fst).Nodup := by
          rintro origin members rfl
          obtain ⟨as, has⟩ := hwritten.2
          exact Table.nodup_assignAll (by simp) has
        rcases (ofThresholds_eq_ok_iff hn).mp hv with ⟨origin, settings, rfl, hr⟩ | ⟨a, b, surplus, rfl, hr⟩
        · obtain rfl : origin = .inline := hwritten.1
          exact ⟨settings, [], .braces settings, hr⟩
        · exact ⟨_, surplus, .array a b surplus, hr⟩
      · obtain ⟨settings, rfl, hr⟩ := (foldlM_eq_ok_iff hnodup).mp hv
        refine ⟨settings, [], ?_, hr⟩
        rw [map_dotted, List.flatMap_nil, List.append_nil]
        exact .dotted settings fun h => hne (by rw [h]; rfl)
    · obtain ⟨settings, rfl, hr⟩ := (foldlM_eq_ok_iff hnodup).mp hv
      refine ⟨settings, [], ?_, hr⟩
      rw [List.flatMap_singleton, Toml.Section.statements, map_plain]
      exact .header settings

@[simp] theorem ofTable_singleton (v : Value) : ofTable [(thresholdsKey, v)] = ofThresholds v := by
  rw [ofTable, List.foldlM_cons, funext fun x => List.foldlM_nil, bind_pure, ofMember, if_pos rfl]

theorem ofSections_of_assignAll (front : List Assignment) (hfront : Table.assignAll [] front = some [(thresholdsKey, v)]) :
    ∃ front' below t, front.map Statement.assignment = front'.map .assignment ++ below.flatMap Toml.Section.statements ∧
      Table.ofSections front' below = some t ∧ ofTable t = ofThresholds v :=
  ⟨front, [], _, (List.append_nil _).symm, (Table.ofSections_nil front).trans hfront, ofTable_singleton v⟩

theorem ofSections_of_holds {ss : List Statement} {surplus : List Value} (hh : Holds ss settings surplus)
    (hflat : Flat (settings.map Setting.member)) (hnodup : ((settings.map Setting.member).map Prod.fst).Nodup) :
    ∃ front below t, ss = front.map .assignment ++ below.flatMap Toml.Section.statements ∧
      Table.ofSections front below = some t ∧
      ofTable t = (settings.map Setting.member).foldlM addMember ⟨none, none⟩ := by
  cases hh with
  | nothing => exact ⟨[], [], [], rfl, rfl, rfl⟩
  | header settings =>
    have hshallow : (Value.table .header (settings.map Setting.member)).Shallow := hflat
    refine ⟨[], [⟨.table, ⟨[], thresholdsKey⟩, (settings.map Setting.member).map plain⟩], _, ?_,
      (Table.ofSections_eq_singleton (by simp) hshallow).mpr (Or.inr ⟨rfl, _, rfl, rfl, hnodup⟩), ofTable_singleton _⟩
    rw [List.flatMap_singleton, Toml.Section.statements, map_plain]
    rfl
  | dotted settings hne =>
    have hshallow : (Value.table .dotted (settings.map Setting.member)).Shallow := hflat
    have hmembers : settings.map Setting.member ≠ [] := fun h => hne (List.map_eq_nil_iff.mp h)
    have hwritten : ∀ a ∈ (settings.map Setting.member).map (dotted thresholdsKey), a.value.IsWritten := by
      intro a ha
      obtain ⟨m, hm, rfl⟩ := List.mem_map.mp ha
      exact Value.isWritten_of_not_table (hflat m hm)
    rw [← map_dotted]
    exact ofSections_of_assignAll _
      ((Table.assignAll_eq_singleton hwritten hshallow).mpr (Or.inr ⟨_, hmembers, rfl, rfl, hnodup⟩))
  | braces settings =>
    exact ofSections_of_assignAll [plain (thresholdsKey, .table .inline (settings.map Setting.member))] rfl
  | array a b surplus =>
    rw [← ofItems_pair a b surplus]
    exact ofSections_of_assignAll [plain (thresholdsKey, .array (a :: b :: surplus))] rfl

theorem ofText_eq_ok {text : String} : ofText text = .ok c ↔ ∃ t, Toml.document? text = some t ∧ ofTable t = .ok c := by
  unfold ofText
  cases Toml.document? text <;> simp

theorem ofText_of_holds {text : String} {ss : List Statement} {surplus : List Value}
    (hss : Toml.readStatements (Toml.skipMark text.toList) = some ss) (hh : Holds ss settings surplus)
    (hflat : Flat (settings.map Setting.member)) (hnodup : ((settings.map Setting.member).map Prod.fst).Nodup) :
    ofText text = .ok c ↔ Reports settings c := by
  obtain ⟨front, below, t, rfl, hsections, ht⟩ := ofSections_of_holds hh hflat hnodup
  have hdocument := Toml.document?_eq_some_iff.mpr ⟨front, below, hss, hsections⟩
  rw [ofText, hdocument, ← foldlM_members_eq_ok_iff hnodup, ← ht]

/-- A text is accepted exactly if its statements hold settings, all of which are chosen, and nothing else but what
follows the two values of an array. -/
theorem ofText_eq_ok_iff (text : String) (c : ThresholdChoice) : ofText text = .ok c ↔
    ∃ ss settings surplus, Toml.readStatements (Toml.skipMark text.toList) = some ss ∧ Holds ss settings surplus ∧
      Reports settings c := by
  constructor
  · intro h
    obtain ⟨t, ht, hc⟩ := ofText_eq_ok.mp h
    obtain ⟨front, below, hss, hsections⟩ := Toml.document?_eq_some_iff.mp ht
    have hfront : ∀ a ∈ front, a.value.IsWritten := fun a ha =>
      Toml.isWritten_of_readStatements hss (List.mem_append_left _ (List.mem_map_of_mem ha))
    obtain ⟨settings, surplus, hholds, hreports⟩ := holds_of_ofSections hfront hsections hc
    exact ⟨_, settings, surplus, hss, hholds, hreports⟩
  · rintro ⟨ss, settings, surplus, hss, hholds, hreports⟩
    exact (ofText_of_holds hss hholds hreports.flat (nodup_members.mpr hreports.distinct)).mpr hreports

def surplusText : String := "thresholds = [1, 2, 3]"

/-- Recognizes the one statement of the text. Values as such are not compared, for a value may be a number in floating
point. -/
def isSurplus : List Toml.Statement → Bool
  | [.assignment ⟨⟨[], key⟩, .array [.integer a, .integer b, .integer c]⟩] =>
    key = thresholdsKey ∧ a = 1 ∧ b = 2 ∧ c = 3
  | _ => false

theorem eq_of_isSurplus {ss : List Toml.Statement} (h : isSurplus ss = true) :
    ss = [.assignment (plain (thresholdsKey, .array [.integer 1, .integer 2, .integer 3]))] := by
  unfold isSurplus at h
  split at h
  · obtain ⟨rfl, rfl, rfl, rfl⟩ := of_decide_eq_true h
    rfl
  · cases h

theorem surplusText_statements : Toml.readStatements (Toml.skipMark surplusText.toList) =
    some [.assignment (plain (thresholdsKey, .array [.integer 1, .integer 2, .integer 3]))] := by
  have hread : (Toml.readStatements (Toml.skipMark surplusText.toList)).any isSurplus = true := by decide +kernel
  obtain ⟨ss, hss, hsurplus⟩ := (Option.any_eq_true ..).mp hread
  rw [hss, eq_of_isSurplus hsurplus]

theorem surplusText_accepted : ofText surplusText = .ok ⟨some 1, some 2⟩ := by
  have hread : ((ofText surplusText).toOption.any fun c =>
      decide (c.maxPercent = some 1) && decide (c.minBytes = some 2)) = true := by
    decide +kernel
  cases h : ofText surplusText with
  | error e => simp [h, Except.toOption] at hread
  | ok c =>
    obtain ⟨x, y⟩ := c
    simp only [h, Except.toOption, Option.any_some, Bool.and_eq_true, decide_eq_true_eq] at hread
    obtain ⟨rfl, rfl⟩ := hread
    rfl

theorem Holds.surplus_eq {a b : Value} {surplus surplus' : List Value}
    (h : Holds [.assignment (plain (thresholdsKey, .array (a :: b :: surplus)))] settings surplus') :
    surplus' = surplus := by
  generalize hss : [Statement.assignment (plain (thresholdsKey, .array (a :: b :: surplus)))] = ss at h
  cases h with
  | nothing => cases hss
  | header settings => cases hss
  | dotted settings hne =>
    obtain ⟨s, _, hs⟩ := List.map_eq_singleton_iff.mp hss.symm
    cases hs
  | braces settings => cases hss
  | array a b surplus =>
    cases hss
    rfl

/-- The third number is in the file, which is accepted without it. -/
theorem surplus_passed_over : ofText surplusText = .ok ⟨some 1, some 2⟩ ∧
    ¬ ∃ ss settings, Toml.readStatements (Toml.skipMark surplusText.toList) = some ss ∧ Holds ss settings [] := by
  refine ⟨surplusText_accepted, ?_⟩
  rintro ⟨ss, settings, hss, hholds⟩
  rw [surplusText_statements] at hss
  obtain rfl := Option.some.inj hss
  exact absurd hholds.surplus_eq (by simp)

end Settings
end PagingGate
