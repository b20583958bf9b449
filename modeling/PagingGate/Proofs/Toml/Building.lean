import Mathlib.Data.List.Induction
import Mathlib.Data.List.Nodup
import PagingGate.Toml.Document

set_option autoImplicit false

/-!
# How small documents were built

Nothing that is added to a table ever leaves it, and what a key leads into stays a table. So a table without tables was
built by one plain assignment for each of its members, and there are just three ways to build a document that has one
member: an assignment, dotted keys, or a section.
-/

namespace PagingGate.Toml

def Value.isTable : Value → Bool
  | .table _ _ | .tables _ => true
  | _ => false

/-- A table without tables in it. -/
def Flat (t : Table) : Prop := ∀ m ∈ t, m.2.isTable = false

/-- Neither a row of tables nor a table with tables in it. -/
def Value.Shallow : Value → Prop
  | .table _ members => Flat members
  | .tables _ => False
  | _ => True

def plain (m : String × Value) : Assignment := ⟨⟨[], m.1⟩, m.2⟩

/-- The assignment of a member of a table that is named by a dotted key. -/
def dotted (key : String) (m : String × Value) : Assignment := ⟨⟨[key], m.1⟩, m.2⟩

def Value.IsWritten : Value → Prop
  | .table origin members => origin = .inline ∧ ∃ as, Table.assignAll [] as = some members
  | .tables _ => False
  | _ => True

variable {t t' : Table} {key : String} {v : Value} {byKey : Bool}
  {change : Origin → Table → Option Table}

theorem Flat.of_append (h : Flat (t ++ t')) : Flat t := fun m hm => h m (List.mem_append_left t' hm)

namespace Table

theorem lookup_eq_none_iff : t.lookup key = none ↔ key ∉ t.map Prod.fst := by
  rw [List.lookup_eq_none_iff, List.mem_map]
  constructor
  · rintro h ⟨m, hm, rfl⟩
    exact absurd (h m hm) (by simp)
  · intro h m hm
    rw [bne_iff_ne]
    rintro rfl
    exact h ⟨m, hm, rfl⟩

theorem mem_of_lookup (h : t.lookup key = some v) : (key, v) ∈ t := by
  obtain ⟨before, after, rfl, _⟩ := List.lookup_eq_some_iff.mp h
  exact List.mem_append_right _ List.mem_cons_self

theorem mem_set {w : Value} (h : t.lookup key = some w) (v : Value) : (key, v) ∈ set t key v :=
  List.mem_map.mpr ⟨_, mem_of_lookup h, if_pos rfl⟩

theorem keys_set (t : Table) (key : String) (v : Value) : (set t key v).map Prod.fst = t.map Prod.fst := by
  rw [set, List.map_map]
  refine List.map_congr_left fun m _ => ?_
  by_cases h : m.1 = key <;> simp [h]

theorem nodup_append_iff {m : String × Value} :
    ((t ++ [m]).map Prod.fst).Nodup ↔ t.lookup m.1 = none ∧ (t.map Prod.fst).Nodup := by
  rw [List.map_append, List.map_singleton, ← List.concat_eq_append, List.nodup_concat, lookup_eq_none_iff]

theorem add?_eq_some_iff : add? t key v = some t' ↔ t.lookup key = none ∧ t' = t ++ [(key, v)] := by
  unfold add?
  cases t.lookup key with
  | none => simp [eq_comm]
  | some w => simp

theorem set_eq_singleton {w : Value} {k : String} (hw : t.lookup k = some w) {u : Value} :
    set t k u = [(key, v)] ↔ k = key ∧ u = v ∧ t = [(key, w)] := by
  constructor
  · intro h
    have hmem := mem_set hw u
    rw [h, List.mem_singleton, Prod.mk.injEq] at hmem
    obtain ⟨rfl, rfl⟩ := hmem
    obtain ⟨⟨k', w'⟩, rfl, _⟩ := List.map_eq_singleton_iff.mp h
    obtain ⟨rfl, rfl⟩ := Prod.mk.inj (List.mem_singleton.mp (mem_of_lookup hw))
    exact ⟨rfl, rfl, rfl⟩
  · rintro ⟨rfl, rfl, rfl⟩
    simp [set]

theorem eq_singleton_of_without (ht : (t.map Prod.fst).Nodup) (hl : t.lookup key = some v) (h : without t key = []) :
    t = [(key, v)] := by
  have hkeys : ∀ m ∈ t, m.1 = key := by simpa [without, List.filter_eq_nil_iff] using h
  obtain ⟨before, after, rfl, hbefore⟩ := List.lookup_eq_some_iff.mp hl
  have hfirst : before = [] := List.eq_nil_iff_forall_not_mem.mpr fun m hm =>
    absurd (hbefore m hm) (by simp [hkeys m (List.mem_append_left _ hm)])
  subst hfirst
  rw [List.nil_append, List.map_cons, List.nodup_cons] at ht
  have hlast : after = [] := List.eq_nil_iff_forall_not_mem.mpr fun m hm =>
    ht.1 (List.mem_map.mpr ⟨m, hm, hkeys m (List.mem_cons_of_mem _ hm)⟩)
  rw [hlast, List.nil_append]

theorem not_flat_of_within {origin : Origin} {path : List String}
    (h : within byKey change (key :: path) origin t = some t') : ¬ Flat t' := by
  intro hf
  unfold within at h
  split at h
  · obtain ⟨sub, _, rfl⟩ := Option.map_eq_some_iff.mp h
    exact Bool.noConfusion (hf _ (List.mem_append_right t List.mem_cons_self))
  · rename_i hl
    split at h
    · obtain ⟨sub, _, rfl⟩ := Option.map_eq_some_iff.mp h
      exact Bool.noConfusion (hf _ (mem_set hl _))
    · cases h
  · rename_i hl
    split at h
    · obtain ⟨sub, _, rfl⟩ := Option.map_eq_some_iff.mp h
      exact Bool.noConfusion (hf _ (mem_set hl _))
    · cases h
  · cases h

def made (byKey : Bool) : Origin := if byKey then .dotted else .implied

theorem within_eq_singleton {origin : Origin} {path : List String} {k : String} (hv : v.Shallow) :
    within byKey change (k :: path) origin t = some [(key, v)] ↔ k = key ∧ path = [] ∧
      ((t = [] ∧ ∃ sub, change (made byKey) [] = some sub ∧ v = .table (made byKey) sub) ∨
        ∃ o sub sub', t = [(key, .table o sub)] ∧ Origin.admits byKey o = true ∧ change o sub = some sub' ∧
          v = .table o sub') := by
  -- A longer path would leave a table in the value.
  have hend : ∀ {o sub sub'}, within byKey change path o sub = some sub' → Flat sub' →
      path = [] ∧ change o sub = some sub' := by
    intro o sub sub' h hf
    cases path with
    | nil => exact ⟨rfl, h⟩
    | cons k path => exact absurd hf (not_flat_of_within h)
  constructor
  · intro h
    unfold within at h
    split at h
    · obtain ⟨sub, hsub, heq⟩ := Option.map_eq_some_iff.mp h
      rcases List.append_eq_singleton_iff.mp heq with ⟨rfl, hm⟩ | ⟨_, hm⟩
      · obtain ⟨rfl, rfl⟩ := Prod.mk.inj (List.cons.inj hm).1
        obtain ⟨rfl, hchange⟩ := hend hsub hv
        exact ⟨rfl, rfl, Or.inl ⟨rfl, sub, hchange, rfl⟩⟩
      · cases hm
    · rename_i o sub hl
      split at h
      · rename_i hadmits
        obtain ⟨sub', hsub, heq⟩ := Option.map_eq_some_iff.mp h
        obtain ⟨rfl, rfl, rfl⟩ := (set_eq_singleton hl).mp heq
        obtain ⟨rfl, hchange⟩ := hend hsub hv
        exact ⟨rfl, rfl, Or.inr ⟨o, sub, sub', rfl, hadmits, hchange, rfl⟩⟩
      · cases h
    · rename_i hl
      split at h
      · obtain ⟨sub, _, heq⟩ := Option.map_eq_some_iff.mp h
        obtain ⟨_, rfl, _⟩ := (set_eq_singleton hl).mp heq
        exact hv.elim
      · cases h
    · cases h
  · rintro ⟨rfl, rfl, ⟨rfl, sub, hchange, rfl⟩ | ⟨o, sub, sub', rfl, hadmits, hchange, rfl⟩⟩
    · rw [made] at hchange ⊢
      simp only [within, List.lookup_nil, hchange, Option.map_some, List.nil_append]
    · simp only [within, List.lookup_cons_self, hadmits, if_true, hchange, Option.map_some, set, List.map_singleton]

@[simp] theorem assign_plain (m : String × Value) : assign t (plain m) = add? t m.1 m.2 := by
  simp [assign, within, plain]

theorem assign_eq_some_of_flat {a : Assignment} (hf : Flat t') (h : assign t a = some t') :
    ∃ m, a = plain m ∧ t.lookup m.1 = none ∧ t' = t ++ [m] := by
  obtain ⟨⟨parents, k⟩, w⟩ := a
  cases parents with
  | nil =>
    rw [show (⟨⟨[], k⟩, w⟩ : Assignment) = plain (k, w) from rfl, assign_plain, add?_eq_some_iff] at h
    exact ⟨(k, w), rfl, h⟩
  | cons parent parents => exact absurd hf (not_flat_of_within h)

theorem assignAll_concat (as : List Assignment) (a : Assignment) :
    assignAll t (as ++ [a]) = (assignAll t as).bind (assign · a) := by
  rw [assignAll, List.foldlM_append]
  simp [assignAll]

theorem assignAll_eq_some_iff_of_flat {as : List Assignment} (hf : Flat t) :
    assignAll [] as = some t ↔ as = t.map plain ∧ (t.map Prod.fst).Nodup := by
  induction as using List.reverseRecOn generalizing t with
  | nil =>
    constructor
    · intro h
      obtain rfl : [] = t := Option.some.inj h
      exact ⟨rfl, List.nodup_nil⟩
    · rintro ⟨h, _⟩
      rw [List.map_eq_nil_iff.mp h.symm]
      rfl
  | append_singleton as a ih =>
    rw [assignAll_concat, Option.bind_eq_some_iff]
    constructor
    · rintro ⟨u, hu, ha⟩
      obtain ⟨m, rfl, hm, rfl⟩ := assign_eq_some_of_flat hf ha
      obtain ⟨rfl, hnodup⟩ := (ih hf.of_append).mp hu
      exact ⟨by rw [List.map_append]; rfl, nodup_append_iff.mpr ⟨hm, hnodup⟩⟩
    · rintro ⟨has, hnodup⟩
      obtain ⟨u, last, rfl, rfl, hlast⟩ := List.map_eq_append_iff.mp has.symm
      obtain ⟨m, rfl, rfl⟩ := List.map_eq_singleton_iff.mp hlast
      rw [nodup_append_iff] at hnodup
      refine ⟨u, (ih hf.of_append).mpr ⟨rfl, hnodup.2⟩, ?_⟩
      rw [assign_plain, add?_eq_some_iff]
      exact ⟨hnodup.1, rfl⟩

theorem assign_eq_singleton {a : Assignment} (hv : v.Shallow) : assign t a = some [(key, v)] ↔
    (t = [] ∧ a = plain (key, v)) ∨ (t = [] ∧ ∃ m, a = dotted key m ∧ v = .table .dotted [m]) ∨
      ∃ ms m, t = [(key, .table .dotted ms)] ∧ ms.lookup m.1 = none ∧ a = dotted key m ∧
        v = .table .dotted (ms ++ [m]) := by
  obtain ⟨⟨parents, k⟩, w⟩ := a
  cases parents with
  | nil =>
    have hplain : (⟨⟨[], k⟩, w⟩ : Assignment) = plain (k, w) := rfl
    rw [hplain, assign_plain, add?_eq_some_iff]
    constructor
    · rintro ⟨_, h⟩
      rcases List.append_eq_singleton_iff.mp h.symm with ⟨rfl, hm⟩ | ⟨_, hm⟩
      · exact Or.inl ⟨rfl, by rw [(List.cons.inj hm).1]⟩
      · cases hm
    · rintro (⟨rfl, h⟩ | ⟨_, m, h, _⟩ | ⟨_, m, _, _, h, _⟩)
      · cases h
        exact ⟨rfl, rfl⟩
      · cases h
      · cases h
  | cons parent parents =>
    have hchange : ∀ {o : Origin} {sub sub' : Table},
        (if ((parent :: parents = []) || o = .dotted) then add? sub k w else none) = some sub' ↔
          o = .dotted ∧ sub.lookup k = none ∧ sub' = sub ++ [(k, w)] := by
      intro o sub sub'
      by_cases ho : o = .dotted
      · simp [ho, add?_eq_some_iff]
      · simp [ho]
    rw [assign, within_eq_singleton hv]
    simp only [hchange]
    constructor
    · rintro ⟨rfl, rfl, ⟨rfl, sub, ⟨_, _, rfl⟩, rfl⟩ | ⟨o, sub, sub', rfl, _, ⟨rfl, hl, rfl⟩, rfl⟩⟩
      · exact Or.inr (Or.inl ⟨rfl, (k, w), rfl, rfl⟩)
      · exact Or.inr (Or.inr ⟨sub, (k, w), rfl, hl, rfl, rfl⟩)
    · rintro (⟨_, h⟩ | ⟨rfl, m, h, rfl⟩ | ⟨ms, m, rfl, hl, h, rfl⟩)
      · cases h
      · cases h
        exact ⟨rfl, rfl, Or.inl ⟨rfl, _, ⟨rfl, rfl, rfl⟩, rfl⟩⟩
      · cases h
        exact ⟨rfl, rfl, Or.inr ⟨.dotted, ms, _, rfl, rfl, ⟨rfl, hl, rfl⟩, rfl⟩⟩

theorem assignAll_eq_nil {as : List Assignment} : assignAll [] as = some [] ↔ as = [] := by
  have hflat : Flat [] := fun _ hm => absurd hm List.not_mem_nil
  rw [assignAll_eq_some_iff_of_flat hflat]
  simp

/-- Dotted keys lead only into tables that dotted keys have made, so either all assignments have them or there is just
one. -/
theorem assignAll_eq_singleton {as : List Assignment} (hw : ∀ a ∈ as, a.value.IsWritten) (hv : v.Shallow) :
    assignAll [] as = some [(key, v)] ↔ as = [plain (key, v)] ∨
      ∃ ms, ms ≠ [] ∧ as = ms.map (dotted key) ∧ v = .table .dotted ms ∧ (ms.map Prod.fst).Nodup := by
  induction as using List.reverseRecOn generalizing v with
  | nil =>
    refine iff_of_false (fun h => by cases h) ?_
    rintro (h | ⟨ms, hne, h, _⟩)
    · cases h
    · exact hne (List.map_eq_nil_iff.mp h.symm)
  | append_singleton as a ih =>
    rw [List.forall_mem_append] at hw
    rw [assignAll_concat, Option.bind_eq_some_iff]
    simp only [assign_eq_singleton hv]
    constructor
    · rintro ⟨u, hu, ⟨rfl, rfl⟩ | ⟨rfl, m, rfl, rfl⟩ | ⟨ms, m, rfl, hm, rfl, rfl⟩⟩
      · rw [assignAll_eq_nil.mp hu]
        exact Or.inl rfl
      · rw [assignAll_eq_nil.mp hu]
        exact Or.inr ⟨[m], by simp, rfl, rfl, List.nodup_singleton _⟩
      · have hms : (Value.table .dotted ms).Shallow := Flat.of_append hv
        rcases (ih hw.1 hms).mp hu with rfl | ⟨ms', _, rfl, hms, hnodup⟩
        · exact absurd (hw.1 _ List.mem_cons_self).1 (by decide)
        · cases hms
          exact Or.inr ⟨ms ++ [m], by simp, by rw [List.map_append]; rfl, rfl, nodup_append_iff.mpr ⟨hm, hnodup⟩⟩
    · rintro (h | ⟨ms, hne, h, rfl, hnodup⟩)
      · obtain ⟨rfl, ha⟩ := (List.append_eq_singleton_iff.mp h).resolve_right (by simp)
        exact ⟨[], rfl, Or.inl ⟨rfl, (List.cons.inj ha).1⟩⟩
      · obtain ⟨ms', last, rfl, rfl, hlast⟩ := List.map_eq_append_iff.mp h.symm
        obtain ⟨m, rfl, rfl⟩ := List.map_eq_singleton_iff.mp hlast
        rw [nodup_append_iff] at hnodup
        by_cases hfirst : ms' = []
        · subst hfirst
          exact ⟨[], rfl, Or.inr (Or.inl ⟨rfl, m, rfl, rfl⟩)⟩
        · have hms : (Value.table .dotted ms').Shallow := Flat.of_append hv
          refine ⟨_, (ih hw.1 hms).mpr (Or.inr ⟨ms', hfirst, rfl, rfl, hnodup.2⟩), Or.inr (Or.inr ?_)⟩
          exact ⟨ms', m, rfl, hnodup.1, rfl, rfl⟩

theorem Flat.of_assignAll {as : List Assignment} (hf : Flat t') (h : assignAll t as = some t') : Flat t := by
  induction as using List.reverseRecOn generalizing t' with
  | nil =>
    obtain rfl : t = t' := Option.some.inj h
    exact hf
  | append_singleton as a ih =>
    rw [assignAll_concat, Option.bind_eq_some_iff] at h
    obtain ⟨u, hu, ha⟩ := h
    obtain ⟨m, _, _, rfl⟩ := assign_eq_some_of_flat hf ha
    exact ih hf.of_append hu

theorem not_flat_of_addTable {body : List Assignment} (h : addTable t key body = some t') : ¬ Flat t' := by
  intro hf
  unfold addTable at h
  split at h
  · obtain ⟨sub, _, rfl⟩ := Option.map_eq_some_iff.mp h
    exact Bool.noConfusion (hf _ (List.mem_append_right t List.mem_cons_self))
  · obtain ⟨sub, _, rfl⟩ := Option.map_eq_some_iff.mp h
    exact Bool.noConfusion (hf _ (List.mem_append_right _ List.mem_cons_self))
  · cases h

theorem not_flat_of_addElement {body : List Assignment} (h : addElement t key body = some t') : ¬ Flat t' := by
  intro hf
  unfold addElement at h
  split at h
  · obtain ⟨sub, _, rfl⟩ := Option.map_eq_some_iff.mp h
    exact Bool.noConfusion (hf _ (List.mem_append_right t List.mem_cons_self))
  · rename_i hl
    obtain ⟨sub, _, rfl⟩ := Option.map_eq_some_iff.mp h
    exact Bool.noConfusion (hf _ (mem_set hl _))
  · cases h

theorem not_flat_of_open {kind : HeaderKind} {body : List Assignment}
    (h : (match kind with
      | .table => addTable t key body
      | .element => addElement t key body) = some t') : ¬ Flat t' := by
  cases kind with
  | table => exact not_flat_of_addTable h
  | element => exact not_flat_of_addElement h

theorem not_flat_of_addSection {s : Section} (h : addSection t s = some t') : ¬ Flat t' := by
  obtain ⟨kind, ⟨parents, k⟩, body⟩ := s
  cases parents with
  | nil => exact not_flat_of_open h
  | cons parent parents => exact not_flat_of_within h

/-- The section of the only member. A table that its sections have implied holds one of them, so it is not flat. -/
theorem addSection_eq_singleton {s : Section} (ht : (t.map Prod.fst).Nodup) (hv : v.Shallow)
    (h : addSection t s = some [(key, v)]) :
    (t = [] ∧ ∃ ms, s = ⟨.table, ⟨[], key⟩, ms.map plain⟩ ∧ v = .table .header ms ∧ (ms.map Prod.fst).Nodup) ∨
      ∃ ms, t = [(key, .table .implied ms)] ∧ Flat ms := by
  obtain ⟨kind, ⟨parents, k⟩, body⟩ := s
  cases parents with
  | nil =>
    cases kind with
    | table =>
      replace h : addTable t k body = some [(key, v)] := h
      unfold addTable at h
      split at h
      · obtain ⟨sub, hsub, heq⟩ := Option.map_eq_some_iff.mp h
        rcases List.append_eq_singleton_iff.mp heq with ⟨rfl, hm⟩ | ⟨_, hm⟩
        · cases hm
          obtain ⟨rfl, hnodup⟩ := (assignAll_eq_some_iff_of_flat hv).mp hsub
          exact Or.inl ⟨rfl, sub, rfl, rfl, hnodup⟩
        · cases hm
      · rename_i sub hl
        obtain ⟨sub', hsub, heq⟩ := Option.map_eq_some_iff.mp h
        rcases List.append_eq_singleton_iff.mp heq with ⟨hwithout, hm⟩ | ⟨_, hm⟩
        · cases hm
          exact Or.inr ⟨sub, eq_singleton_of_without ht hl hwithout, Flat.of_assignAll hv hsub⟩
        · cases hm
      · cases h
    | element =>
      replace h : addElement t k body = some [(key, v)] := h
      unfold addElement at h
      split at h
      · obtain ⟨sub, _, heq⟩ := Option.map_eq_some_iff.mp h
        rcases List.append_eq_singleton_iff.mp heq with ⟨_, hm⟩ | ⟨_, hm⟩
        · cases hm
          exact hv.elim
        · cases hm
      · rename_i hl
        obtain ⟨sub, _, heq⟩ := Option.map_eq_some_iff.mp h
        obtain ⟨_, rfl, _⟩ := (set_eq_singleton hl).mp heq
        exact hv.elim
      · cases h
  | cons parent parents =>
    obtain ⟨rfl, rfl, ⟨_, sub, hsub, rfl⟩ | ⟨o, sub, sub', _, _, hsub, rfl⟩⟩ := (within_eq_singleton hv).mp h
    · exact absurd hv (not_flat_of_open hsub)
    · exact absurd hv (not_flat_of_open hsub)

theorem nodup_within {path : List String} {origin : Origin} (ht : (t.map Prod.fst).Nodup)
    (hchange : path = [] → ∀ u, change origin t = some u → (u.map Prod.fst).Nodup)
    (h : within byKey change path origin t = some t') : (t'.map Prod.fst).Nodup := by
  cases path with
  | nil => exact hchange rfl t' h
  | cons k path =>
    unfold within at h
    split at h
    · rename_i hl
      obtain ⟨sub, _, rfl⟩ := Option.map_eq_some_iff.mp h
      exact nodup_append_iff.mpr ⟨hl, ht⟩
    · split at h
      · obtain ⟨sub, _, rfl⟩ := Option.map_eq_some_iff.mp h
        rwa [keys_set]
      · cases h
    · split at h
      · obtain ⟨sub, _, rfl⟩ := Option.map_eq_some_iff.mp h
        rwa [keys_set]
      · cases h
    · cases h

theorem nodup_assign {a : Assignment} (ht : (t.map Prod.fst).Nodup) (h : assign t a = some t') :
    (t'.map Prod.fst).Nodup := by
  refine nodup_within ht (fun hpath u hu => ?_) h
  rw [hpath, decide_eq_true rfl, Bool.true_or, if_pos rfl, add?_eq_some_iff] at hu
  obtain ⟨hl, rfl⟩ := hu
  exact nodup_append_iff.mpr ⟨hl, ht⟩

theorem nodup_assignAll {as : List Assignment} (ht : (t.map Prod.fst).Nodup) (h : assignAll t as = some t') :
    (t'.map Prod.fst).Nodup := by
  induction as using List.reverseRecOn generalizing t' with
  | nil => rwa [← Option.some.inj h]
  | append_singleton as a ih =>
    rw [assignAll_concat, Option.bind_eq_some_iff] at h
    obtain ⟨u, hu, ha⟩ := h
    exact nodup_assign (ih hu) ha

theorem nodup_addSection {s : Section} (ht : (t.map Prod.fst).Nodup) (h : addSection t s = some t') :
    (t'.map Prod.fst).Nodup := by
  refine nodup_within ht (fun _ u hu => ?_) h
  split at hu
  · unfold addTable at hu
    split at hu
    · rename_i hl
      obtain ⟨sub, _, rfl⟩ := Option.map_eq_some_iff.mp hu
      exact nodup_append_iff.mpr ⟨hl, ht⟩
    · obtain ⟨sub, _, rfl⟩ := Option.map_eq_some_iff.mp hu
      refine nodup_append_iff.mpr ⟨lookup_eq_none_iff.mpr ?_, ht.sublist (List.filter_sublist.map _)⟩
      simp [without]
    · cases hu
  · unfold addElement at hu
    split at hu
    · rename_i hl
      obtain ⟨sub, _, rfl⟩ := Option.map_eq_some_iff.mp hu
      exact nodup_append_iff.mpr ⟨hl, ht⟩
    · obtain ⟨sub, _, rfl⟩ := Option.map_eq_some_iff.mp hu
      rwa [keys_set]
    · cases hu

variable {front : List Assignment} {ss : List Section}

@[simp] theorem ofSections_nil (front : List Assignment) : ofSections front [] = assignAll [] front := by
  simp [ofSections]

theorem ofSections_concat (front : List Assignment) (ss : List Section) (s : Section) :
    ofSections front (ss ++ [s]) = (ofSections front ss).bind (addSection · s) := by
  simp [ofSections, List.foldlM_append, Option.bind_assoc]

theorem nodup_ofSections (h : ofSections front ss = some t) : (t.map Prod.fst).Nodup := by
  induction ss using List.reverseRecOn generalizing t with
  | nil =>
    rw [ofSections_nil] at h
    exact nodup_assignAll (by simp) h
  | append_singleton ss s ih =>
    rw [ofSections_concat, Option.bind_eq_some_iff] at h
    obtain ⟨u, hu, hs⟩ := h
    exact nodup_addSection (ih hu) hs

theorem ofSections_eq_nil : ofSections front ss = some [] ↔ front = [] ∧ ss = [] := by
  constructor
  · intro h
    rcases ss.eq_nil_or_concat with rfl | ⟨before, s, rfl⟩
    · rw [ofSections_nil, assignAll_eq_nil] at h
      exact ⟨h, rfl⟩
    · rw [List.concat_eq_append, ofSections_concat, Option.bind_eq_some_iff] at h
      obtain ⟨u, _, hs⟩ := h
      exact absurd (fun _ hm => absurd hm List.not_mem_nil) (not_flat_of_addSection hs)
  · rintro ⟨rfl, rfl⟩
    rfl

/-- A document with one member was built by assignments, or it is one section. -/
theorem ofSections_eq_singleton (hw : ∀ a ∈ front, a.value.IsWritten) (hv : v.Shallow) :
    ofSections front ss = some [(key, v)] ↔ (ss = [] ∧ assignAll [] front = some [(key, v)]) ∨
      (front = [] ∧ ∃ ms, ss = [⟨.table, ⟨[], key⟩, ms.map plain⟩] ∧ v = .table .header ms ∧ (ms.map Prod.fst).Nodup) := by
  induction ss using List.reverseRecOn generalizing v with
  | nil => simp
  | append_singleton ss s ih =>
    rw [ofSections_concat, Option.bind_eq_some_iff]
    constructor
    · rintro ⟨u, hu, hs⟩
      rcases addSection_eq_singleton (nodup_ofSections hu) hv hs with ⟨rfl, ms, rfl, hms⟩ | ⟨ms, rfl, hflat⟩
      · obtain ⟨rfl, rfl⟩ := ofSections_eq_nil.mp hu
        exact Or.inr ⟨rfl, ms, rfl, hms⟩
      · have himplied : (Value.table .implied ms).Shallow := hflat
        rcases (ih himplied).mp hu with ⟨rfl, hfront⟩ | ⟨_, ms', _, hms, _⟩
        · rcases (assignAll_eq_singleton hw himplied).mp hfront with rfl | ⟨ms', _, _, hms, _⟩
          · exact absurd (hw _ List.mem_cons_self).1 (by decide)
          · cases hms
        · cases hms
    · rintro (⟨h, _⟩ | ⟨rfl, ms, h, rfl, hnodup⟩)
      · exact absurd h (by simp)
      · obtain ⟨rfl, hs⟩ := (List.append_eq_singleton_iff.mp h).resolve_right (by simp)
        obtain rfl := (List.cons.inj hs).1
        refine ⟨[], rfl, ?_⟩
        have hbody : assignAll [] (ms.map plain) = some ms := (assignAll_eq_some_iff_of_flat hv).mpr ⟨rfl, hnodup⟩
        change (assignAll [] (ms.map plain)).map _ = _
        rw [hbody]
        rfl

end Table
end PagingGate.Toml
