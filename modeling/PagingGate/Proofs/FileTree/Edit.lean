import PagingGate.FileTree.Edit
import PagingGate.Proofs.FileTree.Write

set_option autoImplicit false

/-!
# Editing keeps trees well-formed

What is made lies in a directory, and what is dropped or moved takes along all that is in it.
-/

namespace PagingGate

theorem Path.noMarks_parents {p : Path} (hp : p.check = .ok ()) : ∀ n ∈ p.parents, NoMarks n := by
  intro n hn
  exact noMarks_names hp n (List.mem_filter.mp (List.dropLast_subset _ hn)).1

namespace FileTree

variable {t t' : FileTree} {dir d l m : Location} {name : Name} {p source target : Path}

theorem isLookedUp_of_notFound {links : Nat} (h : t.walk false links dir [name] = .error .notFound) :
    t.isDirectory dir = true ∧ IsLookedUp name := by
  rw [walk] at h
  by_cases hd : t.isDirectory dir = true
  · refine ⟨hd, ?_⟩
    simp only [hd, Bool.not_true, Bool.false_eq_true, if_false, false_and] at h
    by_cases h0 : name = [] ∨ name = Path.dot
    · rw [if_pos h0, walk] at h
      cases h
    · rw [if_neg h0] at h
      by_cases h1 : name = Path.dotDot
      · rw [if_pos h1, walk] at h
        cases h
      · rw [if_neg h1] at h
        by_cases h2 : maxNameLength < name.length
        · rw [if_pos h2] at h
          cases h
        · exact ⟨fun e => h0 (.inl e), fun e => h0 (.inr e), h1, Nat.not_lt.mp h2⟩
  · simp [hd] at h

theorem WellFormed.enter (ht : t.WellFormed) (hn : Path.NoMarks name) (h : t.enter dir name = .ok (t', d)) :
    t'.WellFormed := by
  unfold FileTree.enter at h
  split at h
  · rename_i hw hnode
    obtain ⟨rfl, _⟩ := Prod.mk.inj (Except.ok.inj h)
    obtain ⟨hd, h0, h1, h2, hl⟩ := isLookedUp_of_notFound hw
    have hplace := ht.isPlace_concat hd ⟨h0, h1, h2, hn.1, hn.2, hl⟩
    exact ht.put hplace (.inl rfl) (by simp)
  · split at h
    · obtain ⟨rfl, _⟩ := Prod.mk.inj (Except.ok.inj h)
      exact ht
    · cases h
  · cases h

theorem WellFormed.enterAll {names : List Name} (ht : t.WellFormed) (hn : ∀ n ∈ names, Path.NoMarks n)
    (h : t.enterAll dir names = .ok (t', d)) : t'.WellFormed := by
  induction names generalizing t dir with
  | nil =>
    obtain ⟨rfl, _⟩ := Prod.mk.inj (Except.ok.inj h)
    exact ht
  | cons n names ih =>
    unfold FileTree.enterAll at h
    rw [List.foldlM_cons] at h
    obtain ⟨⟨t₁, d₁⟩, he, hrest⟩ := Except.bind_eq_ok.mp h
    exact ih (ht.enter (hn n List.mem_cons_self) he) (fun k hk => hn k (List.mem_cons_of_mem n hk)) hrest

theorem WellFormed.makeDirectory (ht : t.WellFormed) (h : t.makeDirectory p = .ok t') : t'.WellFormed := by
  obtain ⟨_, hp, h⟩ := Except.bind_eq_ok.mp h
  obtain ⟨⟨t₁, d₁⟩, he, h⟩ := Except.bind_eq_ok.mp h
  obtain rfl := Except.ok.inj h
  exact ht.enterAll (Path.noMarks_names hp) he

theorem WellFormed.makeParents (ht : t.WellFormed) (h : t.makeParents p = .ok t') : t'.WellFormed := by
  obtain ⟨_, hp, h⟩ := Except.bind_eq_ok.mp h
  obtain ⟨⟨t₁, d₁⟩, he, h⟩ := Except.bind_eq_ok.mp h
  obtain rfl := Except.ok.inj h
  exact ht.enterAll (Path.noMarks_parents hp) he

theorem WellFormed.writeWithParents {content : List UInt8} {modified : Time} (ht : t.WellFormed)
    (h : t.writeWithParents p content modified = .ok t') : t'.WellFormed := by
  obtain ⟨t₁, hp, h⟩ := Except.bind_eq_ok.mp h
  exact (ht.makeParents hp).write h

theorem entryAt_isPlace (ht : t.WellFormed) (hp : Name.IsPlain p.fileName) (h : t.entryAt p = .ok l) :
    t.IsPlace l := by
  obtain ⟨_, _, h⟩ := Except.bind_eq_ok.mp h
  obtain ⟨dir, _, h⟩ := Except.bind_eq_ok.mp h
  split at h
  · rename_i hd
    obtain rfl := Except.ok.inj h
    exact ht.isPlace_concat hd hp
  · cases h

theorem WellFormed.makeLink (ht : t.WellFormed) (hp : Name.IsPlain p.fileName)
    (h : t.makeLink target p = .ok t') : t'.WellFormed := by
  obtain ⟨_, htarget, h⟩ := Except.bind_eq_ok.mp h
  obtain ⟨t₁, hparents, h⟩ := Except.bind_eq_ok.mp h
  obtain ⟨l, hl, h⟩ := Except.bind_eq_ok.mp h
  have ht₁ := ht.makeParents hparents
  split at h
  · cases h
  · rename_i hnone
    obtain rfl := Except.ok.inj h
    have hfree : t₁.isDirectory l = false := by
      rw [Option.not_isSome_iff_eq_none] at hnone
      simp [isDirectory, hnone]
    refine ht₁.put (entryAt_isPlace ht₁ hp hl) (.inr hfree) ?_
    rintro q ⟨⟩
    exact htarget

theorem WellFormed.touch {modified : Time} (ht : t.WellFormed) (h : t.touch p modified = .ok t') :
    t'.WellFormed := by
  obtain ⟨l, _, h⟩ := Except.bind_eq_ok.mp h
  split at h
  · rename_i hnode
    obtain rfl := Except.ok.inj h
    have h0 : l ≠ [] := by
      rintro rfl
      cases hnode
    refine ht.put (ht.isPlace h0 (by rw [hnode]; simp)) (.inr ?_) (by simp)
    simp [isDirectory, hnode]
  · obtain rfl := Except.ok.inj h
    exact ht

theorem isDirectory_of_mem (h : (t.entries.map (·.1)).Nodup) (hd : d = [] ∨ (d, .directory) ∈ t.entries) :
    t.isDirectory d = true := by
  rw [isDirectory_iff]
  by_cases h0 : d = []
  · rw [h0, node?_nil]
  · rw [node?_of_ne_nil t h0, lookup_of_mem h (hd.resolve_left h0)]

theorem mem_of_isDirectory (h : t.isDirectory d = true) : d = [] ∨ (d, .directory) ∈ t.entries := by
  rw [isDirectory_iff] at h
  by_cases h0 : d = []
  · exact .inl h0
  · exact .inr (mem_of_node? h0 h)

theorem mem_without {e : Location × Node} :
    e ∈ (t.without l).entries ↔ e ∈ t.entries ∧ ¬ l <+: e.1 := by
  unfold without
  rw [List.mem_filter, ← List.isPrefixOf_iff_prefix, Bool.not_eq_true', Bool.not_eq_true]

theorem nodup_without (ht : t.WellFormed) (l : Location) : ((t.without l).entries.map (·.1)).Nodup :=
  ht.distinct.sublist (List.filter_sublist.map _)

/-- What lies in a directory is not dropped without it. -/
theorem WellFormed.without (ht : t.WellFormed) (l : Location) : (t.without l).WellFormed where
  distinct := nodup_without ht l
  rooted e he := ht.rooted e (mem_without.mp he).1
  named e he := ht.named e (mem_without.mp he).1
  inDirectory e he := by
    obtain ⟨he, hl⟩ := mem_without.mp he
    refine isDirectory_of_mem (nodup_without ht l) ?_
    refine (mem_of_isDirectory (ht.inDirectory e he)).imp_right fun hd => ?_
    exact mem_without.mpr ⟨hd, fun hp => hl (hp.trans (List.dropLast_prefix e.1))⟩
  linked e he := ht.linked e (mem_without.mp he).1

theorem WellFormed.remove (ht : t.WellFormed) (h : t.remove p = .ok t') : t'.WellFormed := by
  obtain ⟨l, _, h⟩ := Except.bind_eq_ok.mp h
  split at h
  · obtain rfl := Except.ok.inj h
    exact ht.without l
  · cases h

def moved (t : FileTree) (l m : Location) : List (Location × Node) :=
  (t.entries.filter fun e => l.isPrefixOf e.1).map fun e => (m ++ e.1.drop l.length, e.2)

theorem mem_moved {k : Location} {n : Node} :
    (k, n) ∈ t.moved l m ↔ ∃ rel, k = m ++ rel ∧ (l ++ rel, n) ∈ t.entries := by
  unfold moved
  simp only [List.mem_map, List.mem_filter, List.isPrefixOf_iff_prefix]
  constructor
  · rintro ⟨⟨j, o⟩, ⟨he, rel, rfl⟩, h⟩
    obtain ⟨rfl, rfl⟩ := Prod.mk.inj h
    exact ⟨rel, by rw [List.drop_left], he⟩
  · rintro ⟨rel, rfl, he⟩
    exact ⟨(l ++ rel, n), ⟨he, List.prefix_append l rel⟩, by rw [List.drop_left]⟩

theorem nodup_moved (ht : t.WellFormed) (l m : Location) : ((t.moved l m).map (·.1)).Nodup := by
  have hd : (t.entries.filter fun e => l.isPrefixOf e.1).Pairwise fun a b => a.1 ≠ b.1 :=
    (List.pairwise_map.mp ht.distinct).filter _
  unfold moved
  rw [List.map_map, List.Nodup, List.pairwise_map]
  refine hd.imp_of_mem fun {a b} ha hb hne heq => hne ?_
  obtain ⟨r, hr⟩ := List.isPrefixOf_iff_prefix.mp (List.mem_filter.mp ha).2
  obtain ⟨s, hs⟩ := List.isPrefixOf_iff_prefix.mp (List.mem_filter.mp hb).2
  rw [Function.comp_apply, Function.comp_apply, ← hr, ← hs, List.drop_left, List.drop_left] at heq
  rw [← hr, ← hs, List.append_cancel_left heq]

/-- Where an entry may be moved: to a place outside of it. -/
structure IsMove (t : FileTree) (l m : Location) : Prop where
  isPlace : t.IsPlace m
  nonempty : l ≠ []
  outside : ¬ l <+: m

/-- A tree in which what stands at `l` stands at `m`, in place of what was there. -/
def relocated (t : FileTree) (l m : Location) : FileTree :=
  ⟨((t.without l).without m).entries ++ t.moved l m⟩

theorem mem_relocated {e : Location × Node} : e ∈ (t.relocated l m).entries ↔
    (e ∈ t.entries ∧ ¬ l <+: e.1 ∧ ¬ m <+: e.1) ∨ ∃ rel, e.1 = m ++ rel ∧ (l ++ rel, e.2) ∈ t.entries := by
  unfold relocated
  rw [List.mem_append, mem_without, mem_without, and_assoc]
  exact or_congr_right (mem_moved (k := e.1) (n := e.2))

theorem nodup_relocated (ht : t.WellFormed) (l m : Location) :
    ((t.relocated l m).entries.map (·.1)).Nodup := by
  unfold relocated
  rw [List.map_append, List.nodup_append]
  refine ⟨((ht.without l).without m).distinct, nodup_moved ht l m, fun a ha b hb => ?_⟩
  obtain ⟨⟨k, n⟩, he, rfl⟩ := List.mem_map.mp ha
  obtain ⟨⟨j, o⟩, hj, rfl⟩ := List.mem_map.mp hb
  obtain ⟨rel, rfl, _⟩ := mem_moved.mp hj
  rintro rfl
  exact (mem_without.mp he).2 (List.prefix_append m rel)

theorem isDirectory_relocated (ht : t.WellFormed) (hd : t.isDirectory d = true) (hl : ¬ l <+: d)
    (hm : ¬ m <+: d) : (t.relocated l m).isDirectory d = true := by
  refine isDirectory_of_mem (nodup_relocated ht l m) ((mem_of_isDirectory hd).imp_right fun he => ?_)
  exact mem_relocated.mpr (.inl ⟨he, hl, hm⟩)

theorem isDirectory_relocated_below (ht : t.WellFormed) (h0 : l ≠ []) {rel : Location}
    (hd : t.isDirectory (l ++ rel) = true) : (t.relocated l m).isDirectory (m ++ rel) = true := by
  refine isDirectory_of_mem (nodup_relocated ht l m) (.inr (mem_relocated.mpr (.inr ⟨rel, rfl, ?_⟩)))
  exact (mem_of_isDirectory hd).resolve_left (by simp [h0])

theorem IsMove.isDirectory (h : t.IsMove l m) (ht : t.WellFormed) :
    (t.relocated l m).isDirectory m.dropLast = true := by
  refine isDirectory_relocated ht h.isPlace.inDirectory ?_ ?_
  · exact fun hp => h.outside (hp.trans (List.dropLast_prefix m))
  · intro hp
    have hlength := hp.length_le
    have hpos := List.length_pos_iff.mpr h.isPlace.nonempty
    rw [List.length_dropLast] at hlength
    omega

theorem WellFormed.relocated (ht : t.WellFormed) (h : t.IsMove l m) : (t.relocated l m).WellFormed where
  distinct := nodup_relocated ht l m
  rooted e he := by
    rcases mem_relocated.mp he with ⟨he, _⟩ | ⟨rel, hk, _⟩
    · exact ht.rooted e he
    · rw [hk]
      simp [h.isPlace.nonempty]
  named e he n hn := by
    rcases mem_relocated.mp he with ⟨he, _⟩ | ⟨rel, hk, he⟩
    · exact ht.named e he n hn
    · rw [hk] at hn
      rcases List.mem_append.mp hn with hn | hn
      · exact h.isPlace.plain n hn
      · exact ht.named _ he n (List.mem_append_right l hn)
  inDirectory e he := by
    rcases mem_relocated.mp he with ⟨he, hl, hm⟩ | ⟨rel, hk, he⟩
    · have hparent := List.dropLast_prefix e.1
      refine isDirectory_relocated ht (ht.inDirectory e he) ?_ ?_
      · exact fun hp => hl (hp.trans hparent)
      · exact fun hp => hm (hp.trans hparent)
    · rw [hk]
      by_cases hrel : rel = []
      · rw [hrel, List.append_nil]
        exact h.isDirectory ht
      · -- What is below the entry lies in a directory that is moved with it.
        have hd := ht.inDirectory _ he
        rw [List.dropLast_append_of_ne_nil hrel] at hd ⊢
        exact isDirectory_relocated_below ht h.nonempty hd
  linked e he p hp := by
    rcases mem_relocated.mp he with ⟨he, _⟩ | ⟨rel, _, he⟩
    · exact ht.linked e he p hp
    · exact ht.linked _ he p hp

theorem entryAt_ne_nil (h : t.entryAt p = .ok l) : l ≠ [] := by
  obtain ⟨_, _, h⟩ := Except.bind_eq_ok.mp h
  obtain ⟨dir, _, h⟩ := Except.bind_eq_ok.mp h
  split at h
  · obtain rfl := Except.ok.inj h
    simp
  · cases h

theorem WellFormed.rename (ht : t.WellFormed) (hp : Name.IsPlain target.fileName)
    (h : t.rename source target = .ok t') : t'.WellFormed := by
  obtain ⟨l, hl, h⟩ := Except.bind_eq_ok.mp h
  obtain ⟨m, hm, h⟩ := Except.bind_eq_ok.mp h
  split at h
  · cases h
  · split at h
    · obtain rfl := Except.ok.inj h
      exact ht
    · split at h
      · cases h
      · rename_i hprefix
        obtain ⟨_, _, h⟩ := Except.bind_eq_ok.mp h
        obtain rfl := Except.ok.inj h
        refine ht.relocated ⟨entryAt_isPlace ht hp hm, entryAt_ne_nil hl, ?_⟩
        rwa [← List.isPrefixOf_iff_prefix]

/-- What is done to a tree between runs. The name of what is linked or moved to is a plain one. -/
inductive Edit where
  | makeDirectory (p : Path)
  | write (p : Path) (content : List UInt8) (modified : Time)
  | makeLink (target p : Path) (plain : Name.IsPlain p.fileName)
  | touch (p : Path) (modified : Time)
  | remove (p : Path)
  | rename (source target : Path) (plain : Name.IsPlain target.fileName)

def Edit.apply (t : FileTree) : Edit → Except FileFault FileTree
  | .makeDirectory p => t.makeDirectory p
  | .write p content modified => t.writeWithParents p content modified
  | .makeLink target p _ => t.makeLink target p
  | .touch p modified => t.touch p modified
  | .remove p => t.remove p
  | .rename source target _ => t.rename source target

theorem WellFormed.edit (ht : t.WellFormed) {e : Edit} (h : e.apply t = .ok t') : t'.WellFormed := by
  cases e with
  | makeDirectory p => exact ht.makeDirectory h
  | write p content modified => exact ht.writeWithParents h
  | makeLink target p plain => exact ht.makeLink plain h
  | touch p modified => exact ht.touch h
  | remove p => exact ht.remove h
  | rename source target plain => exact ht.rename plain h

end FileTree
end PagingGate
