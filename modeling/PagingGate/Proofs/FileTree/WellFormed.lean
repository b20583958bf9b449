import PagingGate.FileTree

set_option autoImplicit false

namespace PagingGate

def Name.IsPlain (n : Name) : Prop :=
  n ≠ [] ∧ n ≠ Path.dot ∧ n ≠ Path.dotDot ∧ Path.slash ∉ n ∧ 0 ∉ n ∧ n.length ≤ maxNameLength

instance (n : Name) : Decidable (Name.IsPlain n) := inferInstanceAs (Decidable (_ ∧ _))

namespace Path

theorem mem_of_mem_split {bs : List UInt8} {n : Name} {b : UInt8} (hn : n ∈ split bs) (hb : b ∈ n) :
    b ∈ bs ∧ b ≠ slash := by
  induction bs generalizing n with
  | nil =>
    simp only [split, List.mem_singleton] at hn
    simp [hn] at hb
  | cons c cs ih =>
    simp only [split] at hn
    split at hn
    · rcases List.mem_cons.mp hn with rfl | hn
      · simp at hb
      · exact ⟨List.mem_cons_of_mem c (ih hn hb).1, (ih hn hb).2⟩
    · rename_i hc
      split at hn
      · simp only [List.mem_singleton] at hn
        subst hn
        rw [List.mem_singleton] at hb
        subst hb
        exact ⟨List.mem_cons_self, hc⟩
      · rename_i m ms hs
        rw [hs] at ih
        rcases List.mem_cons.mp hn with rfl | hn
        · rcases List.mem_cons.mp hb with rfl | hb
          · exact ⟨List.mem_cons_self, hc⟩
          · have := ih List.mem_cons_self hb
            exact ⟨List.mem_cons_of_mem c this.1, this.2⟩
        · have := ih (List.mem_cons_of_mem m hn) hb
          exact ⟨List.mem_cons_of_mem c this.1, this.2⟩

theorem mem_split_of_mem_names {p : Path} {n : Name} (hn : n ∈ p.names) : n ∈ split p.bytes := by
  simp only [names, List.mem_append, List.mem_filter] at hn
  rcases hn with ⟨hn, _⟩ | hn
  · exact List.dropLast_subset _ hn
  · exact List.mem_of_getLast? (by simpa using hn)

def NoMarks (n : Name) : Prop := slash ∉ n ∧ 0 ∉ n

theorem noMarks_names {p : Path} (hp : p.check = .ok ()) : ∀ n ∈ p.names, NoMarks n := by
  intro n hn
  have hs := mem_split_of_mem_names hn
  refine ⟨fun hb => (mem_of_mem_split hs hb).2 rfl, fun hb => ?_⟩
  simp [check, (mem_of_mem_split hs hb).1] at hp

end Path

namespace FileTree

structure WellFormed (t : FileTree) : Prop where
  distinct : (t.entries.map (·.1)).Nodup
  /-- The top of the tree is not in the table. -/
  rooted : ∀ e ∈ t.entries, e.1 ≠ []
  named : ∀ e ∈ t.entries, ∀ n ∈ e.1, Name.IsPlain n
  inDirectory : ∀ e ∈ t.entries, t.isDirectory e.1.dropLast = true
  linked : ∀ e ∈ t.entries, ∀ p, e.2 = .link p → p.check = .ok ()

@[simp] theorem node?_nil (t : FileTree) : t.node? [] = some .directory := rfl

theorem node?_of_ne_nil (t : FileTree) {l : Location} (h : l ≠ []) :
    t.node? l = t.entries.lookup l := if_neg h

theorem mem_of_lookup {es : List (Location × Node)} {l : Location} {n : Node}
    (h : es.lookup l = some n) : (l, n) ∈ es := by
  obtain ⟨l₁, l₂, rfl, _⟩ := List.lookup_eq_some_iff.mp h
  exact List.mem_append_right _ List.mem_cons_self

theorem lookup_of_mem {es : List (Location × Node)} (h : (es.map (·.1)).Nodup)
    {e : Location × Node} (he : e ∈ es) : es.lookup e.1 = some e.2 := by
  induction es with
  | nil => simp at he
  | cons d es ih =>
    rw [List.map_cons, List.nodup_cons] at h
    rcases List.mem_cons.mp he with rfl | he
    · rw [List.lookup_cons_self]
    · have hne : e.1 ≠ d.1 := fun heq => h.1 (heq ▸ List.mem_map_of_mem he)
      rw [List.lookup_cons, beq_eq_false_iff_ne.mpr hne]
      exact ih h.2 he

theorem mem_of_node? {t : FileTree} {l : Location} {n : Node} (h : l ≠ []) (hn : t.node? l = some n) :
    (l, n) ∈ t.entries := mem_of_lookup (by rwa [← t.node?_of_ne_nil h])

theorem isDirectory_iff (t : FileTree) (l : Location) :
    t.isDirectory l = true ↔ t.node? l = some .directory := by
  simp [isDirectory]

theorem any_key {es : List (Location × Node)} {l : Location} :
    es.any (·.1 = l) = true ↔ ∃ e ∈ es, e.1 = l := by
  simp only [List.any_eq_true, decide_eq_true_eq]

theorem mem_put (t : FileTree) (l : Location) (n : Node) (e : Location × Node) :
    e ∈ (t.put l n).entries ↔ e = (l, n) ∨ e ∈ t.entries ∧ e.1 ≠ l := by
  unfold put
  split
  · rename_i h
    obtain ⟨d, hd, hl⟩ := any_key.mp h
    simp only [List.mem_map]
    constructor
    · rintro ⟨a, ha, rfl⟩
      split
      · exact .inl rfl
      · rename_i hne
        exact .inr ⟨ha, hne⟩
    · rintro (rfl | ⟨he, hne⟩)
      · exact ⟨d, hd, if_pos hl⟩
      · exact ⟨e, he, if_neg hne⟩
  · rename_i h
    have hl : ∀ e ∈ t.entries, e.1 ≠ l := fun e he hel => h (any_key.mpr ⟨e, he, hel⟩)
    simp only [List.mem_append, List.mem_singleton]
    constructor
    · rintro (he | rfl)
      · exact .inr ⟨he, hl e he⟩
      · exact .inl rfl
    · rintro (rfl | ⟨he, _⟩)
      · exact .inr rfl
      · exact .inl he

theorem keys_put (t : FileTree) (l : Location) (n : Node) :
    (t.put l n).entries.map (·.1) =
      if l ∈ t.entries.map (·.1) then t.entries.map (·.1) else t.entries.map (·.1) ++ [l] := by
  have hany : t.entries.any (·.1 = l) = true ↔ l ∈ t.entries.map (·.1) := by
    rw [any_key, List.mem_map]
  unfold put
  by_cases h : l ∈ t.entries.map (·.1)
  · rw [if_pos (hany.mpr h), if_pos h, List.map_map]
    refine List.map_congr_left fun e _ => ?_
    simp only [Function.comp_apply]
    split
    · rename_i he
      exact he.symm
    · rfl
  · rw [if_neg (fun ha => h (hany.mp ha)), if_neg h]
    simp

theorem lookup_replace (es : List (Location × Node)) (l k : Location) (n : Node) :
    (es.map fun e => if e.1 = l then (l, n) else e).lookup k =
      if k = l then (es.lookup l).map fun _ => n else es.lookup k := by
  induction es with
  | nil => simp
  | cons e es ih =>
    obtain ⟨m, d⟩ := e
    rw [List.map_cons]
    by_cases hm : m = l
    · subst hm
      by_cases hk : k = m
      · simp [hk]
      · have hkm : (k == m) = false := beq_eq_false_iff_ne.mpr hk
        simp only [if_true, if_neg hk, List.lookup_cons, hkm, ih]
    · by_cases hk : k = l
      · subst hk
        have hkm : (k == m) = false := beq_eq_false_iff_ne.mpr (Ne.symm hm)
        simp only [if_neg hm, if_true, List.lookup_cons, hkm, ih]
      · simp only [if_neg hm, if_neg hk, List.lookup_cons, ih]

theorem node?_put (t : FileTree) {l : Location} (hl : l ≠ []) (n : Node) (k : Location) :
    (t.put l n).node? k = if k = l then some n else t.node? k := by
  by_cases hk : k = []
  · subst hk
    rw [if_neg (Ne.symm hl)]
    rfl
  rw [node?_of_ne_nil _ hk, node?_of_ne_nil _ hk, put]
  split
  · rename_i h
    obtain ⟨e, he, hel⟩ := any_key.mp h
    have hs : (t.entries.lookup l).isSome := by
      rw [List.lookup_isSome_iff]
      exact ⟨e, he, by simp [hel]⟩
    obtain ⟨d, hd⟩ := Option.isSome_iff_exists.mp hs
    simp only [lookup_replace, hd, Option.map_some]
  · rename_i h
    have hne : ∀ e ∈ t.entries, e.1 ≠ l := fun e he hel => h (any_key.mpr ⟨e, he, hel⟩)
    have hn : t.entries.lookup l = none := by
      rw [List.lookup_eq_none_iff]
      intro e he
      simpa using fun heq => hne e he heq.symm
    simp only [List.lookup_append]
    by_cases hkl : k = l
    · subst hkl
      simp [hn]
    · have hb : (k == l) = false := beq_eq_false_iff_ne.mpr hkl
      simp only [List.lookup_cons, List.lookup_nil, hb, Option.or_none, if_neg hkl]

theorem node?_put_same (t : FileTree) {l : Location} (hl : l ≠ []) (n : Node) :
    (t.put l n).node? l = some n := by
  rw [node?_put t hl, if_pos rfl]

theorem node?_put_other (t : FileTree) {l k : Location} (hl : l ≠ []) (n : Node) (hk : k ≠ l) :
    (t.put l n).node? k = t.node? k := by
  rw [node?_put t hl, if_neg hk]

/-- A place for a node: it has a name of its own in a directory. -/
structure IsPlace (t : FileTree) (l : Location) : Prop where
  nonempty : l ≠ []
  plain : ∀ n ∈ l, Name.IsPlain n
  inDirectory : t.isDirectory l.dropLast = true

namespace WellFormed

variable {t : FileTree}

theorem node?_of_mem (ht : t.WellFormed) {e : Location × Node} (he : e ∈ t.entries) :
    t.node? e.1 = some e.2 := by
  rw [node?_of_ne_nil t (ht.rooted e he), lookup_of_mem ht.distinct he]

theorem isPlace (ht : t.WellFormed) {l : Location} (hl : l ≠ []) (hn : t.node? l ≠ none) :
    t.IsPlace l := by
  obtain ⟨n, hn⟩ := Option.ne_none_iff_exists'.mp hn
  have hm := mem_of_node? hl hn
  exact ⟨hl, ht.named _ hm, ht.inDirectory _ hm⟩

theorem isPlace_concat (ht : t.WellFormed) {d : Location} {n : Name} (hd : t.isDirectory d = true)
    (hn : Name.IsPlain n) : t.IsPlace (d ++ [n]) := by
  refine ⟨by simp, fun m hm => ?_, by rwa [List.dropLast_concat]⟩
  rcases List.mem_append.mp hm with hm | hm
  · by_cases h0 : d = []
    · simp [h0] at hm
    · rw [isDirectory_iff] at hd
      exact ht.named _ (mem_of_node? h0 hd) m hm
  · rw [List.mem_singleton] at hm
    rwa [hm]

theorem parent (ht : t.WellFormed) {l : Location} (hl : t.node? l ≠ none) :
    t.isDirectory l.dropLast = true := by
  by_cases h0 : l = []
  · rw [h0]
    rfl
  · exact (ht.isPlace h0 hl).inDirectory

/-- Directories are never replaced by anything else, so what is in them stays in a directory. -/
theorem isDirectory_put_of_isDirectory {l k : Location} {n : Node} (hl : t.IsPlace l)
    (hn : n = .directory ∨ t.isDirectory l = false) (hk : t.isDirectory k = true) :
    (t.put l n).isDirectory k = true := by
  rw [isDirectory_iff] at *
  by_cases hkl : k = l
  · subst hkl
    rcases hn with rfl | hn
    · exact node?_put_same t hl.nonempty _
    · simp [isDirectory, hk] at hn
  · rwa [node?_put_other t hl.nonempty n hkl]

theorem put (ht : t.WellFormed) {l : Location} {n : Node} (hl : t.IsPlace l)
    (hn : n = .directory ∨ t.isDirectory l = false) (hp : ∀ p, n = .link p → p.check = .ok ()) :
    (t.put l n).WellFormed where
  distinct := by
    rw [keys_put]
    split
    · exact ht.distinct
    · rename_i h
      rw [List.nodup_append]
      refine ⟨ht.distinct, by simp, fun a ha b hb => ?_⟩
      rw [List.mem_singleton] at hb
      rintro rfl
      exact h (hb ▸ ha)
  rooted e he := by
    rcases (mem_put t l n e).mp he with rfl | ⟨he, _⟩
    · exact hl.nonempty
    · exact ht.rooted e he
  named e he := by
    rcases (mem_put t l n e).mp he with rfl | ⟨he, _⟩
    · exact hl.plain
    · exact ht.named e he
  inDirectory e he := by
    rcases (mem_put t l n e).mp he with rfl | ⟨he, _⟩
    · exact isDirectory_put_of_isDirectory hl hn hl.inDirectory
    · exact isDirectory_put_of_isDirectory hl hn (ht.inDirectory e he)
  linked e he := by
    rcases (mem_put t l n e).mp he with rfl | ⟨he, _⟩
    · exact hp
    · exact ht.linked e he

end WellFormed
end FileTree
end PagingGate
