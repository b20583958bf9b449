import PagingGate.Proofs.FileTree.Names
import PagingGate.Proofs.FileTree.Walk

set_option autoImplicit false

namespace PagingGate.FileTree

variable {t : FileTree} {create : Bool} {links : Nat} {dir k l : Location} {names : List Name}
  {content : List UInt8} {now : Time} {p : Path}

theorem Leads.eq_of_not_isDirectory (h : t.Leads create links dir names k)
    (hd : t.isDirectory dir = false) : k = dir := by
  cases h with
  | here => rfl
  | stay hdir => simp [hd] at hdir
  | up hdir => simp [hd] at hdir
  | new hdir => simp [hd] at hdir
  | follow hdir => simp [hd] at hdir
  | down hdir => simp [hd] at hdir

theorem Leads.without_create (h : t.Leads true links dir names k) (hk : t.node? k ≠ none) :
    t.Leads false links dir names k := by
  induction h with
  | here => exact .here
  | stay hd hn _ ih => exact .stay hd hn (ih hk)
  | up hd _ ih => exact .up hd (ih hk)
  | new _ _ _ hnode => exact absurd hnode hk
  | follow hd hn _ hnode _ ih => exact .follow hd hn (fun h => by simp at h) hnode (ih hk)
  | down hd hn _ hnode hlink _ ih => exact .down hd hn (fun h => by simp at h) hnode hlink (ih hk)

theorem Leads.split {xs ys : List Name} (h : t.Leads false links dir (xs ++ ys) k) :
    ∃ links' mid, t.Leads false links dir xs mid ∧ t.Leads false links' mid ys k := by
  have free : ∀ rest, Continues false rest := fun rest h => by simp at h
  generalize hnames : xs ++ ys = names at h
  -- The cut stands either before the name of a step, or behind it and the rest is cut.
  induction h generalizing xs with
  | @here links dir =>
    obtain ⟨rfl, rfl⟩ := List.append_eq_nil_iff.mp hnames
    exact ⟨links, dir, .here, .here⟩
  | @stay links dir name rest l hd hn hw ih =>
    rcases List.append_eq_cons_iff.mp hnames with ⟨rfl, rfl⟩ | ⟨xs, rfl, hrest⟩
    · exact ⟨links, dir, .here, .stay hd hn hw⟩
    · obtain ⟨links', mid, hx, hy⟩ := ih hrest.symm
      exact ⟨links', mid, .stay hd hn hx, hy⟩
  | @up links dir rest l hd hw ih =>
    rcases List.append_eq_cons_iff.mp hnames with ⟨rfl, rfl⟩ | ⟨xs, rfl, hrest⟩
    · exact ⟨links, dir, .here, .up hd hw⟩
    · obtain ⟨links', mid, hx, hy⟩ := ih hrest.symm
      exact ⟨links', mid, .up hd hx, hy⟩
  | new _ _ hc => simp at hc
  | @follow links dir name rest target l hd hn hc hnode hw ih =>
    rcases List.append_eq_cons_iff.mp hnames with ⟨rfl, rfl⟩ | ⟨xs, rfl, hrest⟩
    · exact ⟨links + 1, dir, .here, .follow hd hn hc hnode hw⟩
    · have hjoin : (target.names ++ xs) ++ ys = target.names ++ rest := by
        rw [List.append_assoc, hrest]
      obtain ⟨links', mid, hx, hy⟩ := ih hjoin
      exact ⟨links', mid, .follow hd hn (free xs) hnode hx, hy⟩
  | @down links dir name rest n l hd hn hc hnode hlink hw ih =>
    rcases List.append_eq_cons_iff.mp hnames with ⟨rfl, rfl⟩ | ⟨xs, rfl, hrest⟩
    · exact ⟨links, dir, .here, .down hd hn hc hnode hlink hw⟩
    · obtain ⟨links', mid, hx, hy⟩ := ih hrest.symm
      exact ⟨links', mid, .down hd hn (free xs) hnode hlink hx, hy⟩

theorem WellFormed.above (ht : t.WellFormed) {base rel : Location} (hrel : rel ≠ [])
    (h : t.node? (base ++ rel) ≠ none) : t.isDirectory base = true := by
  induction rel generalizing base with
  | nil => exact absurd rfl hrel
  | cons m rel ih =>
    have hm : t.node? (base ++ [m]) ≠ none := by
      by_cases h0 : rel = []
      · rwa [h0] at h
      · rw [List.append_cons] at h
        simp [(isDirectory_iff t _).mp (ih h0 h)]
    have hp := ht.parent hm
    rwa [List.dropLast_concat] at hp

/-- Plain names lead down to what stands there, for there are directories on the way. -/
theorem Leads.descend (ht : t.WellFormed) {base rel : Location} {n : Node}
    (h : t.Leads false links base rel k) (hrel : ∀ m ∈ rel, Name.IsPlain m)
    (hn : t.node? (base ++ rel) = some n) (hlink : ∀ target, n ≠ .link target) : k = base ++ rel := by
  induction rel generalizing base links with
  | nil =>
    cases h
    rw [List.append_nil]
  | cons m rel ih =>
    obtain ⟨h0, hdot, hdots, _⟩ := hrel m List.mem_cons_self
    rw [List.append_cons] at hn ⊢
    cases h with
    | stay _ hm => exact absurd hm (by simp [h0, hdot])
    | up => exact absurd rfl hdots
    | new _ _ hc => simp at hc
    | follow _ _ _ hnode =>
      by_cases hr : rel = []
      · rw [hr, List.append_nil, hnode] at hn
        exact absurd (Option.some.inj hn).symm (hlink _)
      · have hd : t.isDirectory (base ++ [m]) = true := ht.above hr (by rw [hn]; simp)
        rw [isDirectory_iff, hnode] at hd
        simp at hd
    | down _ _ _ _ _ hw => exact ih hw (fun m' hm' => hrel m' (List.mem_cons_of_mem m hm')) hn

theorem locate_join (ht : t.WellFormed) {root : Path} {base rel : Location} {n : Node}
    (hb : t.locate root = .ok base) (h0 : rel ≠ []) (hrel : ∀ m ∈ rel, Name.IsPlain m)
    (hn : t.node? (base ++ rel) = some n) (hlink : ∀ target, n ≠ .link target)
    (h : t.locate (root.join rel) = .ok k) : k = base ++ rel := by
  obtain ⟨_, hw⟩ := locate_eq_ok_iff.mp h
  obtain ⟨_, hroot⟩ := locate_eq_ok_iff.mp hb
  rw [Path.names_join root rel h0 fun m hm => ⟨(hrel m hm).1, (hrel m hm).2.2.2.1⟩] at hw
  obtain ⟨links', mid, hmid, hdown⟩ := hw.split
  have hbase : mid = base := by
    rcases Path.names_eq_components root with hc | hc
    · rw [hc] at hroot
      exact Except.ok.inj ((walk_of_leads hmid).symm.trans (walk_of_leads hroot))
    · rw [hc] at hroot
      obtain ⟨_, mid', hmid', hlast⟩ := hroot.split
      have hend : base = mid' := by
        cases hlast with
        | stay _ _ hw => cases hw; rfl
        | down _ hn => exact absurd rfl hn.1
        | follow _ hn => exact absurd rfl hn.1
        | new _ _ hc => simp at hc
      rw [hend]
      exact Except.ok.inj ((walk_of_leads hmid).symm.trans (walk_of_leads hmid'))
  rw [hbase] at hdown
  exact hdown.descend ht hrel hn hlink

theorem isDirectory_put (hl : t.IsFilePlace l) (k : Location) :
    (t.put l (.file content now)).isDirectory k = t.isDirectory k := by
  by_cases hk : k = l
  · rw [hk, hl.isDirectory, isDirectory, node?_put_same t hl.nonempty]
    rfl
  · rw [isDirectory, isDirectory, node?_put_other t hl.nonempty _ hk]

theorem Leads.put (h : t.Leads create links dir names k) (hl : t.IsFilePlace l) :
    (t.put l (.file content now)).Leads create links dir names k := by
  induction h with
  | here => exact .here
  | stay hd hn _ ih => exact .stay (by rwa [isDirectory_put hl]) hn ih
  | up hd _ ih => exact .up (by rwa [isDirectory_put hl]) ih
  | @new links dir name hd hn hc hnode =>
    have hd' : (t.put l (.file content now)).isDirectory dir = true := by rwa [isDirectory_put hl]
    by_cases hk : dir ++ [name] = l
    · have hfile : (t.put l (.file content now)).node? (dir ++ [name]) = some (.file content now) := by
        rw [hk, node?_put_same t hl.nonempty]
      exact .down hd' hn (fun h => h.2.1 rfl) hfile (by simp) .here
    · exact .new hd' hn hc (by rwa [node?_put_other t hl.nonempty _ hk])
  | @follow links dir name rest target k hd hn hc hnode _ ih =>
    refine .follow (by rwa [isDirectory_put hl]) hn hc ?_ ih
    -- A link does not stand at `l`, which is free or holds a file.
    rw [node?_put_other t hl.nonempty, hnode]
    intro hk
    rcases hl.free with hf | ⟨_, _, hf⟩ <;> simp [← hk, hnode] at hf
  | @down links dir name rest n k hd hn hc hnode hlink _ ih =>
    have hd' : (t.put l (.file content now)).isDirectory dir = true := by rwa [isDirectory_put hl]
    by_cases hk : dir ++ [name] = l
    · have hfile : (t.put l (.file content now)).node? (dir ++ [name]) = some (.file content now) := by
        rw [hk, node?_put_same t hl.nonempty]
      exact .down hd' hn hc hfile (by simp) ih
    · exact .down hd' hn hc (by rwa [node?_put_other t hl.nonempty _ hk]) hlink ih

theorem Leads.of_put (hl : t.IsFilePlace l)
    (h : (t.put l (.file content now)).Leads false links dir names k) (hk : k ≠ l) :
    t.Leads false links dir names k := by
  induction h with
  | here => exact .here
  | stay hd hn _ ih => exact .stay (by rwa [isDirectory_put hl] at hd) hn (ih hk)
  | up hd _ ih => exact .up (by rwa [isDirectory_put hl] at hd) (ih hk)
  | new _ _ hc => simp at hc
  | @follow links dir name rest target k hd hn hc hnode _ ih =>
    refine .follow (by rwa [isDirectory_put hl] at hd) hn hc ?_ (ih hk)
    by_cases hname : dir ++ [name] = l
    · rw [hname, node?_put_same t hl.nonempty] at hnode
      simp at hnode
    · rwa [node?_put_other t hl.nonempty _ hname] at hnode
  | @down links dir name rest n k hd hn hc hnode hlink hw ih =>
    by_cases hname : dir ++ [name] = l
    · -- Behind a file there is nothing more to walk.
      rw [hname] at hw
      have hend := hw.eq_of_not_isDirectory (by rw [isDirectory_put hl, hl.isDirectory])
      exact absurd hend hk
    · rw [node?_put_other t hl.nonempty _ hname] at hnode
      exact .down (by rwa [isDirectory_put hl] at hd) hn hc hnode hlink (ih hk)

theorem locate_put (hl : t.IsFilePlace l) (h : t.locate p = .ok k) :
    (t.put l (.file content now)).locate p = .ok k := by
  obtain ⟨hp, hw⟩ := locate_eq_ok_iff.mp h
  exact locate_eq_ok_iff.mpr ⟨hp, hw.put hl⟩

theorem locate_of_put (hl : t.IsFilePlace l) (hk : k ≠ l)
    (h : (t.put l (.file content now)).locate p = .ok k) : t.locate p = .ok k := by
  obtain ⟨hp, hw⟩ := locate_eq_ok_iff.mp h
  exact locate_eq_ok_iff.mpr ⟨hp, hw.of_put hl hk⟩

theorem locateNew_put (hl : t.IsFilePlace l) (h : t.locateNew p = .ok k) :
    (t.put l (.file content now)).locateNew p = .ok k := by
  obtain ⟨hp, hw⟩ := locateNew_eq_ok_iff.mp h
  exact locateNew_eq_ok_iff.mpr ⟨hp, hw.put hl⟩

theorem locate_of_locateNew (h : t.locateNew p = .ok k) (hk : t.node? k ≠ none) :
    t.locate p = .ok k := by
  obtain ⟨hp, hw⟩ := locateNew_eq_ok_iff.mp h
  exact locate_eq_ok_iff.mpr ⟨hp, hw.without_create hk⟩

theorem fileTime?_eq_some_iff {modified : Time} :
    t.fileTime? p = some modified ↔
      ∃ k content, t.locate p = .ok k ∧ t.node? k = some (.file content modified) := by
  unfold fileTime?
  cases t.locate p with
  | error e => simp
  | ok k =>
    simp only [Except.ok.injEq, exists_and_left, exists_eq_left']
    split
    · rename_i hn
      simp [hn]
    · rename_i hn
      simp only [reduceCtorEq, false_iff]
      rintro ⟨c, hc⟩
      exact hn c _ hc

theorem read_eq_ok_iff :
    t.read p = .ok content ↔
      ∃ k modified, t.locate p = .ok k ∧ t.node? k = some (.file content modified) := by
  unfold read
  cases t.locate p with
  | error e => simp
  | ok k =>
    simp only [Except.ok_bind, Except.ok.injEq, exists_and_left, exists_eq_left']
    split
    · rename_i hn
      simp [hn]
    · rename_i hn
      simp [hn]
    · rename_i hfile _
      simp only [reduceCtorEq, false_iff]
      rintro ⟨m, hm⟩
      exact hfile _ m hm

theorem read_of_write {t' : FileTree} (ht : t.WellFormed) (h : t.write p content now = .ok t') :
    t'.read p = .ok content := by
  obtain ⟨l, hl, hd, rfl⟩ := write_eq_ok_iff.mp h
  have hplace := isFilePlace_of_locateNew ht hl hd
  have hfile := node?_put_same t hplace.nonempty (.file content now)
  exact read_eq_ok_iff.mpr
    ⟨l, now, locate_of_locateNew (locateNew_put hplace hl) (by simp [hfile]), hfile⟩

theorem canWrite_of_write {t' : FileTree} (ht : t.WellFormed) (h : t.write p content now = .ok t') :
    t'.CanWrite p := by
  obtain ⟨l, hl, hd, rfl⟩ := write_eq_ok_iff.mp h
  have hplace := isFilePlace_of_locateNew ht hl hd
  exact ⟨l, locateNew_put hplace hl, by rw [isDirectory_put hplace, hd]⟩

end PagingGate.FileTree
