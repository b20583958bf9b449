import PagingGate.Except
import PagingGate.Proofs.FileTree.WellFormed

set_option autoImplicit false

namespace PagingGate.FileTree

def IsLookedUp (n : Name) : Prop :=
  n ≠ [] ∧ n ≠ Path.dot ∧ n ≠ Path.dotDot ∧ n.length ≤ maxNameLength

/-- With `create`, nothing but slashes may not follow a name. -/
def Continues (create : Bool) (rest : List Name) : Prop :=
  ¬ (create = true ∧ rest ≠ [] ∧ rest.all List.isEmpty = true)

inductive Leads (t : FileTree) (create : Bool) : Nat → Location → List Name → Location → Prop where
  | here {links dir} : Leads t create links dir [] dir
  | stay {links dir name rest l} : t.isDirectory dir = true → name = [] ∨ name = Path.dot →
      Leads t create links dir rest l → Leads t create links dir (name :: rest) l
  | up {links dir rest l} : t.isDirectory dir = true →
      Leads t create links dir.dropLast rest l → Leads t create links dir (Path.dotDot :: rest) l
  | new {links dir name} : t.isDirectory dir = true → IsLookedUp name → create = true →
      t.node? (dir ++ [name]) = none → Leads t create links dir [name] (dir ++ [name])
  | follow {links dir name rest target l} : t.isDirectory dir = true → IsLookedUp name →
      Continues create rest → t.node? (dir ++ [name]) = some (.link target) →
      Leads t create links (target.start dir) (target.names ++ rest) l →
      Leads t create (links + 1) dir (name :: rest) l
  | down {links dir name rest n l} : t.isDirectory dir = true → IsLookedUp name →
      Continues create rest → t.node? (dir ++ [name]) = some n → (∀ target, n ≠ .link target) →
      Leads t create links (dir ++ [name]) rest l → Leads t create links dir (name :: rest) l

theorem leads_of_walk {t : FileTree} {create : Bool} {links : Nat} {dir l : Location} {names : List Name}
    (h : t.walk create links dir names = .ok l) : t.Leads create links dir names l := by
  fun_induction walk t create links dir names with
  | case1 links dir =>
    simp only [Except.ok.injEq] at h
    rw [h]
    exact .here
  | case2 => simp at h
  | case3 links dir name rest hd hn ih => exact .stay (by simpa using hd) hn (ih h)
  | case4 links dir rest hd _ ih => exact .up (by simpa using hd) (ih h)
  | case5 => simp at h
  | case6 => simp at h
  | case7 links dir name rest hd hn hp hc hl hnode hr =>
    simp only [Except.ok.injEq] at h
    obtain ⟨hcreate, rfl⟩ := hr
    rw [← h]
    exact .new (by simpa using hd) ⟨fun e => hn (.inl e), fun e => hn (.inr e), hp, Nat.not_lt.mp hl⟩
      hcreate hnode
  | case8 => simp at h
  | case9 => simp at h
  | case10 dir name rest hd hn hp hc hl target hnode links ih =>
    exact .follow (by simpa using hd)
      ⟨fun e => hn (.inl e), fun e => hn (.inr e), hp, Nat.not_lt.mp hl⟩ hc hnode (ih h)
  | case11 links dir name rest hd hn hp hc hl n hlink hnode ih =>
    exact .down (by simpa using hd)
      ⟨fun e => hn (.inl e), fun e => hn (.inr e), hp, Nat.not_lt.mp hl⟩ hc hnode
      (fun target e => hlink target e) (ih h)

theorem walk_of_leads {t : FileTree} {create : Bool} {links : Nat} {dir l : Location} {names : List Name}
    (h : t.Leads create links dir names l) : t.walk create links dir names = .ok l := by
  induction h with
  | here => rw [walk]
  | stay hd hn _ ih => rw [walk, hd, if_pos hn]; exact ih
  | up hd _ ih =>
    rw [walk, hd, if_neg (by decide), if_pos rfl]
    exact ih
  | new hd hn hc hnode =>
    obtain ⟨h0, h1, h2, hl⟩ := hn
    rw [walk, hd, if_neg (by simp), if_neg (by simp [h0, h1]), if_neg h2, if_neg (by simp),
      if_neg (Nat.not_lt.mpr hl), hnode]
    simp [hc]
  | follow hd hn hc hnode _ ih =>
    obtain ⟨h0, h1, h2, hl⟩ := hn
    rw [walk, hd, if_neg (by simp), if_neg (by simp [h0, h1]), if_neg h2, if_neg hc,
      if_neg (Nat.not_lt.mpr hl), hnode]
    exact ih
  | down hd hn hc hnode hlink _ ih =>
    obtain ⟨h0, h1, h2, hl⟩ := hn
    rw [walk, hd, if_neg (by simp), if_neg (by simp [h0, h1]), if_neg h2, if_neg hc,
      if_neg (Nat.not_lt.mpr hl), hnode]
    split
    · rename_i e
      simp at e
    · rename_i target e
      exact absurd (Option.some.inj e) (hlink target)
    · exact ih

theorem walk_eq_ok_iff {t : FileTree} {create : Bool} {links : Nat} {dir l : Location}
    {names : List Name} :
    t.walk create links dir names = .ok l ↔ t.Leads create links dir names l :=
  ⟨leads_of_walk, walk_of_leads⟩

theorem locate_eq_ok_iff {t : FileTree} {p : Path} {l : Location} :
    t.locate p = .ok l ↔ p.check = .ok () ∧ t.Leads false maxLinks [] p.names l := by
  rw [← walk_eq_ok_iff, locate]
  cases p.check <;> simp

theorem locateNew_eq_ok_iff {t : FileTree} {p : Path} {l : Location} :
    t.locateNew p = .ok l ↔ p.check = .ok () ∧ t.Leads true maxLinks [] p.names l := by
  rw [← walk_eq_ok_iff, locateNew]
  cases p.check <;> simp

theorem Leads.ends {t : FileTree} {create : Bool} {links : Nat} {dir l : Location} {names : List Name}
    (ht : t.WellFormed) (h : t.Leads create links dir names l) (hdir : t.node? dir ≠ none)
    (hn : ∀ n ∈ names, Path.NoMarks n) : t.node? l ≠ none ∨ t.IsPlace l := by
  induction h with
  | here => exact .inl hdir
  | stay _ _ _ ih => exact ih hdir fun n hm => hn n (List.mem_cons_of_mem _ hm)
  | up hd _ ih =>
    refine ih ?_ fun n hm => hn n (List.mem_cons_of_mem _ hm)
    simp [(isDirectory_iff t _).mp (ht.parent hdir)]
  | new hd hlook _ _ =>
    obtain ⟨h0, h1, h2, hl⟩ := hlook
    obtain ⟨hs, hz⟩ := hn _ List.mem_cons_self
    exact .inr (ht.isPlace_concat hd ⟨h0, h1, h2, hs, hz, hl⟩)
  | @follow _ dir name _ target _ hd _ _ hnode _ ih =>
    have hp : target.check = .ok () :=
      ht.linked _ (mem_of_node? (by simp) hnode) target rfl
    refine ih ?_ fun n hm => ?_
    · unfold Path.start
      split
      · simp
      · exact hdir
    · rcases List.mem_append.mp hm with hm | hm
      · exact Path.noMarks_names hp n hm
      · exact hn n (List.mem_cons_of_mem _ hm)
  | down _ _ _ hnode _ _ ih =>
    exact ih (by simp [hnode]) fun n hm => hn n (List.mem_cons_of_mem _ hm)

theorem Leads.node?_ne_link {t : FileTree} {create : Bool} {links : Nat} {dir l : Location}
    {names : List Name} (h : t.Leads create links dir names l) (ht : t.WellFormed)
    (hdir : ∀ target, t.node? dir ≠ some (.link target)) :
    ∀ target, t.node? l ≠ some (.link target) := by
  induction h with
  | here => exact hdir
  | stay _ _ _ ih => exact ih hdir
  | up hd _ ih =>
    refine ih fun target => ?_
    rw [(isDirectory_iff t _).mp (ht.parent (by simp [(isDirectory_iff t _).mp hd]))]
    simp
  | new _ _ _ hnode => simp [hnode]
  | follow hd _ _ _ _ ih =>
    refine ih fun target => ?_
    unfold Path.start
    split
    · simp
    · exact hdir target
  | down _ _ _ hnode hlink _ ih =>
    refine ih fun target => ?_
    rw [hnode]
    exact fun e => hlink target (Option.some.inj e)

/-- A place that holds no node, or a file. -/
structure IsFilePlace (t : FileTree) (l : Location) : Prop extends t.IsPlace l where
  free : t.node? l = none ∨ ∃ content modified, t.node? l = some (.file content modified)

theorem IsFilePlace.isDirectory {t : FileTree} {l : Location} (h : t.IsFilePlace l) :
    t.isDirectory l = false := by
  rcases h.free with hn | ⟨content, modified, hn⟩ <;> simp [FileTree.isDirectory, hn]

theorem isFilePlace_of_locateNew {t : FileTree} (ht : t.WellFormed) {p : Path} {l : Location}
    (hl : t.locateNew p = .ok l) (hd : t.isDirectory l = false) : t.IsFilePlace l := by
  obtain ⟨hp, hw⟩ := locateNew_eq_ok_iff.mp hl
  have h0 : l ≠ [] := by
    rintro rfl
    simp [FileTree.isDirectory] at hd
  have hlink := hw.node?_ne_link ht (by simp)
  refine ⟨?_, ?_⟩
  · rcases hw.ends ht (by simp) (Path.noMarks_names hp) with hn | hn
    · exact ht.isPlace h0 hn
    · exact hn
  · cases hn : t.node? l with
    | none => exact .inl rfl
    | some n =>
      cases n with
      | file content modified => exact .inr ⟨content, modified, rfl⟩
      | directory => simp [FileTree.isDirectory, hn] at hd
      | link target => exact absurd hn (hlink target)

/-- Can a file of this path be written? What is written does not matter. -/
def CanWrite (t : FileTree) (p : Path) : Prop :=
  ∃ l, t.locateNew p = .ok l ∧ t.isDirectory l = false

theorem write_eq_ok_iff {t t' : FileTree} {p : Path} {content : List UInt8} {now : Time} :
    t.write p content now = .ok t' ↔
      ∃ l, t.locateNew p = .ok l ∧ t.isDirectory l = false ∧ t' = t.put l (.file content now) := by
  unfold write
  cases t.locateNew p with
  | error e => simp
  | ok l =>
    simp only [Except.ok_bind, Except.ok.injEq]
    split
    · rename_i hd
      simp [hd]
    · rename_i hd
      simp only [Except.pure_eq_ok, Except.ok.injEq]
      constructor
      · rintro rfl
        exact ⟨l, rfl, by simpa using hd, rfl⟩
      · rintro ⟨_, rfl, _, rfl⟩
        rfl

theorem canWrite_iff {t : FileTree} {p : Path} (content : List UInt8) (now : Time) :
    t.CanWrite p ↔ ∃ t', t.write p content now = .ok t' := by
  simp only [write_eq_ok_iff, CanWrite]
  constructor
  · rintro ⟨l, hl, hd⟩
    exact ⟨_, l, hl, hd, rfl⟩
  · rintro ⟨_, l, hl, hd, _⟩
    exact ⟨l, hl, hd⟩

theorem WellFormed.write {t t' : FileTree} (ht : t.WellFormed) {p : Path} {content : List UInt8}
    {now : Time} (h : t.write p content now = .ok t') : t'.WellFormed := by
  obtain ⟨l, hl, hd, rfl⟩ := write_eq_ok_iff.mp h
  have hplace := isFilePlace_of_locateNew ht hl hd
  exact ht.put hplace.toIsPlace (.inr hd) (by simp)

end PagingGate.FileTree
