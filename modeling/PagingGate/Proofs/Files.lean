import PagingGate.Files
import PagingGate.Proofs.Discovery.Reached
import PagingGate.Proofs.FileTree.Edit

set_option autoImplicit false

/-!
# Running on the files of a tree

The walk down the directories of a tree comes to the files that the table of the tree has under the root, in another
order. Discovery does not depend on the order, so a run on the files of a tree is `FileTree.program`, whatever edits and
runs have made the tree.
-/

namespace PagingGate

namespace Path

theorem bytes_prefix_join_one (p : Path) (n : Name) : p.bytes <+: (p.join [n]).bytes := by
  simp only [join, List.foldl_cons, List.foldl_nil]
  split
  · exact List.prefix_append _ _
  · rw [List.append_assoc]
    exact List.prefix_append _ _

theorem bytes_prefix_join (p : Path) (ns : List Name) : p.bytes <+: (p.join ns).bytes := by
  induction ns generalizing p with
  | nil => exact List.prefix_refl _
  | cons n ns ih =>
    exact (p.bytes_prefix_join_one n).trans (ih (p.join [n]))

theorem length_le_join (p : Path) (ns : List Name) (h : ∀ n ∈ ns, n ≠ []) :
    p.bytes.length + ns.length ≤ (p.join ns).bytes.length := by
  induction ns generalizing p with
  | nil => exact Nat.le_refl _
  | cons n ns ih =>
    have hstep : p.bytes.length < (p.join [n]).bytes.length := by
      have hn := List.length_pos_iff.mpr (h n List.mem_cons_self)
      simp only [join, List.foldl_cons, List.foldl_nil, List.length_append]
      split
      · omega
      · rw [List.length_append]
        omega
    have hrest := ih (p.join [n]) fun m hm => h m (List.mem_cons_of_mem n hm)
    rw [join_cons, List.length_cons]
    omega

theorem check_eq_ok_iff {p : Path} :
    p.check = .ok () ↔ 0 ∉ p.bytes ∧ p.bytes ≠ [] ∧ p.bytes.length ≤ maxPathLength := by
  unfold check
  split_ifs <;> simp_all

theorem check_of_join {p : Path} {ns : List Name} (hp : p.check = .ok ()) {ms : List Name}
    (h : (p.join (ns ++ ms)).check = .ok ()) : (p.join ns).check = .ok () := by
  obtain ⟨_, hp0, _⟩ := check_eq_ok_iff.mp hp
  obtain ⟨hzero, _, hlength⟩ := check_eq_ok_iff.mp h
  have hpre := p.bytes_prefix_join ns
  have hjoin : (p.join ns).bytes <+: (p.join (ns ++ ms)).bytes := by
    rw [join_append]
    exact bytes_prefix_join _ ms
  refine check_eq_ok_iff.mpr ⟨fun h0 => hzero (hjoin.subset h0), fun h0 => ?_, hjoin.length_le.trans hlength⟩
  rw [h0, List.prefix_nil] at hpre
  exact hp0 hpre

end Path

namespace FileTree

variable {t : FileTree} {root dir p : Path} {base l k : Location} {rel : Location} {depth : Nat}

/-- What `Files.pathsBelow` answers on a tree. -/
def pathsBelow (t : FileTree) : Nat → Path → List Path
  | 0, _ => []
  | depth + 1, dir => (t.listing dir).flatMap fun n =>
    if n.2 then t.pathsBelow depth (dir.join [n.1]) else [dir.join [n.1]]

theorem mem_listing {n : Name × Bool} : n ∈ t.listing dir ↔
    ∃ l node, t.locate dir = .ok l ∧ (l ++ [n.1], node) ∈ t.entries ∧ n.2 = decide (node = .directory) := by
  obtain ⟨name, isDirectory⟩ := n
  unfold listing
  cases hl : t.locate dir with
  | error fault => simp
  | ok l =>
    simp only [List.mem_filterMap, Except.ok.injEq]
    constructor
    · rintro ⟨⟨key, node⟩, he, hn⟩
      split at hn
      · rename_i hparent
        obtain ⟨last, hlast, heq⟩ := Option.map_eq_some_iff.mp hn
        obtain ⟨rfl, rfl⟩ := Prod.mk.inj heq
        obtain ⟨front, rfl⟩ := List.getLast?_eq_some_iff.mp hlast
        rw [List.dropLast_concat] at hparent
        exact ⟨l, node, rfl, hparent ▸ he, rfl⟩
      · cases hn
    · rintro ⟨l', node, rfl, he, hdirectory⟩
      refine ⟨_, he, ?_⟩
      simp [hdirectory]

theorem pairwise_listing (ht : t.WellFormed) (dir : Path) : (t.listing dir).Pairwise fun a b => a.1 ≠ b.1 := by
  unfold listing
  split
  · exact .nil
  · rename_i l _
    refine (List.pairwise_map.mp ht.distinct).filterMap _ fun e e' hne n hn n' hn' hname => hne ?_
    simp only [Option.ite_none_right_eq_some, Option.map_eq_some_iff] at hn hn'
    obtain ⟨hparent, last, hlast, rfl⟩ := hn
    obtain ⟨hparent', last', hlast', rfl⟩ := hn'
    obtain ⟨front, hfront⟩ := List.getLast?_eq_some_iff.mp hlast
    obtain ⟨front', hfront'⟩ := List.getLast?_eq_some_iff.mp hlast'
    rw [hfront, List.dropLast_concat] at hparent
    rw [hfront', List.dropLast_concat] at hparent'
    rw [hfront, hfront', hparent, hparent', show last = last' from hname]

theorem WellFormed.isPlain_of_mem_listing (ht : t.WellFormed) {n : Name × Bool} (hn : n ∈ t.listing dir) :
    Name.IsPlain n.1 := by
  obtain ⟨l, node, _, he, _⟩ := mem_listing.mp hn
  exact ht.named _ he n.1 (by simp)

theorem join_of_mem_pathsBelow (ht : t.WellFormed) (h : p ∈ t.pathsBelow depth dir) :
    ∃ rel, rel ≠ [] ∧ (∀ n ∈ rel, Name.IsPlain n) ∧ p = dir.join rel := by
  induction depth generalizing dir with
  | zero => cases h
  | succ depth ih =>
    obtain ⟨n, hn, hp⟩ := List.mem_flatMap.mp h
    have hplain := ht.isPlain_of_mem_listing hn
    split at hp
    · obtain ⟨rel, _, hrel, rfl⟩ := ih hp
      exact ⟨n.1 :: rel, List.cons_ne_nil _ _, List.forall_mem_cons.mpr ⟨hplain, hrel⟩, rfl⟩
    · exact ⟨[n.1], List.cons_ne_nil _ _, by simpa using hplain, List.mem_singleton.mp hp⟩

theorem names_join_of_isPlain (dir : Path) (h0 : rel ≠ []) (h : ∀ n ∈ rel, Name.IsPlain n) :
    (dir.join rel).names = dir.components ++ rel :=
  Path.names_join dir rel h0 fun n hn => ⟨(h n hn).1, (h n hn).2.2.2.1⟩

/-- The first name below the directory tells the paths below one entry from those below another. -/
theorem nodup_pathsBelow (ht : t.WellFormed) (depth : Nat) (dir : Path) : (t.pathsBelow depth dir).Nodup := by
  induction depth generalizing dir with
  | zero => exact List.nodup_nil
  | succ depth ih =>
    have hfirst : ∀ n ∈ t.listing dir, ∀ p ∈ (if n.2 then t.pathsBelow depth (dir.join [n.1]) else [dir.join [n.1]]),
        ∃ rel, p.names = dir.components ++ n.1 :: rel := by
      intro n hn p hp
      have hplain := ht.isPlain_of_mem_listing hn
      split at hp
      · obtain ⟨rel, _, hrel, rfl⟩ := join_of_mem_pathsBelow ht hp
        refine ⟨rel, ?_⟩
        rw [← Path.join_cons,
          names_join_of_isPlain dir (List.cons_ne_nil _ _) (List.forall_mem_cons.mpr ⟨hplain, hrel⟩)]
      · rw [List.mem_singleton.mp hp]
        exact ⟨[], names_join_of_isPlain dir (List.cons_ne_nil _ _) (by simpa using hplain)⟩
    refine List.nodup_flatMap.mpr ⟨fun n _ => ?_, (pairwise_listing ht dir).imp_of_mem fun {a b} ha hb hne => ?_⟩
    · split
      · exact ih _
      · exact List.nodup_singleton _
    · refine List.disjoint_left.mpr fun p hp hp' => ?_
      obtain ⟨rel, hrel⟩ := hfirst a ha p hp
      obtain ⟨rel', hrel'⟩ := hfirst b hb p hp'
      rw [hrel, List.append_cancel_left_eq] at hrel'
      exact hne (List.cons.inj hrel').1

theorem root_notMem_pathsBelow (ht : t.WellFormed) (depth : Nat) (root : Path) : root ∉ t.pathsBelow depth root := by
  intro h
  obtain ⟨rel, h0, hrel, hroot⟩ := join_of_mem_pathsBelow ht h
  have hnames := names_join_of_isPlain root h0 hrel
  rw [← hroot] at hnames
  exact Path.names_ne_join root rel h0 (fun n hn => (hrel n hn).1) hnames

theorem Reached.locate_eq (ht : t.WellFormed) (h : t.Reached root dir l) (hd : t.node? l = some .directory)
    (hk : t.locate dir = .ok k) : k = l := by
  obtain ⟨base, hb⟩ := h.rooted
  obtain ⟨rel, rfl, rfl, _⟩ := h.split hb
  by_cases h0 : rel = []
  · subst h0
    rw [List.append_nil]
    exact Except.ok.inj (hk.symm.trans hb)
  · have he := mem_of_node? (by simp [h0]) hd
    have hplain : ∀ n ∈ rel, Name.IsPlain n := fun n hn => ht.named _ he n (List.mem_append_right base hn)
    exact locate_join ht hb h0 hplain hd (by simp) hk

theorem reached_of_mem_pathsBelow (ht : t.WellFormed) (h : t.Reached root dir l)
    (hl : ∀ k, t.locate dir = .ok k → k = l) (hp : p ∈ t.pathsBelow depth dir) : ∃ l', t.Reached root p l' := by
  induction depth generalizing dir l with
  | zero => cases hp
  | succ depth ih =>
    obtain ⟨n, hn, hp⟩ := List.mem_flatMap.mp hp
    obtain ⟨k, node, hk, he, hdirectory⟩ := mem_listing.mp hn
    obtain rfl := hl k hk
    have hnode : t.node? (k ++ [n.1]) = some node := ht.node?_of_mem he
    have hparent : t.node? k = some .directory := by
      have hd := ht.parent (l := k ++ [n.1]) (by simp [hnode])
      rwa [List.dropLast_concat, isDirectory_iff] at hd
    have hentry := h.entry hparent hnode
    split at hp
    · rename_i hsub
      obtain rfl : node = .directory := by simpa [hsub] using hdirectory.symm
      exact ih hentry (fun k' => hentry.locate_eq ht hnode) hp
    · rw [List.mem_singleton.mp hp]
      exact ⟨_, hentry⟩

/-- On the way to something, every directory is where its path leads. -/
theorem locate_join_of_append (ht : t.WellFormed) {rest : Location} (hl : t.locate dir = .ok l) (h0 : rel ≠ [])
    (hrel : ∀ n ∈ rel ++ rest, Name.IsPlain n) (hd : t.node? (l ++ rel) = some .directory)
    (hk : t.locate (dir.join (rel ++ rest)) = .ok k) : t.locate (dir.join rel) = .ok (l ++ rel) := by
  have hplain : ∀ n ∈ rel, Name.IsPlain n := fun n hn => hrel n (List.mem_append_left rest hn)
  obtain ⟨hcheck, hway⟩ := locate_eq_ok_iff.mp hk
  rw [names_join_of_isPlain dir (by simp [h0]) hrel, ← List.append_assoc] at hway
  obtain ⟨_, mid, hmid, _⟩ := hway.split
  have hlocate : t.locate (dir.join rel) = .ok mid := by
    refine locate_eq_ok_iff.mpr ⟨Path.check_of_join (locate_eq_ok_iff.mp hl).1 hcheck, ?_⟩
    rwa [names_join_of_isPlain dir h0 hplain]
  rw [hlocate, locate_join ht hl h0 hplain hd (by simp) hlocate]

theorem mem_pathsBelow_of_locate (ht : t.WellFormed) {node : Node} (hl : t.locate dir = .ok l) (h0 : rel ≠ [])
    (hn : t.node? (l ++ rel) = some node) (hnode : node ≠ .directory) (hk : t.locate (dir.join rel) = .ok k)
    (hdepth : rel.length ≤ depth) : dir.join rel ∈ t.pathsBelow depth dir := by
  induction rel generalizing dir l depth with
  | nil => exact absurd rfl h0
  | cons name rel ih =>
    obtain ⟨depth, rfl⟩ : ∃ d, depth = d + 1 := Nat.exists_eq_add_one.mpr (by simp at hdepth; omega)
    have hplain : ∀ n ∈ name :: rel, Name.IsPlain n := fun n hmem =>
      ht.named _ (mem_of_node? (by simp) hn) n (List.mem_append_right l hmem)
    rw [pathsBelow, List.mem_flatMap]
    by_cases hrel : rel = []
    · subst hrel
      refine ⟨(name, false), mem_listing.mpr ⟨l, node, hl, mem_of_node? (by simp) hn, by simp [hnode]⟩, ?_⟩
      exact List.mem_singleton_self _
    · rw [List.append_cons] at hn
      have hd : t.node? (l ++ [name]) = some .directory := (isDirectory_iff t _).mp (ht.above hrel (by rw [hn]; simp))
      have hsub : t.locate (dir.join [name]) = .ok (l ++ [name]) :=
        locate_join_of_append ht hl (List.cons_ne_nil _ _) hplain hd hk
      refine ⟨(name, true), mem_listing.mpr ⟨l, .directory, hl, mem_of_node? (by simp) hd, rfl⟩, ?_⟩
      exact ih hsub hrel hn hk (by simpa using hdepth)

/-- Of the paths that lead to files, the walk lists those that it comes to. -/
theorem mem_walk_iff_reached (ht : t.WellFormed) (hb : t.locate root = .ok base) {content : List UInt8}
    {modified : Time} (hk : t.locate p = .ok k) (hfile : t.node? k = some (.file content modified)) :
    p ∈ root :: t.pathsBelow maxPathLength root ↔ ∃ l, t.Reached root p l := by
  rw [List.mem_cons]
  constructor
  · rintro (rfl | hp)
    · exact ⟨base, .root hb⟩
    · exact reached_of_mem_pathsBelow ht (.root hb) (fun k hk => Except.ok.inj (hk.symm.trans hb)) hp
  · rintro ⟨l, h⟩
    obtain ⟨rel, rfl, rfl, hn⟩ := h.split hb
    by_cases h0 : rel = []
    · subst h0
      exact Or.inl rfl
    · obtain ⟨node, hnode⟩ := Option.ne_none_iff_exists'.mp (hn h0)
      have hplain : ∀ n ∈ rel, Name.IsPlain n := fun n hmem =>
        ht.named _ (mem_of_node? (by simp [h0]) hnode) n (List.mem_append_right base hmem)
      have hdir : node ≠ .directory := by
        rintro rfl
        rw [locate_join ht hb h0 hplain hnode (by simp) hk, hnode] at hfile
        cases hfile
      obtain ⟨_, _, hlength⟩ := Path.check_eq_ok_iff.mp (locate_eq_ok_iff.mp hk).1
      have hnames := root.length_le_join rel fun n hmem => (hplain n hmem).1
      exact Or.inr (mem_pathsBelow_of_locate ht hb h0 hnode hdir hk (by omega))

/-- What `Files.filesUnder` answers on a tree. -/
def walked (t : FileTree) (root : Path) : Option (List FoundFile) :=
  match t.locate root with
  | .error _ => none
  | .ok _ => some ((root :: t.pathsBelow maxPathLength root).filterMap t.foundFile?)

theorem nodup_foundFile? {paths : List Path} (h : paths.Nodup) : (paths.filterMap t.foundFile?).Nodup :=
  .of_map _ (h.sublist (map_path_foundFile_sublist paths))

theorem walked_perm (ht : t.WellFormed) (hb : t.locate root = .ok base) :
    ((root :: t.pathsBelow maxPathLength root).filterMap t.foundFile?).Perm
      ((t.pathsUnder root base).filterMap t.foundFile?) := by
  have hwalk : (root :: t.pathsBelow maxPathLength root).Nodup :=
    List.nodup_cons.mpr ⟨root_notMem_pathsBelow ht _ root, nodup_pathsBelow ht _ root⟩
  refine (List.perm_ext_iff_of_nodup (nodup_foundFile? hwalk) (nodup_foundFile? (nodup_pathsUnder ht))).mpr fun f => ?_
  rw [mem_foundFile?, mem_foundFile?]
  refine and_congr_left fun htime => ?_
  obtain ⟨k, content, hk, hfile⟩ := fileTime?_eq_some_iff.mp htime
  rw [mem_walk_iff_reached ht hb hk hfile, mem_pathsUnder_iff_reached ht hb hk hfile]

theorem discover_walked (ht : t.WellFormed) (root : Path) : Discovery.ofFiles (t.walked root) = t.discover root := by
  have hcandidate : ∀ f, t.IsCandidate root f ↔ ∃ base, t.locate root = .ok base ∧
      f ∈ ((t.pathsUnder root base).filterMap t.foundFile?).filter FoundFile.isReport := by
    intro f
    simp only [isCandidate_iff, List.mem_filter, mem_foundFile?, and_assoc]
  unfold walked discover filesUnder at *
  cases hb : t.locate root with
  | error fault => rfl
  | ok base =>
    have hreports := (walked_perm ht hb).filter FoundFile.isReport
    have hsorted : ∀ files : List FoundFile, (files.mergeSort FoundFile.precedes).Pairwise fun f g => f.precedes g = true :=
      fun files => List.pairwise_mergeSort FoundFile.precedes_trans FoundFile.precedes_total files
    -- No two reports are on one level, so there is one way to sort them.
    have hsame := List.Perm.eq_of_pairwise (fun f g hf hg hfg hgf => ?_) (hsorted _) (hsorted _)
      ((List.mergeSort_perm _ _).trans (hreports.trans (List.mergeSort_perm _ _).symm))
    · simp only [Discovery.ofFiles, hsame]
    · have hcf := (hcandidate f).mpr ⟨base, hb, hreports.subset ((List.mergeSort_perm _ _).subset hf)⟩
      have hcg := (hcandidate g).mpr ⟨base, hb, (List.mergeSort_perm _ _).subset hg⟩
      by_contra hne
      exact FoundFile.before_asymm (hcf.before_of_precedes ht hcg hne hfg)
        (hcg.before_of_precedes ht hcf (Ne.symm hne) hgf)

section
variable {α β : Type} {now : Time}

theorem run_bind_of_run {act : StateM FileTree α} {f : α → StateM FileTree β} {a : α} (h : act.run t = (a, t)) :
    (act >>= f).run t = (f a).run t := by
  rw [StateT.run_bind, h]
  rfl

theorem run_mapM {f : α → StateM FileTree β} {g : α → β} (h : ∀ a, (f a).run t = (g a, t)) (as : List α) :
    (as.mapM f).run t = (as.map g, t) := by
  induction as with
  | nil => rfl
  | cons a as ih =>
    rw [List.mapM_cons, run_bind_of_run (h a), run_bind_of_run ih]
    rfl

theorem files_pathsBelow (depth : Nat) (dir : Path) :
    ((files now).pathsBelow depth dir).run t = (t.pathsBelow depth dir, t) := by
  induction depth generalizing dir with
  | zero => rfl
  | succ depth ih =>
    have hentry : ∀ n : Name × Bool,
        (if n.2 then (files now).pathsBelow depth (dir.join [n.1]) else pure [dir.join [n.1]]).run t =
          (if n.2 then t.pathsBelow depth (dir.join [n.1]) else [dir.join [n.1]], t) := by
      intro n
      split
      · exact ih _
      · rfl
    have hlisting : ((files now).listing dir).run t = (t.listing dir, t) := rfl
    rw [Files.pathsBelow, run_bind_of_run hlisting, run_bind_of_run (run_mapM hentry _)]
    rfl

theorem files_filesUnder (root : Path) : ((files now).filesUnder root).run t = (t.walked root, t) := by
  have hthere : ((files now).isThere root).run t = (_, t) := rfl
  have hfound : ∀ p, ((files now).foundFile? p).run t = (t.foundFile? p, t) := fun p => rfl
  rw [Files.filesUnder, run_bind_of_run hthere, walked]
  cases t.locate root with
  | error fault => rfl
  | ok base =>
    change (_ >>= _ : StateM FileTree _).run t = _
    rw [run_bind_of_run (files_pathsBelow _ _), run_bind_of_run (run_mapM hfound _)]
    rw [List.filterMap_map]
    rfl

theorem files_readAll (t : FileTree) (now : Time) (paths : List Path) : ∃ read : Path → Content,
    ((files now).readAll paths).run t = (read, t) ∧ ∀ p ∈ paths, read p = t.read p := by
  have hread : ∀ p, ((do let content ← (files now).read p; pure (p, content)) : StateM FileTree (Path × Content)).run t =
      ((p, t.read p), t) := fun p => rfl
  refine ⟨_, run_bind_of_run (run_mapM hread paths), fun p hp => ?_⟩
  rw [List.lookup_graph _ hp]
  rfl

theorem firstUsable?_congr {read read' : Path → Content} {paths : List Path} (h : ∀ p ∈ paths, read p = read' p) :
    firstUsable? read paths = firstUsable? read' paths := by
  induction paths with
  | nil => rfl
  | cons p paths ih =>
    rw [List.forall_mem_cons] at h
    unfold firstUsable? at ih ⊢
    rw [List.findSome?_cons, List.findSome?_cons, h.1, ih h.2]

theorem ofDiscovery_congr {read read' : Path → Content} {found : Discovery} (h : ∀ p ∈ found.paths, read p = read' p)
    (thresholds : Thresholds) : Outcome.ofDiscovery found read thresholds = Outcome.ofDiscovery found read' thresholds := by
  cases found with
  | rootMissing => rfl
  | noReports => rfl
  | candidates files => simp only [Outcome.ofDiscovery, firstUsable?_congr h]

theorem resolve_congr {read read' : Path → Content} {request : CommandLine.Request}
    (h : ∀ p ∈ request.config.toList, read p = read' p) : request.resolve read = request.resolve read' := by
  unfold CommandLine.Request.resolve settingsLayer
  cases hc : request.config with
  | none => rfl
  | some path =>
    have hpath : read path = read' path := h path (by simp [hc])
    simp only [hpath]

theorem files_write (p : Path) (content : List UInt8) : ((files now).write p content).run t =
    match t.write p content now with
    | .ok t' => (.ok (), t')
    | .error fault => (.error fault, t) := by
  change (match t.write p content now with
    | .ok t' => (do set t'; pure (.ok ()) : StateM FileTree (Except FileFault Unit))
    | .error fault => pure (.error fault)).run t = _
  cases t.write p content now with
  | error fault => rfl
  | ok t' => rfl

theorem files_run (ht : t.WellFormed) (o : GateOptions) : ((files now).run o).run t = t.run o now := by
  obtain ⟨read, hread, hpaths⟩ := files_readAll t now (t.discover o.root).paths
  have houtcome : Outcome.ofDiscovery (t.discover o.root) read o.thresholds = t.outcome o :=
    ofDiscovery_congr hpaths o.thresholds
  rw [Files.run, run_bind_of_run (files_filesUnder _), discover_walked ht, run_bind_of_run hread, houtcome, run]
  cases hs : (t.outcome o).summary? with
  | none =>
    simp only [hs]
    rfl
  | some summary =>
    simp only [hs]
    rw [StateT.run_bind, files_write]
    cases t.write o.output (Text.encode summary) now with
    | error fault => rfl
    | ok t' => rfl

/-- A run on the files of a tree is the run that is described of trees. -/
theorem files_program (ht : t.WellFormed) (words : List String) (env : CommandLine.Environment) (now : Time) :
    ((files now).program words env).run t = t.program words env now := by
  rw [Files.program, program]
  cases CommandLine.read words env with
  | error stop => rfl
  | ok request =>
    obtain ⟨read, hread, hpaths⟩ := files_readAll t now request.config.toList
    simp only
    rw [run_bind_of_run hread, resolve_congr hpaths]
    cases request.resolve t.read with
    | error fault => rfl
    | ok thresholds =>
      simp only
      rw [StateT.run_bind, files_run ht]
      cases hrun : t.run ⟨request.root, request.output, thresholds⟩ now with
      | mk result t' => cases result <;> rfl

theorem WellFormed.run (ht : t.WellFormed) (o : GateOptions) (now : Time) : (t.run o now).2.WellFormed := by
  unfold FileTree.run
  cases hs : (t.outcome o).summary? with
  | none =>
    simp only [hs]
    exact ht
  | some summary =>
    simp only [hs]
    cases hw : t.write o.output (Text.encode summary) now with
    | error fault => exact ht
    | ok t' => exact ht.write hw

theorem WellFormed.program (ht : t.WellFormed) (words : List String) (env : CommandLine.Environment) (now : Time) :
    (t.program words env now).2.WellFormed := by
  unfold FileTree.program
  cases CommandLine.read words env with
  | error stop => exact ht
  | ok request =>
    simp only
    cases request.resolve t.read with
    | error fault => exact ht
    | ok thresholds =>
      have hrun := ht.run ⟨request.root, request.output, thresholds⟩ now
      simp only
      cases hresult : t.run ⟨request.root, request.output, thresholds⟩ now with
      | mk result t' =>
        rw [hresult] at hrun
        cases result <;> exact hrun

theorem wellFormed_empty : empty.WellFormed where
  distinct := List.nodup_nil
  rooted := by simp [empty]
  named := by simp [empty]
  inDirectory := by simp [empty]
  linked := by simp [empty]

/-- A tree as edits and runs leave it, beginning with the empty one. -/
inductive Arises : FileTree → Prop where
  | empty : Arises .empty
  | edit {t t' : FileTree} {e : Edit} : Arises t → e.apply t = .ok t' → Arises t'
  | run {t : FileTree} (words : List String) (env : CommandLine.Environment) (now : Time) : Arises t →
      Arises (t.program words env now).2

theorem Arises.wellFormed (h : Arises t) : t.WellFormed := by
  induction h with
  | empty => exact wellFormed_empty
  | edit _ he ih => exact ih.edit he
  | run words env now _ ih => exact ih.program words env now

/-- Whatever edits and runs came before, a run on the files of the tree is the run that is described of trees. -/
theorem Arises.files_program (h : Arises t) (words : List String) (env : CommandLine.Environment) (now : Time) :
    ((files now).program words env).run t = t.program words env now :=
  FileTree.files_program h.wellFormed words env now

end

end FileTree
end PagingGate
