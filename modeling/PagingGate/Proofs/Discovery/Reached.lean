import Mathlib
import PagingGate.Proofs.Discovery.Candidates
import PagingGate.Proofs.FileTree.Write
import PagingGate.Proofs.Text.Utf8

set_option autoImplicit false

/-!
# What discovery finds

Discovery is compared with a walk through the directories under the root. It finds each regular file with a
report's name that the walk comes to, once and in order, and how the tree is listed does not matter.
-/

namespace PagingGate

theorem isReportName_iff (name : List Char) :
    isReportName name = true ↔ ∃ free, '\n' ∉ free ∧ name = reportStem ++ free ++ reportExtension := by
  have hext : '\n' ∉ reportExtension := by decide
  simp only [isReportName, Bool.and_eq_true, List.isPrefixOf_iff_prefix, List.isSuffixOf_iff_suffix,
    Bool.not_eq_true', List.contains_eq_mem, decide_eq_false_iff_not]
  constructor
  · rintro ⟨⟨⟨rest, rfl⟩, hsuffix⟩, hfeed⟩
    rw [List.drop_left] at hsuffix hfeed
    obtain ⟨free, rfl⟩ := hsuffix
    exact ⟨free, fun hf => hfeed (List.mem_append_left _ hf), (List.append_assoc _ _ _).symm⟩
  · rintro ⟨free, hfree, rfl⟩
    rw [List.append_assoc, List.drop_left, List.mem_append]
    exact ⟨⟨List.prefix_append _ _, List.suffix_append _ _⟩, not_or.mpr ⟨hfree, hext⟩⟩

namespace FileTree

/-- The paths that a walk from a root comes to, and where they stand. The root is followed if it is a link;
below it directories are entered and links are not. -/
inductive Reached (t : FileTree) (root : Path) : Path → Location → Prop where
  | root {base} : t.locate root = .ok base → Reached t root root base
  | entry {p dir name node} : Reached t root p dir → t.node? dir = some .directory →
      t.node? (dir ++ [name]) = some node → Reached t root (p.join [name]) (dir ++ [name])

/-- A file that is to be found: the walk comes to it, its name is the encoding of a report's name, and it
leads to a regular file, whose time it has. -/
structure IsReportFile (t : FileTree) (root : Path) (f : FoundFile) : Prop where
  reached : ∃ l, t.Reached root f.path l
  named : ∃ free, '\n' ∉ free ∧ f.path.fileName =
    Text.encode ("AdaptivePagingAllocationsBenchmarks-report".toList ++ free ++ ".json".toList)
  regular : ∃ l content, t.locate f.path = .ok l ∧ t.node? l = some (.file content f.modified)

variable {t t' : FileTree} {root p : Path} {base l : Location} {f : FoundFile}

theorem Reached.split (h : t.Reached root p l) (hb : t.locate root = .ok base) :
    ∃ rel, p = root.join rel ∧ l = base ++ rel ∧ (rel ≠ [] → t.node? l ≠ none) := by
  induction h with
  | root hb' =>
    rw [hb, Except.ok.injEq] at hb'
    exact ⟨[], rfl, by rw [hb', List.append_nil], fun h => absurd rfl h⟩
  | @entry p dir name node _ _ hnode ih =>
    obtain ⟨rel, rfl, rfl, _⟩ := ih
    refine ⟨rel ++ [name], (Path.join_append root rel [name]).symm, List.append_assoc _ _ _, fun _ => ?_⟩
    rw [hnode]
    simp

theorem Reached.rooted (h : t.Reached root p l) : ∃ base, t.locate root = .ok base := by
  induction h with
  | root hb => exact ⟨_, hb⟩
  | entry _ _ _ ih => exact ih

theorem reached_of_node (ht : t.WellFormed) (hb : t.locate root = .ok base) {rel : Location}
    (hn : rel ≠ [] → t.node? (base ++ rel) ≠ none) : t.Reached root (root.join rel) (base ++ rel) := by
  induction rel using List.reverseRecOn with
  | nil =>
    rw [List.append_nil]
    exact .root hb
  | append_singleton rel name ih =>
    obtain ⟨node, hnode⟩ := Option.ne_none_iff_exists'.mp (hn (by simp))
    rw [← List.append_assoc] at hnode ⊢
    have hd := ht.parent (l := base ++ rel ++ [name]) (by rw [hnode]; simp)
    rw [List.dropLast_concat, isDirectory_iff] at hd
    rw [Path.join_append]
    exact .entry (ih fun _ => by simp [hd]) hd hnode

theorem mem_pathsUnder_iff_reached (ht : t.WellFormed) (hb : t.locate root = .ok base) {k : Location}
    {content : List UInt8} {modified : Time} (hk : t.locate p = .ok k)
    (hfile : t.node? k = some (.file content modified)) :
    p ∈ t.pathsUnder root base ↔ ∃ l, t.Reached root p l := by
  rw [mem_pathsUnder]
  constructor
  · rintro (rfl | ⟨e, he, _, hbelow, rfl⟩)
    · exact ⟨base, .root hb⟩
    · obtain ⟨hsplit, _, _⟩ := ht.below he hbelow
      refine ⟨_, reached_of_node ht hb fun _ => ?_⟩
      rw [← hsplit, ht.node?_of_mem he]
      simp
  · rintro ⟨l, h⟩
    obtain ⟨rel, rfl, rfl, hn⟩ := h.split hb
    by_cases h0 : rel = []
    · rw [h0]
      exact .inl rfl
    · obtain ⟨node, hnode⟩ := Option.ne_none_iff_exists'.mp (hn h0)
      have he := mem_of_node? (by simp [h0]) hnode
      have hplain : ∀ n ∈ rel, Name.IsPlain n := fun n hn' =>
        ht.named _ he n (List.mem_append_right base hn')
      -- The path leads to a file, so what stands at its own location is no directory.
      have hdir : node ≠ .directory := by
        rintro rfl
        rw [locate_join ht hb h0 hplain hnode (by simp) hk, hnode] at hfile
        simp at hfile
      refine .inr ⟨_, he, hdir, ?_, by rw [List.drop_left]⟩
      simp [isBelow, h0]

theorem isReport_iff : f.isReport = true ↔ ∃ free, '\n' ∉ free ∧ f.path.fileName =
    Text.encode ("AdaptivePagingAllocationsBenchmarks-report".toList ++ free ++ ".json".toList) := by
  simp only [FoundFile.isReport, Option.any_eq_true, Text.decode?_eq_some_iff, isReportName_iff]
  constructor
  · rintro ⟨name, hname, free, hfree, rfl⟩
    exact ⟨free, hfree, hname⟩
  · rintro ⟨free, hfree, hname⟩
    exact ⟨_, hname, free, hfree, rfl⟩

theorem isCandidate_iff_isReportFile (ht : t.WellFormed) :
    t.IsCandidate root f ↔ t.IsReportFile root f := by
  rw [isCandidate_iff]
  constructor
  · rintro ⟨base, hb, hp, htime, hr⟩
    obtain ⟨k, content, hk, hfile⟩ := fileTime?_eq_some_iff.mp htime
    exact ⟨(mem_pathsUnder_iff_reached ht hb hk hfile).mp hp, isReport_iff.mp hr, k, content, hk, hfile⟩
  · rintro ⟨⟨l, hl⟩, hnamed, k, content, hk, hfile⟩
    obtain ⟨base, hb⟩ := hl.rooted
    exact ⟨base, hb, (mem_pathsUnder_iff_reached ht hb hk hfile).mpr ⟨l, hl⟩,
      fileTime?_eq_some_iff.mpr ⟨k, content, hk, hfile⟩, isReport_iff.mpr hnamed⟩

theorem WellFormed.nodup_entries (ht : t.WellFormed) : t.entries.Nodup :=
  List.Nodup.of_map _ ht.distinct

theorem nodup_pathsUnder (ht : t.WellFormed) : (t.pathsUnder root base).Nodup := by
  have hjoin : ∀ e ∈ t.entries, isBelow base e.1 = true →
      (root.join (e.1.drop base.length)).names = root.components ++ e.1.drop base.length := by
    intro e he hb
    obtain ⟨_, h0, hplain⟩ := ht.below he hb
    exact Path.names_join root _ h0 fun n hn => ⟨(hplain n hn).1, (hplain n hn).2.2.2.1⟩
  rw [pathsUnder, List.nodup_cons]
  constructor
  · intro hroot
    simp only [List.mem_map, List.mem_filter, Bool.and_eq_true] at hroot
    obtain ⟨e, ⟨he, _, hb⟩, hj⟩ := hroot
    obtain ⟨_, h0, hplain⟩ := ht.below he hb
    have hn := hjoin e he hb
    rw [hj] at hn
    exact Path.names_ne_join root _ h0 (fun n hn => (hplain n hn).1) hn
  · refine List.Nodup.map_on (fun d hd e he hde => ?_) (ht.nodup_entries.filter _)
    simp only [List.mem_filter, Bool.and_eq_true] at hd he
    have hn := congrArg Path.names hde
    rw [hjoin d hd.1 hd.2.2, hjoin e he.1 he.2.2, List.append_cancel_left_eq] at hn
    have hkey : d.1 = e.1 := by rw [(ht.below hd.1 hd.2.2).1, (ht.below he.1 he.2.2).1, hn]
    have hnode := ht.node?_of_mem hd.1
    rw [hkey, ht.node?_of_mem he.1, Option.some.injEq] at hnode
    exact Prod.ext hkey hnode.symm

theorem map_path_foundFile_sublist (paths : List Path) :
    ((paths.filterMap t.foundFile?).map (·.path)).Sublist paths := by
  induction paths with
  | nil => exact .slnil
  | cons p paths ih =>
    cases hm : t.fileTime? p with
    | none =>
      rw [List.filterMap_cons_none (by simp [foundFile?, hm])]
      exact ih.cons p
    | some m =>
      rw [List.filterMap_cons_some (b := ⟨p, m⟩) (by simp [foundFile?, hm]), List.map_cons]
      exact ih.cons_cons p

theorem nodup_of_discover (ht : t.WellFormed) {files : List FoundFile}
    (h : t.discover root = .candidates files) : (files.map (·.path)).Nodup := by
  unfold discover filesUnder at h
  cases hb : t.locate root with
  | error e => simp [hb, Discovery.ofFiles] at h
  | ok base =>
    simp only [hb, Discovery.ofFiles] at h
    split at h
    · simp at h
    · rw [Discovery.candidates.injEq] at h
      have hall : (((t.pathsUnder root base).filterMap t.foundFile?).map (·.path)).Nodup :=
        (nodup_pathsUnder ht).sublist (map_path_foundFile_sublist _)
      rw [← h]
      refine ((List.mergeSort_perm _ _).map _).nodup_iff.mpr ?_
      exact hall.sublist (List.filter_sublist.map _)

theorem before_of_discover (ht : t.WellFormed) {files : List FoundFile}
    (h : t.discover root = .candidates files) : files.Pairwise FoundFile.Before := by
  have hne : files.Nodup := List.Nodup.of_map _ (nodup_of_discover ht h)
  refine ((sorted_of_discover h).and hne).imp_of_mem fun ha hb hab => ?_
  exact IsCandidate.before_of_precedes ht ⟨files, h, ha⟩ ⟨files, h, hb⟩ hab.2 hab.1

theorem lookup_perm {es ds : List (Location × Node)} (h : es.Perm ds) (hd : (ds.map (·.1)).Nodup)
    (l : Location) : es.lookup l = ds.lookup l := by
  have he : (es.map (·.1)).Nodup := (h.map _).nodup_iff.mpr hd
  refine Option.ext fun n => ⟨fun hn => ?_, fun hn => ?_⟩
  · exact lookup_of_mem hd (h.mem_iff.mp (mem_of_lookup hn))
  · exact lookup_of_mem he (h.mem_iff.mpr (mem_of_lookup hn))

theorem node?_perm (ht : t.WellFormed) (h : t'.entries.Perm t.entries) : t'.node? = t.node? := by
  funext l
  by_cases hl : l = []
  · rw [hl, node?_nil, node?_nil]
  · rw [node?_of_ne_nil _ hl, node?_of_ne_nil _ hl, lookup_perm h ht.distinct]

theorem WellFormed.perm (ht : t.WellFormed) (h : t'.entries.Perm t.entries) : t'.WellFormed where
  distinct := (h.map _).nodup_iff.mpr ht.distinct
  rooted e he := ht.rooted e (h.mem_iff.mp he)
  named e he := ht.named e (h.mem_iff.mp he)
  inDirectory e he := by
    rw [isDirectory_iff, node?_perm ht h, ← isDirectory_iff]
    exact ht.inDirectory e (h.mem_iff.mp he)
  linked e he := ht.linked e (h.mem_iff.mp he)

theorem Leads.congr (h : t'.node? = t.node?) {links : Nat} {dir : Location} {names : List Name}
    (hl : t'.Leads false links dir names l) : t.Leads false links dir names l := by
  have hd : ∀ {k}, t'.isDirectory k = true → t.isDirectory k = true := fun hk => by
    rw [isDirectory_iff] at hk ⊢
    rwa [← h]
  induction hl with
  | here => exact .here
  | stay hk hn _ ih => exact .stay (hd hk) hn ih
  | up hk _ ih => exact .up (hd hk) ih
  | new _ _ hc => simp at hc
  | follow hk hn hc hnode _ ih => exact .follow (hd hk) hn hc (h ▸ hnode) ih
  | down hk hn hc hnode hlink _ ih => exact .down (hd hk) hn hc (h ▸ hnode) hlink ih

theorem locate_congr (h : t'.node? = t.node?) (hl : t'.locate p = .ok l) : t.locate p = .ok l := by
  obtain ⟨hp, hw⟩ := locate_eq_ok_iff.mp hl
  exact locate_eq_ok_iff.mpr ⟨hp, hw.congr h⟩

theorem Reached.congr (h : t'.node? = t.node?) (hr : t'.Reached root p l) : t.Reached root p l := by
  induction hr with
  | root hb => exact .root (locate_congr h hb)
  | entry _ hd hn ih => exact .entry ih (h ▸ hd) (h ▸ hn)

theorem IsReportFile.congr (h : t'.node? = t.node?) (hf : t'.IsReportFile root f) :
    t.IsReportFile root f where
  reached := hf.reached.imp fun _ hr => hr.congr h
  named := hf.named
  regular := by
    obtain ⟨l, content, hl, hn⟩ := hf.regular
    exact ⟨l, content, locate_congr h hl, h ▸ hn⟩

theorem eq_of_before {as bs : List FoundFile} (ha : as.Pairwise FoundFile.Before)
    (hb : bs.Pairwise FoundFile.Before) (h : ∀ f, f ∈ as ↔ f ∈ bs) : as = bs := by
  have nodup : ∀ {fs : List FoundFile}, fs.Pairwise FoundFile.Before → fs.Nodup := fun hs => by
    refine hs.imp ?_
    rintro f g hfg rfl
    exact FoundFile.before_irrefl f hfg
  refine List.Perm.eq_of_pairwise (fun a b _ _ hab hba => ?_) ha hb
    ((List.perm_ext_iff_of_nodup (nodup ha) (nodup hb)).mpr h)
  exact absurd hba (FoundFile.before_asymm hab)

/-- What is asked of an answer: that the root leads nowhere, or that there is no file to be found, or all of
them, each path once and in strict order. -/
def Answers (t : FileTree) (root : Path) : Discovery → Prop
  | .rootMissing => ∀ base, t.locate root ≠ .ok base
  | .noReports => (∃ base, t.locate root = .ok base) ∧ ∀ f, ¬ t.IsReportFile root f
  | .candidates files => (∃ base, t.locate root = .ok base) ∧ files ≠ [] ∧
      (files.map (·.path)).Nodup ∧ files.Pairwise FoundFile.Before ∧
      ∀ f, f ∈ files ↔ t.IsReportFile root f

theorem locate_of_discover (h : t.discover root ≠ .rootMissing) : ∃ base, t.locate root = .ok base := by
  cases hb : t.locate root with
  | error e => exact absurd (by simp [discover, filesUnder, hb, Discovery.ofFiles]) h
  | ok base => exact ⟨base, rfl⟩

theorem answers_discover (ht : t.WellFormed) (root : Path) : t.Answers root (t.discover root) := by
  cases h : t.discover root with
  | rootMissing =>
    intro base hb
    simp only [discover, filesUnder, hb, Discovery.ofFiles] at h
    split at h <;> simp at h
  | noReports =>
    refine ⟨locate_of_discover (by simp [h]), fun f hf => ?_⟩
    obtain ⟨files, hfiles, _⟩ := (isCandidate_iff_isReportFile ht).mpr hf
    simp [h] at hfiles
  | candidates files =>
    refine ⟨locate_of_discover (by simp [h]), ?_, nodup_of_discover ht h, before_of_discover ht h,
      fun f => ?_⟩
    · rintro rfl
      exact discover_ne_nil h
    · rw [← isCandidate_iff_isReportFile ht]
      refine ⟨fun hf => ⟨files, h, hf⟩, ?_⟩
      rintro ⟨files', h', hf⟩
      rw [h, Discovery.candidates.injEq] at h'
      rwa [h']

theorem Answers.unique {d d' : Discovery} (hd : t.Answers root d) (hd' : t.Answers root d') : d = d' := by
  cases d with
  | rootMissing =>
    cases d' with
    | rootMissing => rfl
    | noReports => exact absurd hd'.1.choose_spec (hd _)
    | candidates files => exact absurd hd'.1.choose_spec (hd _)
  | noReports =>
    cases d' with
    | rootMissing => exact absurd hd.1.choose_spec (hd' _)
    | noReports => rfl
    | candidates files =>
      obtain ⟨_, hne, _, _, hmem⟩ := hd'
      obtain ⟨f, hf⟩ := List.exists_mem_of_ne_nil files hne
      exact absurd ((hmem f).mp hf) (hd.2 f)
  | candidates files =>
    obtain ⟨hroot, hne, _, hsorted, hmem⟩ := hd
    cases d' with
    | rootMissing => exact absurd hroot.choose_spec (hd' _)
    | noReports =>
      obtain ⟨f, hf⟩ := List.exists_mem_of_ne_nil files hne
      exact absurd ((hmem f).mp hf) (hd'.2 f)
    | candidates files' =>
      obtain ⟨_, _, _, hsorted', hmem'⟩ := hd'
      rw [eq_of_before hsorted hsorted' fun f => (hmem f).trans (hmem' f).symm]

theorem Answers.congr (h : t'.node? = t.node?) {d : Discovery} (hd : t'.Answers root d) :
    t.Answers root d := by
  have hfiles : ∀ f, t'.IsReportFile root f ↔ t.IsReportFile root f := fun f =>
    ⟨fun hf => hf.congr h, fun hf => hf.congr h.symm⟩
  have hroot : (∃ base, t'.locate root = .ok base) → ∃ base, t.locate root = .ok base := by
    rintro ⟨base, hb⟩
    exact ⟨base, locate_congr h hb⟩
  cases d with
  | rootMissing => exact fun base hb => hd base (locate_congr h.symm hb)
  | noReports => exact ⟨hroot hd.1, fun f hf => hd.2 f ((hfiles f).mpr hf)⟩
  | candidates files =>
    obtain ⟨hb, hne, hnodup, hsorted, hmem⟩ := hd
    exact ⟨hroot hb, hne, hnodup, hsorted, fun f => (hmem f).trans (hfiles f)⟩

/-- Discovery answers with all files that are to be found, in an order of their own; the order in which the
tree lists its entries makes no difference. -/
theorem discover_finds_all_reports (ht : t.WellFormed) (root : Path) :
    (t.discover root = .rootMissing ↔ ∀ base, t.locate root ≠ .ok base) ∧
    (t.discover root = .noReports ↔
      (∃ base, t.locate root = .ok base) ∧ ∀ f, ¬ t.IsReportFile root f) ∧
    (∀ files, t.discover root = .candidates files ↔
      (∃ base, t.locate root = .ok base) ∧ files ≠ [] ∧ (files.map (·.path)).Nodup ∧
        files.Pairwise FoundFile.Before ∧ ∀ f, f ∈ files ↔ t.IsReportFile root f) ∧
    ∀ t' : FileTree, t'.entries.Perm t.entries → t'.discover root = t.discover root := by
  have ha := answers_discover ht root
  have hiff : ∀ d, t.discover root = d ↔ t.Answers root d := fun d =>
    ⟨fun h => h ▸ ha, fun hd => ha.unique hd⟩
  refine ⟨hiff _, hiff _, fun files => hiff _, fun t' hp => ?_⟩
  have ha' := answers_discover (ht.perm hp) root
  exact (ha'.congr (node?_perm ht hp)).unique ha

def storeName : Name := Text.encode "store".toList
def deepName : Name := Text.encode "deep".toList
def backName : Name := Text.encode "back".toList

def reportName (free : String) : Name :=
  Text.encode ("AdaptivePagingAllocationsBenchmarks-report".toList ++ free.toList ++ ".json".toList)

/-- One report, a link to it in the directory above, a link that leads nowhere, a link back to the root, and a
directory that is named like a report. -/
def linkedStore : FileTree :=
  ⟨[([storeName], .directory),
    ([storeName, reportName "-gone"], .link (.ofString "gone")),
    ([storeName, deepName], .directory),
    ([storeName, deepName, backName], .link (.ofString "..")),
    ([storeName, deepName, reportName ""], .file [] ⟨1, 0⟩),
    ([storeName, reportName "-last"], .link ⟨deepName ++ Path.slash :: reportName ""⟩),
    ([storeName, reportName "-dir"], .directory)]⟩

def deepReport : FoundFile :=
  ⟨⟨storeName ++ Path.slash :: (deepName ++ Path.slash :: reportName "")⟩, ⟨1, 0⟩⟩

def lastReport : FoundFile := ⟨⟨storeName ++ Path.slash :: reportName "-last"⟩, ⟨1, 0⟩⟩

theorem linkedStore_wellFormed : linkedStore.WellFormed where
  distinct := by decide
  rooted := by decide
  named := by decide
  inDirectory := by decide
  linked := by
    intro e he p hp
    simp only [linkedStore, List.mem_cons, List.not_mem_nil, or_false] at he
    rcases he with rfl | rfl | rfl | rfl | rfl | rfl | rfl <;> cases hp <;> cbv

theorem linkedStore_discover :
    linkedStore.discover ⟨storeName⟩ = .candidates [lastReport, deepReport] := by cbv

theorem linkedStore_finds : linkedStore.WellFormed ∧
    lastReport.Before deepReport ∧
    ∀ f, f ∈ [lastReport, deepReport] ↔ linkedStore.IsReportFile ⟨storeName⟩ f := by
  obtain ⟨_, _, _, hsorted, hmem⟩ :=
    ((discover_finds_all_reports linkedStore_wellFormed ⟨storeName⟩).2.2.1 _).mp linkedStore_discover
  exact ⟨linkedStore_wellFormed, List.rel_of_pairwise_cons hsorted (by simp), hmem⟩

end FileTree
end PagingGate
