import PagingGate.Proofs.Discovery.Order
import PagingGate.Proofs.FileTree.Names
import PagingGate.Proofs.FileTree.WellFormed

set_option autoImplicit false

namespace PagingGate

theorem FileTree.WellFormed.below {t : FileTree} (ht : t.WellFormed) {base : Location}
    {e : Location × Node} (he : e ∈ t.entries) (hb : FileTree.isBelow base e.1 = true) :
    e.1 = base ++ e.1.drop base.length ∧ e.1.drop base.length ≠ [] ∧
      ∀ n ∈ e.1.drop base.length, Name.IsPlain n := by
  simp only [FileTree.isBelow, Bool.and_eq_true, List.isPrefixOf_iff_prefix, decide_eq_true_eq] at hb
  obtain ⟨⟨rest, hr⟩, hne⟩ := hb
  have hd : e.1.drop base.length = rest := by rw [← hr, List.drop_left]
  refine ⟨by rw [hd, hr], ?_, fun n hn => ht.named e he n (List.mem_of_mem_drop hn)⟩
  rw [hd]
  rintro rfl
  exact hne (by rw [← hr, List.append_nil])

namespace FileTree

def IsCandidate (t : FileTree) (root : Path) (f : FoundFile) : Prop :=
  ∃ files, t.discover root = .candidates files ∧ f ∈ files

variable {t : FileTree} {root : Path} {f g : FoundFile}

theorem mem_pathsUnder {base : Location} {p : Path} :
    p ∈ t.pathsUnder root base ↔ p = root ∨
      ∃ e ∈ t.entries, e.2 ≠ .directory ∧ isBelow base e.1 = true ∧
        root.join (e.1.drop base.length) = p := by
  simp only [pathsUnder, List.mem_cons, List.mem_map, List.mem_filter, Bool.and_eq_true,
    decide_eq_true_eq, and_assoc]

theorem mem_foundFile? {paths : List Path} :
    f ∈ paths.filterMap t.foundFile? ↔ f.path ∈ paths ∧ t.fileTime? f.path = some f.modified := by
  simp only [List.mem_filterMap, foundFile?, Option.map_eq_some_iff]
  constructor
  · rintro ⟨p, hp, m, hm, rfl⟩
    exact ⟨hp, hm⟩
  · rintro ⟨hp, hm⟩
    exact ⟨f.path, hp, f.modified, hm, rfl⟩

theorem mem_of_ofFiles {files reports : List FoundFile}
    (h : Discovery.ofFiles (some files) = .candidates reports) :
    f ∈ reports ↔ f ∈ files ∧ f.isReport = true := by
  have hs : (files.filter FoundFile.isReport).mergeSort FoundFile.precedes = reports := by
    simp only [Discovery.ofFiles] at h
    split at h
    · simp at h
    · simpa using h
  rw [← hs, List.mem_mergeSort, List.mem_filter]

theorem ofFiles_eq_noReports {files : List FoundFile}
    (h : Discovery.ofFiles (some files) = .noReports) : files.filter FoundFile.isReport = [] := by
  simp only [Discovery.ofFiles] at h
  split at h
  · rename_i hs
    exact List.eq_nil_of_length_eq_zero (by rw [← List.length_mergeSort, hs, List.length_nil])
  · simp at h

theorem isCandidate_iff :
    t.IsCandidate root f ↔ ∃ base, t.locate root = .ok base ∧ f.path ∈ t.pathsUnder root base ∧
      t.fileTime? f.path = some f.modified ∧ f.isReport = true := by
  unfold IsCandidate discover filesUnder
  cases t.locate root with
  | error e => simp [Discovery.ofFiles]
  | ok base =>
    simp only [Except.ok.injEq, exists_eq_left']
    rw [← and_assoc, ← mem_foundFile?]
    constructor
    · rintro ⟨files, hd, hf⟩
      exact (mem_of_ofFiles hd).mp hf
    · rintro ⟨hf, hr⟩
      cases hd : Discovery.ofFiles (some ((t.pathsUnder root base).filterMap t.foundFile?)) with
      | rootMissing =>
        simp only [Discovery.ofFiles] at hd
        split at hd <;> simp at hd
      | noReports =>
        have hnil := ofFiles_eq_noReports hd
        have hmem := List.mem_filter.mpr ⟨hf, hr⟩
        rw [hnil] at hmem
        simp at hmem
      | candidates reports => exact ⟨reports, rfl, (mem_of_ofFiles hd).mpr ⟨hf, hr⟩⟩

theorem sorted_of_discover {files : List FoundFile} (h : t.discover root = .candidates files) :
    files.Pairwise fun a b => a.precedes b = true := by
  unfold discover at h
  cases hu : t.filesUnder root with
  | none => simp [hu, Discovery.ofFiles] at h
  | some all =>
    simp only [hu, Discovery.ofFiles] at h
    split at h
    · simp at h
    · rw [Discovery.candidates.injEq] at h
      rw [← h]
      exact List.pairwise_mergeSort FoundFile.precedes_trans FoundFile.precedes_total _

theorem discover_ne_nil : t.discover root ≠ .candidates [] := by
  unfold discover
  cases t.filesUnder root with
  | none => simp [Discovery.ofFiles]
  | some all =>
    simp only [Discovery.ofFiles]
    split
    · simp
    · rename_i hne
      simpa using hne

theorem IsCandidate.eq_of_path (hf : t.IsCandidate root f) (hg : t.IsCandidate root g)
    (h : f.path = g.path) : f = g := by
  obtain ⟨_, _, _, tf, _⟩ := isCandidate_iff.mp hf
  obtain ⟨_, _, _, tg, _⟩ := isCandidate_iff.mp hg
  have hm : f.modified = g.modified := by
    rw [h, tg] at tf
    exact (Option.some.inj tf).symm
  obtain ⟨p, m⟩ := f
  obtain ⟨q, n⟩ := g
  simp only at h hm
  rw [h, hm]

theorem path_eq_of_names (ht : t.WellFormed) {base : Location} {p q : Path}
    (hp : p ∈ t.pathsUnder root base) (hq : q ∈ t.pathsUnder root base) (h : p.names = q.names) :
    p = q := by
  have joined : ∀ e ∈ t.entries, isBelow base e.1 = true →
      (root.join (e.1.drop base.length)).names = root.components ++ e.1.drop base.length ∧
        root.names ≠ root.components ++ e.1.drop base.length := by
    intro e he hb
    obtain ⟨_, h0, hplain⟩ := ht.below he hb
    refine ⟨Path.names_join root _ h0 fun n hn => ?_, Path.names_ne_join root _ h0 fun n hn => ?_⟩
    · obtain ⟨hn0, _, _, hs, _⟩ := hplain n hn
      exact ⟨hn0, hs⟩
    · exact (hplain n hn).1
  rcases mem_pathsUnder.mp hp with rfl | ⟨e, he, _, hbe, rfl⟩
  · rcases mem_pathsUnder.mp hq with rfl | ⟨d, hd, _, hbd, rfl⟩
    · rfl
    · obtain ⟨hn, hne⟩ := joined d hd hbd
      exact absurd (h.trans hn) hne
  · obtain ⟨hn, hne⟩ := joined e he hbe
    rcases mem_pathsUnder.mp hq with rfl | ⟨d, hd, _, hbd, rfl⟩
    · exact absurd (h.symm.trans hn) hne
    · rw [hn, (joined d hd hbd).1, List.append_cancel_left_eq] at h
      rw [h]

theorem IsCandidate.eq_of_names (ht : t.WellFormed) (hf : t.IsCandidate root f)
    (hg : t.IsCandidate root g) (h : f.path.names = g.path.names) : f = g := by
  obtain ⟨base, hb, pf, _, _⟩ := isCandidate_iff.mp hf
  obtain ⟨base', hb', pg, _, _⟩ := isCandidate_iff.mp hg
  have he : base' = base := by
    rw [hb, Except.ok.injEq] at hb'
    exact hb'.symm
  exact hf.eq_of_path hg (path_eq_of_names ht pf (he ▸ pg) h)

theorem IsCandidate.before_of_precedes (ht : t.WellFormed) (hf : t.IsCandidate root f)
    (hg : t.IsCandidate root g) (hne : f ≠ g) (h : f.precedes g = true) : f.Before g := by
  rcases (FoundFile.precedes_iff f g).mp h with h | h
  · exact h
  · exact absurd (hf.eq_of_names ht hg h.2) hne

end FileTree
end PagingGate
