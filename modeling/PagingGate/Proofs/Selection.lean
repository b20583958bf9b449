import Mathlib
import PagingGate.Gate
import PagingGate.Proofs.Discovery.Candidates
import PagingGate.Proofs.FileTree.Walk

set_option autoImplicit false

/-!
# Which report decides

A run is decided by the first usable candidate, and by nothing else: not by candidates that give no pair,
whatever their age, and not by those that come after it.
-/

namespace PagingGate

/-- The content is UTF-8, reads as a report, and the report has measurements of both strategies. -/
def Yields (content : Content) (pair : MeasurementPair) : Prop :=
  ∃ bytes text report, content = .ok bytes ∧ Text.decode? bytes = some text ∧
    Report.ofJson (String.ofList text) = .ok report ∧ measurementPair? report.entries = some pair

theorem usablePair?_eq_some_iff {content : Content} {pair : MeasurementPair} :
    usablePair? content = some pair ↔ Yields content pair := by
  unfold usablePair? loadPair loadReport textOf Yields
  cases content with
  | error e => simp
  | ok bytes =>
    simp only [Except.ok.injEq, exists_and_left, exists_eq_left']
    cases Text.decode? bytes with
    | none => simp
    | some text =>
      simp only [Option.some.injEq, exists_eq_left']
      cases Report.ofJson (String.ofList text) with
      | error e => simp
      | ok report => simp

theorem usablePair?_eq_none_iff {content : Content} :
    usablePair? content = none ↔ ∀ pair, ¬ Yields content pair := by
  simp only [← usablePair?_eq_some_iff, Option.eq_none_iff_forall_not_mem, Option.mem_def]

namespace FileTree

structure IsUsable (t : FileTree) (root : Path) (f : FoundFile) (pair : MeasurementPair) : Prop where
  candidate : t.IsCandidate root f
  yields : Yields (t.read f.path) pair

/-- The usable candidate that comes before all others. -/
structure IsFirstUsable (t : FileTree) (root : Path) (f : FoundFile) (pair : MeasurementPair) : Prop
    extends t.IsUsable root f pair where
  first : ∀ g other, t.IsUsable root g other → g ≠ f → f.Before g

variable {t : FileTree} {root : Path} {f g : FoundFile} {pair : MeasurementPair}

theorem IsFirstUsable.unique {other : MeasurementPair} (hf : t.IsFirstUsable root f pair)
    (hg : t.IsFirstUsable root g other) : f = g ∧ pair = other := by
  have hfg : f = g := by
    by_cases hne : f = g
    · exact hne
    · exact absurd (hg.first f pair hf.toIsUsable hne)
        (FoundFile.before_asymm (hf.first g other hg.toIsUsable (Ne.symm hne)))
  refine ⟨hfg, ?_⟩
  have hp := usablePair?_eq_some_iff.mpr hf.yields
  rw [hfg, usablePair?_eq_some_iff.mpr hg.yields] at hp
  exact (Option.some.inj hp).symm

theorem isFirstUsable_single (hd : t.discover root = .candidates [f])
    (hy : Yields (t.read f.path) pair) : t.IsFirstUsable root f pair := by
  refine ⟨⟨⟨[f], hd, List.mem_singleton_self f⟩, hy⟩, ?_⟩
  rintro g other ⟨⟨files, hd', hg⟩, _⟩ hne
  rw [hd, Discovery.candidates.injEq] at hd'
  rw [← hd', List.mem_singleton] at hg
  exact absurd hg hne

theorem isFirstUsable_of_firstUsable? (ht : t.WellFormed) {files : List FoundFile}
    (hd : t.discover root = .candidates files) {r : Path}
    (h : firstUsable? t.read (files.map (·.path)) = some (r, pair)) :
    ∃ f, t.IsFirstUsable root f pair ∧ f.path = r := by
  rw [firstUsable?, List.findSome?_map] at h
  obtain ⟨before, f, after, hsplit, hf, hnone⟩ := List.findSome?_eq_some_iff.mp h
  simp only [Function.comp_apply, Option.map_eq_some_iff, Prod.mk.injEq] at hf
  obtain ⟨_, hpair, hr, rfl⟩ := hf
  have hmem : f ∈ files := by simp [hsplit]
  refine ⟨f, ⟨⟨⟨files, hd, hmem⟩, usablePair?_eq_some_iff.mp hpair⟩, ?_⟩, hr⟩
  -- A usable candidate is not in front of `f`, so the sorting puts it behind.
  rintro g other ⟨⟨files', hd', hg⟩, hy⟩ hne
  have hfiles : files' = files := by
    rw [hd, Discovery.candidates.injEq] at hd'
    exact hd'.symm
  subst hfiles
  have hcf : t.IsCandidate root f := ⟨files', hd, hmem⟩
  have hcg : t.IsCandidate root g := ⟨files', hd, hg⟩
  rw [hsplit] at hg
  rcases List.mem_append.mp hg with hg | hg
  · have hn := hnone g hg
    simp [usablePair?_eq_some_iff.mpr hy] at hn
  · rcases List.mem_cons.mp hg with rfl | hg
    · exact absurd rfl hne
    · have hs := sorted_of_discover hd
      rw [hsplit] at hs
      have hprec := (List.pairwise_cons.mp (List.pairwise_append.mp hs).2.1).1 g hg
      exact hcf.before_of_precedes ht hcg (Ne.symm hne) hprec

theorem not_isUsable_of_firstUsable? {files : List FoundFile}
    (hd : t.discover root = .candidates files)
    (h : firstUsable? t.read (files.map (·.path)) = none) : ¬ t.IsUsable root f pair := by
  rintro ⟨⟨files', hd', hf⟩, hy⟩
  rw [hd, Discovery.candidates.injEq] at hd'
  subst hd'
  rw [firstUsable?, List.findSome?_map, List.findSome?_eq_none_iff] at h
  have hn := h f hf
  simp [usablePair?_eq_some_iff.mpr hy] at hn

theorem not_isCandidate_of_discover (h : ∀ files, t.discover root ≠ .candidates files) :
    ¬ t.IsCandidate root f :=
  fun ⟨files, hd, _⟩ => h files hd

theorem outcome_cases (ht : t.WellFormed) (o : GateOptions) :
    (∃ f pair, t.outcome o = .evaluated f.path (pair.judge o.thresholds) ∧
      t.IsFirstUsable o.root f pair) ∨
    (t.outcome o = .skipped .noMeasurements ∧ (∃ f, t.IsCandidate o.root f) ∧
      ∀ f pair, ¬ t.IsUsable o.root f pair) ∨
    (∃ reason, t.outcome o = .skipped reason ∧ reason ≠ .noMeasurements ∧
      ∀ f, ¬ t.IsCandidate o.root f) := by
  unfold outcome Outcome.ofDiscovery
  cases hd : t.discover o.root with
  | rootMissing =>
    exact .inr (.inr ⟨_, rfl, by decide, fun f => not_isCandidate_of_discover (by simp [hd])⟩)
  | noReports =>
    exact .inr (.inr ⟨_, rfl, by decide, fun f => not_isCandidate_of_discover (by simp [hd])⟩)
  | candidates files =>
    simp only [Discovery.paths]
    cases hu : firstUsable? t.read (files.map (·.path)) with
    | none =>
      refine .inr (.inl ⟨rfl, ?_, fun f pair => not_isUsable_of_firstUsable? hd hu⟩)
      cases files with
      | nil => exact absurd hd discover_ne_nil
      | cons f files => exact ⟨f, f :: files, hd, List.mem_cons_self⟩
    | some found =>
      obtain ⟨r, pair⟩ := found
      obtain ⟨f, hf, hr⟩ := isFirstUsable_of_firstUsable? ht hd hu
      exact .inl ⟨f, pair, by rw [hr], hf⟩

theorem outcome_eq_evaluated_iff (ht : t.WellFormed) (o : GateOptions) {r : Path} {v : Verdict} :
    t.outcome o = .evaluated r v ↔
      ∃ f pair, t.IsFirstUsable o.root f pair ∧ f.path = r ∧ pair.judge o.thresholds = v := by
  rcases outcome_cases ht o with ⟨f, pair, ho, hf⟩ | ⟨ho, _, hn⟩ | ⟨reason, ho, _, hn⟩
  · rw [ho, Outcome.evaluated.injEq]
    constructor
    · rintro ⟨hr, hv⟩
      exact ⟨f, pair, hf, hr, hv⟩
    · rintro ⟨g, other, hg, hr, hv⟩
      obtain ⟨rfl, rfl⟩ := hf.unique hg
      exact ⟨hr, hv⟩
  · rw [ho]
    simp only [reduceCtorEq, false_iff]
    rintro ⟨f, pair, hf, _⟩
    exact hn f pair hf.toIsUsable
  · rw [ho]
    simp only [reduceCtorEq, false_iff]
    rintro ⟨f, pair, hf, _⟩
    exact hn f hf.candidate

theorem outcome_eq_noMeasurements_iff (ht : t.WellFormed) (o : GateOptions) :
    t.outcome o = .skipped .noMeasurements ↔
      (∃ f, t.IsCandidate o.root f) ∧ ∀ f pair, ¬ t.IsUsable o.root f pair := by
  rcases outcome_cases ht o with ⟨f, pair, ho, hf⟩ | ⟨ho, hc, hn⟩ | ⟨reason, ho, hr, hn⟩
  · rw [ho]
    simp only [reduceCtorEq, false_iff]
    exact fun ⟨_, h⟩ => h f pair hf.toIsUsable
  · exact ⟨fun _ => ⟨hc, hn⟩, fun _ => ho⟩
  · rw [ho, Outcome.skipped.injEq]
    constructor
    · exact fun h => absurd h hr
    · rintro ⟨⟨f, hf⟩, _⟩
      exact absurd hf (hn f)

theorem run_of_canWrite {o : GateOptions} (h : t.CanWrite o.output) (now : Time) :
    (t.run o now).1 = .ok (t.outcome o) := by
  unfold run
  cases hs : (t.outcome o).summary? with
  | none => simp only [hs]
  | some summary =>
    obtain ⟨t', ht'⟩ := (canWrite_iff (Text.encode summary) now).mp h
    simp only [hs, ht']

theorem run_of_skipped {o : GateOptions} {reason : SkipReason} (h : t.outcome o = .skipped reason)
    (now : Time) : t.run o now = (.ok (.skipped reason), t) := by
  simp only [run, h, Outcome.summary?]

theorem outcome_of_run {o : GateOptions} {now : Time} {out : Outcome}
    (h : (t.run o now).1 = .ok out) : t.outcome o = out := by
  unfold run at h
  cases hs : (t.outcome o).summary? with
  | none => simpa [hs] using h
  | some summary =>
    simp only [hs] at h
    split at h
    · simpa using h
    · simp at h

/-- On the usable candidates that do not come after `f`, two trees are the same. -/
def SameUpTo (t t' : FileTree) (root : Path) (f : FoundFile) : Prop :=
  ∀ g pair, ¬ f.Before g → (t.IsUsable root g pair ↔ t'.IsUsable root g pair)

theorem IsFirstUsable.of_sameUpTo {t' : FileTree} (hf : t.IsFirstUsable root f pair)
    (hs : t.SameUpTo t' root f) : t'.IsFirstUsable root f pair := by
  refine ⟨(hs f pair (FoundFile.before_irrefl f)).mp hf.toIsUsable, fun g other hg hne => ?_⟩
  by_cases hb : f.Before g
  · exact hb
  · exact hf.first g other ((hs g other hb).mpr hg) hne

/-- The first usable candidate decides alone, and a run says that there is none exactly if there is none.
Another tree gives the same if the usable candidates up to the first are the same in it. -/
theorem run_decided_by_first_usable {t : FileTree} (ht : t.WellFormed) (o : GateOptions) (now : Time)
    (hw : t.CanWrite o.output) :
    (∀ r v, (t.run o now).1 = .ok (.evaluated r v) ↔
      ∃ f pair, t.IsFirstUsable o.root f pair ∧ f.path = r ∧ pair.judge o.thresholds = v) ∧
    ((t.run o now).1 = .ok (.skipped .noMeasurements) ↔
      (∃ f, t.IsCandidate o.root f) ∧ ∀ f pair, ¬ t.IsUsable o.root f pair) ∧
    ∀ f pair, t.IsFirstUsable o.root f pair →
      ∀ t' : FileTree, t'.WellFormed → t'.CanWrite o.output → t.SameUpTo t' o.root f →
        ∀ now', (t'.run o now').1 = (t.run o now).1 := by
  refine ⟨fun r v => ?_, ?_, fun f pair hf t' ht' hw' hs now' => ?_⟩
  · rw [run_of_canWrite hw, Except.ok.injEq]
    exact outcome_eq_evaluated_iff ht o
  · rw [run_of_canWrite hw, Except.ok.injEq]
    exact outcome_eq_noMeasurements_iff ht o
  · rw [run_of_canWrite hw, run_of_canWrite hw',
      (outcome_eq_evaluated_iff ht o).mpr ⟨f, pair, hf, rfl, rfl⟩,
      (outcome_eq_evaluated_iff ht' o).mpr ⟨f, pair, hf.of_sameUpTo hs, rfl, rfl⟩]

def brokenText : List UInt8 := Text.encode "\x7b\"Benchmarks\":[".toList

def completeText : List UInt8 :=
  Text.encode ("\x7b\"Benchmarks\":[\x7b\"Method\":\"Fixed\",\"Statistics\":\x7b\"AllocatedB\":100\x7d\x7d," ++
    "\x7b\"Method\":\"Adaptive\",\"Statistics\":\x7b\"AllocatedB\":110\x7d\x7d]\x7d").toList

attribute [irreducible] brokenText completeText

def inputName : Name := Text.encode "in".toList
def newerName : Name := Text.encode "AdaptivePagingAllocationsBenchmarks-report-2.json".toList
def olderName : Name := Text.encode "AdaptivePagingAllocationsBenchmarks-report-1.json".toList

def newerReport : FoundFile := ⟨⟨inputName ++ Path.slash :: newerName⟩, ⟨2, 0⟩⟩
def olderReport : FoundFile := ⟨⟨inputName ++ Path.slash :: olderName⟩, ⟨1, 0⟩⟩

def brokenOff : FileTree :=
  ⟨[([inputName], .directory),
    ([inputName, newerName], .file brokenText ⟨2, 0⟩),
    ([inputName, olderName], .file completeText ⟨1, 0⟩)]⟩

theorem brokenOff_wellFormed : brokenOff.WellFormed where
  distinct := by decide
  rooted := by decide
  named := by decide
  inDirectory := by decide
  linked := by simp [brokenOff]

theorem brokenOff_discover :
    brokenOff.discover ⟨inputName⟩ = .candidates [newerReport, olderReport] := by cbv

theorem brokenOff_newer : brokenOff.read newerReport.path = .ok brokenText := by cbv

set_option maxRecDepth 2000 in
theorem brokenOff_older : brokenOff.read olderReport.path = .ok completeText := by cbv

theorem brokenText_unusable : usablePair? (.ok brokenText) = none := by
  rw [← Option.isNone_iff_eq_none, brokenText]
  decide +kernel

theorem completeText_usable : ∃ pair, Yields (.ok completeText) pair := by
  have hs : (usablePair? (.ok completeText)).isSome = true := by
    rw [completeText]
    decide +kernel
  obtain ⟨pair, hp⟩ := Option.isSome_iff_exists.mp hs
  exact ⟨pair, usablePair?_eq_some_iff.mp hp⟩

theorem brokenOff_first : ∃ pair, brokenOff.IsFirstUsable ⟨inputName⟩ olderReport pair := by
  obtain ⟨pair, hp⟩ := completeText_usable
  refine ⟨pair, ⟨⟨_, brokenOff_discover, by simp⟩, by rwa [brokenOff_older]⟩, ?_⟩
  rintro g other ⟨⟨files, hd, hg⟩, hy⟩ hne
  rw [brokenOff_discover, Discovery.candidates.injEq] at hd
  rw [← hd] at hg
  simp only [List.mem_cons, List.not_mem_nil, or_false] at hg
  rcases hg with rfl | rfl
  · rw [brokenOff_newer] at hy
    exact absurd hy (usablePair?_eq_none_iff.mp brokenText_unusable other)
  · exact absurd rfl hne

def besideOptions : GateOptions := ⟨⟨inputName⟩, .ofString "out.md", ⟨20, 0⟩⟩

theorem brokenOff_run :
    brokenOff.WellFormed ∧ brokenOff.CanWrite besideOptions.output ∧ ∃ pair,
      brokenOff.IsFirstUsable ⟨inputName⟩ olderReport pair ∧
      (brokenOff.run besideOptions ⟨3, 0⟩).1 =
        .ok (.evaluated olderReport.path (pair.judge besideOptions.thresholds)) := by
  have hw : brokenOff.CanWrite besideOptions.output :=
    ⟨[Text.encode "out.md".toList], by cbv, by decide⟩
  obtain ⟨pair, hf⟩ := brokenOff_first
  refine ⟨brokenOff_wellFormed, hw, pair, hf, ?_⟩
  exact ((run_decided_by_first_usable brokenOff_wellFormed besideOptions ⟨3, 0⟩ hw).1 _ _).mpr
    ⟨olderReport, pair, hf, rfl, rfl⟩

end FileTree
end PagingGate
