import PagingGate.Proofs.FileTree.Write
import PagingGate.Proofs.Selection

set_option autoImplicit false

/-!
# A second run

A run changes the tree that the next one looks at: the summary it writes may lie under the root and be named
like a report. But a summary is never a report, so the next run decides by the same file.
-/

namespace PagingGate

theorem decode?_cons_of_ascii {b : UInt8} (hb : b < 0x80) {bytes : List UInt8} {text : List Char}
    (h : Text.decode? (b :: bytes) = some text) : ∃ rest, text = Char.ofNat b.toNat :: rest := by
  rw [Text.decode?, Text.pieces, if_pos hb, List.mapM_cons] at h
  simp only [id_eq, Option.bind_eq_bind, Option.bind_some, Option.bind_eq_some_iff,
    Option.pure_def, Option.some.injEq] at h
  obtain ⟨rest, _, rfl⟩ := h
  exact ⟨rest, rfl⟩

theorem ofJson_heading (rest : List Char) (report : Report) :
    Report.ofJson (String.ofList ('#' :: rest)) ≠ .ok report := by
  have hskip : Json.skipBlank ('#' :: rest) = '#' :: rest := rfl
  simp [Report.ofJson, Json.Reader.document, Json.Record.reader, Json.Record.read, hskip]

theorem summary_head (v : Verdict) (path : List Char) : ∃ rest, v.summary path = '#' :: rest :=
  ⟨_, rfl⟩

theorem usablePair?_summary (v : Verdict) (path : List Char) :
    usablePair? (.ok (Text.encode (v.summary path))) = none := by
  rw [usablePair?_eq_none_iff]
  rintro pair ⟨bytes, text, report, hbytes, htext, hreport, _⟩
  obtain ⟨rest, hs⟩ := summary_head v path
  have hb : bytes = 0x23 :: Text.encode rest := by
    rw [← Except.ok.inj hbytes, hs]
    rfl
  rw [hb] at htext
  obtain ⟨rest', rfl⟩ := decode?_cons_of_ascii (by decide) htext
  exact ofJson_heading rest' report hreport

namespace FileTree

variable {t : FileTree} {root : Path} {f : FoundFile} {pair : MeasurementPair} {base k l : Location}
  {content : List UInt8} {now : Time} {p : Path}

theorem isUsable_iff :
    t.IsUsable root f pair ↔ ∃ base k content, t.locate root = .ok base ∧
      f.path ∈ t.pathsUnder root base ∧ f.isReport = true ∧ t.locate f.path = .ok k ∧
      t.node? k = some (.file content f.modified) ∧ Yields (.ok content) pair := by
  constructor
  · rintro ⟨hc, hy⟩
    obtain ⟨base, hb, hp, ht, hr⟩ := isCandidate_iff.mp hc
    obtain ⟨k, content, hk, hn⟩ := fileTime?_eq_some_iff.mp ht
    have hread : t.read f.path = .ok content := read_eq_ok_iff.mpr ⟨k, _, hk, hn⟩
    rw [hread] at hy
    exact ⟨base, k, content, hb, hp, hr, hk, hn, hy⟩
  · rintro ⟨base, k, content, hb, hp, hr, hk, hn, hy⟩
    refine ⟨isCandidate_iff.mpr ⟨base, hb, hp, fileTime?_eq_some_iff.mpr ⟨k, content, hk, hn⟩, hr⟩, ?_⟩
    have hread : t.read f.path = .ok content := read_eq_ok_iff.mpr ⟨k, _, hk, hn⟩
    rwa [hread]

theorem mem_pathsUnder_put {n : Node} (hn : n ≠ .directory) (h : p ∈ t.pathsUnder root base) :
    p ∈ (t.put l n).pathsUnder root base := by
  rw [mem_pathsUnder] at *
  rcases h with h | ⟨e, he, hd, hb, hj⟩
  · exact .inl h
  · by_cases hl : e.1 = l
    · exact .inr ⟨(l, n), (mem_put t l n _).mpr (.inl rfl), hn, hl ▸ hb, hl ▸ hj⟩
    · exact .inr ⟨e, (mem_put t l n e).mpr (.inr ⟨he, hl⟩), hd, hb, hj⟩

theorem mem_pathsUnder_of_put (n : Node) (h : p ∈ (t.put l n).pathsUnder root base) :
    p ∈ t.pathsUnder root base ∨ isBelow base l = true ∧ root.join (l.drop base.length) = p := by
  rw [mem_pathsUnder] at *
  rcases h with h | ⟨e, he, hd, hb, hj⟩
  · exact .inl (.inl h)
  · rcases (mem_put t l n e).mp he with rfl | ⟨he, _⟩
    · exact .inr ⟨hb, hj⟩
    · exact .inl (.inr ⟨e, he, hd, hb, hj⟩)

theorem IsUsable.put (h : t.IsUsable root f pair) (hl : t.IsFilePlace l)
    (hf : t.locate f.path ≠ .ok l) : (t.put l (.file content now)).IsUsable root f pair := by
  obtain ⟨base, k, c, hb, hp, hr, hk, hn, hy⟩ := isUsable_iff.mp h
  have hkl : k ≠ l := by
    rintro rfl
    exact hf hk
  refine isUsable_iff.mpr ⟨base, k, c, locate_put hl hb, mem_pathsUnder_put (by simp) hp, hr,
    locate_put hl hk, ?_, hy⟩
  rwa [node?_put_other t hl.nonempty _ hkl]

theorem WellFormed.put_file (ht : t.WellFormed) (hl : t.IsFilePlace l) :
    (t.put l (.file content now)).WellFormed :=
  ht.put hl.toIsPlace (.inr hl.isDirectory) (by simp)

/-- A written file has nothing below it, so a root that leads to it lists itself only. -/
theorem eq_of_mem_pathsUnder_put_self (ht : t.WellFormed) (hl : t.IsFilePlace l)
    (h : p ∈ (t.put l (.file content now)).pathsUnder root l) : p = root := by
  have ht' : (t.put l (.file content now)).WellFormed := ht.put_file hl
  rcases mem_pathsUnder.mp h with hroot | ⟨e, he, _, hbelow, _⟩
  · exact hroot
  · obtain ⟨hsplit, hrel, _⟩ := ht'.below he hbelow
    have hnode : (t.put l (.file content now)).node? (l ++ e.1.drop l.length) ≠ none := by
      rw [← hsplit, ht'.node?_of_mem he]
      simp
    have hd := ht'.above hrel hnode
    rw [isDirectory_put hl, hl.isDirectory] at hd
    simp at hd

theorem mem_pathsUnder_of_locate_put (ht : t.WellFormed) (hl : t.IsFilePlace l)
    (hb : (t.put l (.file content now)).locate root = .ok base)
    (h : p ∈ (t.put l (.file content now)).pathsUnder root base)
    (hk : (t.put l (.file content now)).locate p = .ok k) (hkl : k ≠ l) :
    p ∈ t.pathsUnder root base := by
  have ht' : (t.put l (.file content now)).WellFormed := ht.put_file hl
  rcases mem_pathsUnder_of_put _ h with h | ⟨hbelow, hj⟩
  · exact h
  · have he : (l, Node.file content now) ∈ (t.put l (.file content now)).entries :=
      (mem_put t l _ _).mpr (.inl rfl)
    obtain ⟨hsplit, hrel, hplain⟩ := ht'.below he hbelow
    have hnode := ht'.node?_of_mem he
    rw [hsplit] at hnode
    rw [← hj] at hk
    have hend := locate_join ht' hb hrel hplain hnode (by simp) hk
    exact absurd (hend.trans hsplit.symm) hkl

/-- Nothing becomes usable by the writing of a file that is not. -/
theorem IsUsable.of_put (ht : t.WellFormed) (hl : t.IsFilePlace l)
    (hbad : usablePair? (.ok content) = none)
    (h : (t.put l (.file content now)).IsUsable root f pair) : t.IsUsable root f pair := by
  obtain ⟨base, k, c, hb, hp, hr, hk, hn, hy⟩ := isUsable_iff.mp h
  have hkl : k ≠ l := by
    rintro rfl
    rw [node?_put_same t hl.nonempty, Option.some.injEq, Node.file.injEq] at hn
    rw [← hn.1] at hy
    exact usablePair?_eq_none_iff.mp hbad pair hy
  -- A root that leads to the written file has no candidate but that file.
  have hbl : base ≠ l := by
    rintro rfl
    rw [eq_of_mem_pathsUnder_put_self ht hl hp, hb, Except.ok.injEq] at hk
    exact hkl hk.symm
  have hp' := mem_pathsUnder_of_locate_put ht hl hb hp hk hkl
  rw [node?_put_other t hl.nonempty _ hkl] at hn
  exact isUsable_iff.mpr ⟨base, k, c, locate_of_put hl hbl hb, hp', hr, locate_of_put hl hkl hk, hn, hy⟩

theorem sameUpTo_put (ht : t.WellFormed) (hl : t.IsFilePlace l)
    (hbad : usablePair? (.ok content) = none) (hf : t.IsFirstUsable root f pair)
    (hfl : t.locate f.path ≠ .ok l) : t.SameUpTo (t.put l (.file content now)) root f := by
  intro g other hg
  constructor
  · intro h
    by_cases hgf : g = f
    · subst hgf
      exact h.put hl hfl
    · exact absurd (hf.first g other h hgf) hg
  · exact fun h => h.of_put ht hl hbad

theorem run_cases {o : GateOptions} {out : Outcome} {t' : FileTree}
    (h : t.run o now = (.ok out, t')) : t.outcome o = out ∧
      ((∃ reason, out = .skipped reason ∧ t' = t) ∨
        ∃ r v, out = .evaluated r v ∧
          t.write o.output (Text.encode (v.summary r.shown)) now = .ok t') := by
  have ho : t.outcome o = out := outcome_of_run (by rw [h])
  refine ⟨ho, ?_⟩
  rw [run, ho] at h
  cases out with
  | skipped reason =>
    simp only [Outcome.summary?, Prod.mk.injEq, true_and] at h
    exact .inl ⟨reason, rfl, h.symm⟩
  | evaluated r v =>
    simp only [Outcome.summary?] at h
    cases hw : t.write o.output (Text.encode (v.summary r.shown)) now with
    | error e => simp [hw] at h
    | ok t'' =>
      simp only [hw, Prod.mk.injEq, true_and] at h
      exact .inr ⟨r, v, rfl, by rw [← h, hw]⟩

theorem run_of_write {o : GateOptions} {r : Path} {v : Verdict} {t' : FileTree}
    (ho : t.outcome o = .evaluated r v)
    (hw : t.write o.output (Text.encode (v.summary r.shown)) now = .ok t') :
    t.run o now = (.ok (.evaluated r v), t') := by
  simp only [run, ho, Outcome.summary?, hw]

theorem outcome_of_sameUpTo {t' : FileTree} (ht : t.WellFormed) (ht' : t'.WellFormed)
    {o : GateOptions} {r : Path} {v : Verdict} (h : t.outcome o = .evaluated r v)
    (hs : ∀ f pair, t.IsFirstUsable o.root f pair → f.path = r → t.SameUpTo t' o.root f) :
    t'.outcome o = .evaluated r v := by
  obtain ⟨f, pair, hf, hr, hv⟩ := (outcome_eq_evaluated_iff ht o).mp h
  exact (outcome_eq_evaluated_iff ht' o).mpr ⟨f, pair, hf.of_sameUpTo (hs f pair hf hr), hr, hv⟩

/-- A run that succeeded succeeds again with the same outcome, and leaves the same summary, unless it wrote
over the report that it selected. -/
theorem run_again {t t₁ : FileTree} (ht : t.WellFormed) {o : GateOptions} {now : Time} {out : Outcome}
    (h : t.run o now = (.ok out, t₁))
    (hout : ∀ r v l, out = .evaluated r v → t.locate r = .ok l → t.locateNew o.output ≠ .ok l)
    (later : Time) :
    (t₁.run o later).1 = .ok out ∧
      (t₁.run o later).2.read o.output = t₁.read o.output ∧
      match out.summary? with
      | some summary => t₁.read o.output = .ok (Text.encode summary)
      | none => t₁ = t := by
  obtain ⟨ho, ⟨reason, rfl, rfl⟩ | ⟨r, v, rfl, hw⟩⟩ := run_cases h
  · rw [run_of_skipped ho]
    exact ⟨rfl, rfl, rfl⟩
  · obtain ⟨l, hl, hd, hput⟩ := write_eq_ok_iff.mp hw
    have hplace := isFilePlace_of_locateNew ht hl hd
    have ht₁ := ht.write hw
    have ho₁ : t₁.outcome o = .evaluated r v := by
      refine outcome_of_sameUpTo ht ht₁ ho fun f pair hf hr => ?_
      rw [hput]
      exact sameUpTo_put ht hplace (usablePair?_summary v r.shown) hf
        fun hf' => hout r v l rfl (hr ▸ hf') hl
    have hcan := canWrite_of_write ht hw
    obtain ⟨t₂, hw₂⟩ := (canWrite_iff (Text.encode (v.summary r.shown)) later).mp hcan
    rw [run_of_write ho₁ hw₂]
    exact ⟨rfl, by rw [read_of_write ht₁ hw₂, read_of_write ht hw], read_of_write ht hw⟩

def overBrokenOptions : GateOptions := ⟨⟨inputName⟩, newerReport.path, ⟨20, 0⟩⟩

set_option maxRecDepth 2000 in
theorem brokenOff_locateNew_newer :
    brokenOff.locateNew newerReport.path = .ok [inputName, newerName] := by cbv

set_option maxRecDepth 2000 in
theorem brokenOff_locate_older :
    brokenOff.locate olderReport.path = .ok [inputName, olderName] := by cbv

theorem brokenOff_run_again : ∃ v t₁,
    brokenOff.run overBrokenOptions ⟨3, 0⟩ = (.ok (.evaluated olderReport.path v), t₁) ∧
    (t₁.run overBrokenOptions ⟨4, 0⟩).1 = .ok (.evaluated olderReport.path v) := by
  obtain ⟨pair, hf⟩ := brokenOff_first
  have ho : brokenOff.outcome overBrokenOptions =
      .evaluated olderReport.path (pair.judge overBrokenOptions.thresholds) :=
    (outcome_eq_evaluated_iff brokenOff_wellFormed _).mpr ⟨olderReport, pair, hf, rfl, rfl⟩
  have hwrite : ∃ t₁, brokenOff.write newerReport.path (Text.encode
      ((pair.judge overBrokenOptions.thresholds).summary olderReport.path.shown)) ⟨3, 0⟩ = .ok t₁ :=
    ⟨_, write_eq_ok_iff.mpr ⟨[inputName, newerName], brokenOff_locateNew_newer, by decide, rfl⟩⟩
  obtain ⟨t₁, hw⟩ := hwrite
  have hrun := run_of_write ho hw
  refine ⟨_, _, hrun, (run_again brokenOff_wellFormed hrun (fun r v l hr hl => ?_) ⟨4, 0⟩).1⟩
  obtain ⟨rfl, _⟩ := Outcome.evaluated.inj hr
  rw [brokenOff_locate_older, Except.ok.injEq] at hl
  rw [← hl, overBrokenOptions, brokenOff_locateNew_newer, ne_eq, Except.ok.injEq]
  decide

end FileTree
end PagingGate
