import PagingGate.Proofs.Commands
import PagingGate.Proofs.Json.Readers
import PagingGate.Proofs.Rerun
import PagingGate.Proofs.Summary.Json

set_option autoImplicit false

/-!
# How a run ends

A run is refused, skipped, judged, or cannot write its summary. Each ending has its status, what is printed and what is
left in the tree, and the summary, the printed document and the printed error tell of one verdict.
-/

namespace PagingGate

open CommandLine (Environment Format Request)
open Json (IsDocument IsText Named)

/-- The last line of a text in which every line ends in a line feed. -/
def IsLastLine (l text : List Char) : Prop :=
  '\n' ∉ l ∧ ∃ front, (front = [] ∨ front.getLast? = some '\n') ∧ text = front ++ line l

/-- A JSON object with just one member of that name, which is that text. -/
def HasText (key text : String) (document : List Char) : Prop :=
  ∃ ms fields v, IsDocument (.object ms) document ∧ Named ms fields ∧ (fields.map Prod.fst).count key = 1 ∧
    fields.lookup key = some v ∧ IsText v text

def Status.resultLine : Status → List Char
  | .pass => "Result: **PASS**".toList
  | .fail => "Result: **FAIL**".toList

theorem Status.resultLine_eq (s : Status) : "Result: **".toList ++ s.word.toList ++ "**".toList = s.resultLine := by
  cases s <;> decide

theorem IsLastLine.unique {a b text : List Char} (ha : IsLastLine a text) (hb : IsLastLine b text) : a = b := by
  obtain ⟨hna, front, hfront, rfl⟩ := ha
  obtain ⟨hnb, front', hfront', htext⟩ := hb
  rw [line, line, ← List.append_assoc, ← List.append_assoc] at htext
  -- What one front has more than the other would bring its last line feed into a line.
  have hnothing : ∀ {f g c l : List Char}, (g = [] ∨ g.getLast? = some '\n') → g = f ++ c → '\n' ∉ c ++ l → c = [] := by
    rintro f g c l hg rfl hl
    by_contra hc
    rcases hg with hg | hg
    · exact hc (List.append_eq_nil_iff.mp hg).2
    · rw [List.getLast?_append_of_ne_nil _ hc] at hg
      exact hl (List.mem_append_left l (List.mem_of_getLast? hg))
  rcases List.append_eq_append_iff.mp (List.append_cancel_right htext) with ⟨c, hg, hl⟩ | ⟨c, hg, hl⟩
  · rw [hl, hnothing hfront' hg (hl ▸ hna), List.nil_append]
  · rw [hl, hnothing hfront hg (hl ▸ hnb), List.nil_append]

theorem isLastLine_flatMap (ls : List (List Char)) {l : List Char} (hl : '\n' ∉ l) :
    IsLastLine l ((ls ++ [l]).flatMap (· ++ ['\n'])) := by
  refine ⟨hl, ls.flatMap (· ++ ['\n']), ?_, by simp [line]⟩
  rcases List.eq_nil_or_concat ls with rfl | ⟨before, last, rfl⟩
  · exact Or.inl rfl
  · simp

theorem Verdict.summary_lastLine (v : Verdict) (path : List Char) :
    IsLastLine v.status.resultLine (v.summary path) := by
  have hsplit : v.summaryLines path = (v.summaryLines path).dropLast ++ [v.status.resultLine] := by
    rw [← v.status.resultLine_eq]
    rfl
  rw [summary, hsplit]
  exact isLastLine_flatMap _ (by cases v.status <;> decide)

theorem resultLine_injective {r s : Status} (h : r.resultLine = s.resultLine) : r = s := by
  revert h
  cases r <;> cases s <;> decide

theorem Verdict.lastLine_iff (v : Verdict) (path : List Char) (s : Status) :
    IsLastLine s.resultLine (v.summary path) ↔ v.status = s := by
  constructor
  · exact fun h => resultLine_injective ((v.summary_lastLine path).unique h)
  · rintro rfl
    exact v.summary_lastLine path

theorem Verdict.jsonSummary_status (v : Verdict) (path : List Char) :
    HasText "status" v.status.word (v.jsonSummary path) := by
  obtain ⟨ms, _, hdocument, hnamed, htold⟩ := v.jsonSummary_object path
  cases htold with
  | members _ _ _ _ _ _ hword => exact ⟨ms, _, _, hdocument, hnamed, rfl, rfl, _, rfl, hword⟩

def Verdict.document (v : Verdict) (path : List Char) : Format → List Char
  | .markdown => v.summary path
  | .json => v.jsonSummary path

def States (s : Status) (document : List Char) : Format → Prop
  | .markdown => IsLastLine s.resultLine document
  | .json => HasText "status" s.word document

theorem Verdict.document_states (v : Verdict) (path : List Char) (format : Format) :
    States v.status (v.document path format) format := by
  cases format with
  | markdown => exact v.summary_lastLine path
  | json => exact v.jsonSummary_status path

inductive Ending where
  | refused
  | skipped (reason : SkipReason)
  | judged (format : Format) (output report : Path) (verdict : Verdict)
  | unwritten

namespace FileTree

structure Starts (t : FileTree) (words : List String) (env : Environment) (request : Request)
    (thresholds : Thresholds) : Prop where
  read_eq : CommandLine.read words env = .ok request
  resolve_eq : request.resolve t.read = .ok thresholds

/-- Which stage ends the run. -/
def EndsIn (t : FileTree) (words : List String) (env : Environment) : Ending → Prop
  | .refused => (∃ m, CommandLine.read words env = .error (.misuse m)) ∨
      ∃ request fault, CommandLine.read words env = .ok request ∧ request.resolve t.read = .error fault
  | .skipped reason => ∃ request thresholds, t.Starts words env request thresholds ∧
      t.outcome ⟨request.root, request.output, thresholds⟩ = .skipped reason
  | .judged format output report v => ∃ request thresholds, t.Starts words env request thresholds ∧
      request.format = format ∧ request.output = output ∧
      t.outcome ⟨request.root, request.output, thresholds⟩ = .evaluated report v ∧ t.CanWrite output
  | .unwritten => ∃ request thresholds report v, t.Starts words env request thresholds ∧
      t.outcome ⟨request.root, request.output, thresholds⟩ = .evaluated report v ∧ ¬ t.CanWrite request.output

/-- The file that the path leads to has the content, and all else is as it was. -/
def ChangesOnly (t t' : FileTree) (output : Path) (content : List UInt8) (now : Time) : Prop :=
  ∃ l, t.locateNew output = .ok l ∧ t'.node? l = some (.file content now) ∧ ∀ k, k ≠ l → t'.node? k = t.node? k

end FileTree

/-- Status, printed document and printed error tell of one verdict. -/
structure Exit.Reports (x : Exit) (format : Format) (report : Path) (v : Verdict) : Prop where
  failed : x.status = 1 ↔ v.status = .fail
  passed : x.status = 0 ↔ v.status = .pass
  states : States v.status (v.document report.shown format) format
  output_of_pass : v.status = .pass → x.output = line (v.document report.shown format)
  output_of_fail : v.status = .fail → ∃ text, '\n' ∉ text ∧
    x.output = line (v.document report.shown format) ++ line (errorMark ++ text)

def SkipReason.warningLine : SkipReason → String
  | .rootMissing => "::warning::Artifacts root not found; skipping allocation check\n"
  | .noReports => "::warning::No allocation benchmark JSON reports found; skipping\n"
  | .noMeasurements => "::warning::Could not extract allocation metrics; skipping\n"

/-- What a run that ends so prints and leaves. -/
def Ending.Shows (x : Exit) (t t' : FileTree) (now : Time) : Ending → Prop
  | .refused => x.status = 2 ∧ x.output = [] ∧ t' = t
  | .skipped reason => x.status = 0 ∧ x.output = reason.warningLine.toList ∧ t' = t
  | .judged format output report v =>
      t.ChangesOnly t' output (Text.encode (v.summary report.shown)) now ∧
      t'.read output = .ok (Text.encode (v.summary report.shown)) ∧
      (∀ s : Status, IsLastLine s.resultLine (v.summary report.shown) ↔ v.status = s) ∧
      x.Reports format report v
  | .unwritten => x.status = 1 ∧ x.output = []

theorem Exit.printed_skipped (format : Format) (reason : SkipReason) :
    printed format (.skipped reason) = reason.warningLine.toList := by
  change line (warningCommand reason.message.toList) = reason.warningLine.toList
  cases reason <;> decide +kernel

theorem Exit.ofOutcome_reports (format : Format) (report : Path) (v : Verdict) :
    (Exit.ofOutcome format (.evaluated report v)).Reports format report v := by
  have hprinted : (Exit.ofOutcome format (.evaluated report v)).output =
      line (v.document report.shown format) ++ (v.errorCommand.map line).getD [] := by
    cases format <;> rfl
  have hstatus : (Exit.ofOutcome format (.evaluated report v)).status = if v.status = .fail then 1 else 0 := by
    cases hs : v.status <;> simp [ofOutcome, Outcome.exitStatus, hs]
  refine ⟨?_, ?_, v.document_states report.shown format, fun hs => ?_, fun hs => ?_⟩
  · rw [hstatus]
    cases v.status <;> decide
  · rw [hstatus]
    cases v.status <;> decide
  · rw [hprinted, Verdict.errorCommand_of_pass hs]
    exact List.append_nil _
  · obtain ⟨text, ht, hn⟩ := Verdict.errorCommand_of_fail hs
    exact ⟨text, hn, by rw [hprinted, ht]; rfl⟩

namespace FileTree

variable {t : FileTree} {words : List String} {env : Environment} {now : Time} {request : Request}
  {thresholds : Thresholds} {e : Ending}

theorem Starts.eq {request' : Request} {thresholds' : Thresholds} (h : t.Starts words env request thresholds)
    (h' : t.Starts words env request' thresholds') : request' = request ∧ thresholds' = thresholds := by
  obtain rfl := Except.ok.inj (h.read_eq.symm.trans h'.read_eq)
  exact ⟨rfl, (Except.ok.inj (h.resolve_eq.symm.trans h'.resolve_eq)).symm⟩

theorem Starts.outcome_eq {request' : Request} {thresholds' : Thresholds} {o : Outcome}
    (h : t.Starts words env request thresholds) (h' : t.Starts words env request' thresholds')
    (ho : t.outcome ⟨request'.root, request'.output, thresholds'⟩ = o) :
    t.outcome ⟨request.root, request.output, thresholds⟩ = o := by
  obtain ⟨rfl, rfl⟩ := h.eq h'
  exact ho

theorem Starts.not_refused (h : t.Starts words env request thresholds) : ¬ t.EndsIn words env .refused := by
  rintro (⟨m, hm⟩ | ⟨request', fault, hread, hfault⟩)
  · rw [h.read_eq] at hm
    cases hm
  · obtain rfl := Except.ok.inj (h.read_eq.symm.trans hread)
    rw [h.resolve_eq] at hfault
    cases hfault

theorem program_of_starts (h : t.Starts words env request thresholds) (now : Time) : t.program words env now =
    match t.run ⟨request.root, request.output, thresholds⟩ now with
    | (.ok outcome, t) => (.ofOutcome request.format outcome, t)
    | (.error fault, t) => (.ofWriteFault request.output fault, t) := by
  cases hrun : t.run ⟨request.root, request.output, thresholds⟩ now with
  | mk result t' => cases result <;> simp only [program, h.read_eq, h.resolve_eq, hrun]

theorem endsIn_of_misuse {m : CommandLine.Misuse} (h : CommandLine.read words env = .error (.misuse m)) :
    t.EndsIn words env e ↔ e = .refused := by
  have hstarts : ∀ request thresholds, ¬ t.Starts words env request thresholds := by
    rintro request thresholds ⟨hread, _⟩
    rw [h] at hread
    cases hread
  cases e with
  | refused => exact iff_of_true (Or.inl ⟨m, h⟩) rfl
  | _ => simp [EndsIn, hstarts]

theorem endsIn_of_fault {fault : ConfigurationFault} (hread : CommandLine.read words env = .ok request)
    (h : request.resolve t.read = .error fault) : t.EndsIn words env e ↔ e = .refused := by
  have hstarts : ∀ request thresholds, ¬ t.Starts words env request thresholds := by
    rintro request' thresholds ⟨hread', hresolve⟩
    obtain rfl := Except.ok.inj (hread.symm.trans hread')
    rw [h] at hresolve
    cases hresolve
  cases e with
  | refused => exact iff_of_true (Or.inr ⟨request, fault, hread, h⟩) rfl
  | _ => simp [EndsIn, hstarts]

theorem shows_refused (h : t.EndsIn words env .refused) :
    Ending.Shows (t.program words env now).1 t (t.program words env now).2 now .refused := by
  unfold program
  rcases h with ⟨m, hm⟩ | ⟨request, fault, hread, hfault⟩
  · rw [hm]
    exact ⟨rfl, rfl, rfl⟩
  · rw [hread]
    simp only [hfault]
    exact ⟨rfl, rfl, rfl⟩

section
variable (h : t.Starts words env request thresholds)
include h

theorem endsIn_of_skipped {reason : SkipReason}
    (ho : t.outcome ⟨request.root, request.output, thresholds⟩ = .skipped reason) :
    t.EndsIn words env e ↔ e = .skipped reason := by
  cases e with
  | refused => exact iff_of_false h.not_refused (by simp)
  | skipped reason' =>
    constructor
    · rintro ⟨request', thresholds', h', ho'⟩
      exact congrArg Ending.skipped (Outcome.skipped.inj ((h.outcome_eq h' ho').symm.trans ho))
    · rintro ⟨⟩
      exact ⟨request, thresholds, h, ho⟩
  | judged format output report v =>
    refine iff_of_false ?_ (by simp)
    rintro ⟨request', thresholds', h', _, _, ho', _⟩
    cases ho.symm.trans (h.outcome_eq h' ho')
  | unwritten =>
    refine iff_of_false ?_ (by simp)
    rintro ⟨request', thresholds', report, v, h', ho', _⟩
    cases ho.symm.trans (h.outcome_eq h' ho')

theorem shows_skipped {reason : SkipReason}
    (ho : t.outcome ⟨request.root, request.output, thresholds⟩ = .skipped reason) :
    Ending.Shows (t.program words env now).1 t (t.program words env now).2 now (.skipped reason) := by
  rw [program_of_starts h, run_of_skipped ho]
  exact ⟨rfl, Exit.printed_skipped request.format reason, rfl⟩

variable {report : Path} {v : Verdict}

theorem endsIn_of_evaluated (ho : t.outcome ⟨request.root, request.output, thresholds⟩ = .evaluated report v) :
    t.EndsIn words env e ↔ t.CanWrite request.output ∧ e = .judged request.format request.output report v ∨
      ¬ t.CanWrite request.output ∧ e = .unwritten := by
  cases e with
  | refused => exact iff_of_false h.not_refused (by simp)
  | skipped reason =>
    refine iff_of_false ?_ (by simp)
    rintro ⟨request', thresholds', h', ho'⟩
    cases ho.symm.trans (h.outcome_eq h' ho')
  | judged format output report' v' =>
    constructor
    · rintro ⟨request', thresholds', h', hformat, houtput, ho', hwrite⟩
      obtain ⟨rfl, rfl⟩ := h.eq h'
      rw [ho] at ho'
      obtain ⟨rfl, rfl⟩ := Outcome.evaluated.inj ho'
      exact Or.inl ⟨houtput ▸ hwrite, by rw [hformat, houtput]⟩
    · rintro (⟨hwrite, hjudged⟩ | ⟨_, hjudged⟩)
      · obtain ⟨rfl, rfl, rfl, rfl⟩ := Ending.judged.inj hjudged
        exact ⟨request, thresholds, h, rfl, rfl, ho, hwrite⟩
      · cases hjudged
  | unwritten =>
    constructor
    · rintro ⟨request', thresholds', report', v', h', ho', hwrite⟩
      obtain ⟨rfl, rfl⟩ := h.eq h'
      exact Or.inr ⟨hwrite, rfl⟩
    · rintro (⟨_, hunwritten⟩ | ⟨hwrite, _⟩)
      · cases hunwritten
      · exact ⟨request, thresholds, report, v, h, ho, hwrite⟩

theorem shows_judged (ht : t.WellFormed)
    (ho : t.outcome ⟨request.root, request.output, thresholds⟩ = .evaluated report v) (hwrite : t.CanWrite request.output) :
    Ending.Shows (t.program words env now).1 t (t.program words env now).2 now
      (.judged request.format request.output report v) := by
  obtain ⟨t', hw⟩ := (canWrite_iff (Text.encode (v.summary report.shown)) now).mp hwrite
  rw [program_of_starts h, run_of_write ho hw]
  refine ⟨?_, read_of_write ht hw, v.lastLine_iff report.shown, Exit.ofOutcome_reports _ _ _⟩
  obtain ⟨l, hl, hd, rfl⟩ := write_eq_ok_iff.mp hw
  have hplace := isFilePlace_of_locateNew ht hl hd
  exact ⟨l, hl, node?_put_same t hplace.nonempty _, fun k hk => node?_put_other t hplace.nonempty _ hk⟩

theorem shows_unwritten (ho : t.outcome ⟨request.root, request.output, thresholds⟩ = .evaluated report v)
    (hwrite : ¬ t.CanWrite request.output) :
    Ending.Shows (t.program words env now).1 t (t.program words env now).2 now .unwritten := by
  rw [program_of_starts h, run, ho]
  simp only [Outcome.summary?]
  cases hw : t.write request.output (Text.encode (v.summary report.shown)) now with
  | ok t' => exact absurd ((canWrite_iff _ now).mpr ⟨t', hw⟩) hwrite
  | error fault => exact ⟨rfl, rfl⟩

end

/-- A run that is no request for help or for the version has exactly one ending, and shows what belongs to it. -/
theorem program_ends (ht : t.WellFormed) (hhelp : ∀ long, CommandLine.read words env ≠ .error (.help long))
    (hversion : CommandLine.read words env ≠ .error .version) (now : Time) : ∃ e, t.EndsIn words env e ∧
      (∀ e', t.EndsIn words env e' → e' = e) ∧
      e.Shows (t.program words env now).1 t (t.program words env now).2 now := by
  cases hread : CommandLine.read words env with
  | error stop =>
    cases stop with
    | help long => exact absurd hread (hhelp long)
    | version => exact absurd hread hversion
    | misuse m =>
      have hends : t.EndsIn words env .refused := (endsIn_of_misuse hread).mpr rfl
      exact ⟨.refused, hends, fun e' => (endsIn_of_misuse hread).mp, shows_refused hends⟩
  | ok request =>
    cases hresolve : request.resolve t.read with
    | error fault =>
      have hends : t.EndsIn words env .refused := (endsIn_of_fault hread hresolve).mpr rfl
      exact ⟨.refused, hends, fun e' => (endsIn_of_fault hread hresolve).mp, shows_refused hends⟩
    | ok thresholds =>
      have h : t.Starts words env request thresholds := ⟨hread, hresolve⟩
      cases ho : t.outcome ⟨request.root, request.output, thresholds⟩ with
      | skipped reason =>
        exact ⟨_, (endsIn_of_skipped h ho).mpr rfl, fun e' => (endsIn_of_skipped h ho).mp, shows_skipped h ho⟩
      | evaluated report v =>
        by_cases hwrite : t.CanWrite request.output
        · refine ⟨_, (endsIn_of_evaluated h ho).mpr (Or.inl ⟨hwrite, rfl⟩), fun e' he => ?_, shows_judged h ht ho hwrite⟩
          exact (((endsIn_of_evaluated h ho).mp he).resolve_right fun hn => hn.1 hwrite).2
        · refine ⟨_, (endsIn_of_evaluated h ho).mpr (Or.inr ⟨hwrite, rfl⟩), fun e' he => ?_, shows_unwritten h ho hwrite⟩
          exact (((endsIn_of_evaluated h ho).mp he).resolve_left fun hn => hwrite hn.1).2

theorem commandInName_ends : ∃ v : Verdict, v.status = .pass ∧
    commandInName.EndsIn [] (fun _ => none) (.judged .markdown plainRequest.output commandInPath v) ∧
    (commandInName.program [] (fun _ => none) ⟨2, 0⟩).1.status = 0 := by
  obtain ⟨v, hpass, hrun⟩ := commandInName_run
  have hstarts : commandInName.Starts [] (fun _ => none) plainRequest .default :=
    ⟨read_plainRequest, resolve_plainRequest _⟩
  have hends : commandInName.EndsIn [] (fun _ => none) (.judged .markdown plainRequest.output commandInPath v) :=
    ⟨plainRequest, .default, hstarts, rfl, rfl, outcome_of_run hrun, commandInName_canWrite⟩
  obtain ⟨e, _, hunique, hshows⟩ := program_ends commandInName_wellFormed
    (by rw [read_plainRequest]; exact fun _ h => nomatch h) (by rw [read_plainRequest]; exact fun h => nomatch h) ⟨2, 0⟩
  rw [← hunique _ hends] at hshows
  exact ⟨v, hpass, hends, hshows.2.2.2.passed.mpr hpass⟩

end FileTree
end PagingGate
