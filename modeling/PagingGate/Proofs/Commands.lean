import PagingGate.Program
import PagingGate.Proofs.Decimal.Characters
import PagingGate.Proofs.Selection
import PagingGate.Proofs.Text.Lines

set_option autoImplicit false

/-!
# Workflow commands on standard output

A build server takes every printed line that begins with a command's mark for a command. The JSON summary
escapes the line feeds of the report's path; the markdown summary shows the path as it is, so a path that
goes on in a line of such a form adds commands.
-/

namespace PagingGate

open CommandLine (Format)

namespace Json

@[simp] theorem digitChar_ne_newline (n : Nat) : '\n' ≠ Nat.digitChar n := by
  by_cases hn : n < 16
  · have hdigit : ∀ k < 16, '\n' ≠ Nat.digitChar k := by decide
    exact hdigit n hn
  · have hstar : Nat.digitChar n = '*' := by
      unfold Nat.digitChar
      iterate 16 rw [if_neg (by omega)]
    rw [hstar]
    decide

@[simp] theorem newline_not_mem_escaped (c : Char) : '\n' ∉ escaped c := by
  unfold escaped
  by_cases h : c = '\n'
  · rw [h]
    decide
  · iterate 6
      split
      · decide
    split
    · simp [hexPair]
    · rw [List.mem_singleton]
      exact Ne.symm h

@[simp] theorem newline_not_mem_stringText (s : String) : '\n' ∉ stringText s := by
  simp [stringText]

@[simp] theorem newline_not_mem_flagText (b : Bool) : '\n' ∉ flagText b := by
  cases b <;> decide

@[simp] theorem newline_not_mem_memberText {separator : List Char} (hs : '\n' ∉ separator)
    {m : String × List Char} (hm : '\n' ∉ m.2) : '\n' ∉ memberText separator m := by
  simp [memberText, hs, hm]

theorem countLines_prettyObject {c : Char} {mark : List Char} (hopen : c ≠ '\x7b') (hclose : c ≠ '\x7d')
    (hblank : c ≠ ' ') {members : List (String × List Char)} (hm : ∀ m ∈ members, '\n' ∉ m.2) :
    Text.countLines (c :: mark) (prettyObject members) = 0 := by
  have hbody : Text.countLines (c :: mark) (List.intercalate [',', '\n']
      (members.map fun m => ' ' :: ' ' :: memberText [':', ' '] m)) = 0 := by
    refine Text.countLines_intercalate [','] (by decide) (by simp) (fun l hl => ?_) ?_
    · obtain ⟨m, hmem, rfl⟩ := List.mem_map.mp hl
      simp [hm m hmem]
    · intro l hl rest
      obtain ⟨m, _, rfl⟩ := List.mem_map.mp hl
      rw [List.cons_append, List.isPrefixOf_cons_cons, beq_eq_false_iff_ne.mpr hblank]
      rfl
  have hsplit : prettyObject members = ['\x7b'] ++ '\n' :: (List.intercalate [',', '\n']
      (members.map fun m => ' ' :: ' ' :: memberText [':', ' '] m) ++ '\n' :: ['\x7d']) := rfl
  rw [hsplit, Text.countLines_append, Text.countLines_append, hbody, Text.countLines_single (by decide),
    Text.countLines_single (by decide)]
  simp [hopen, hclose]

end Json

theorem Verdict.newline_not_mem_members (v : Verdict) : ∀ m ∈ v.members, '\n' ∉ m.2 := by
  intro m hm
  simp only [members, List.mem_cons, List.not_mem_nil, or_false] at hm
  rcases hm with rfl | rfl | rfl | rfl | rfl | rfl | rfl <;> simp

def errorMark : List Char := "::error::".toList

def warningMark : List Char := "::warning::".toList

namespace Verdict

variable {mark : List Char}

theorem newline_not_mem_errorCommand (v : Verdict) : ∀ c ∈ v.errorCommand, '\n' ∉ c := by
  intro c hc
  cases hs : v.status with
  | pass => simp [errorCommand, hs] at hc
  | fail =>
    simp only [errorCommand, hs, Option.mem_def, Option.some.injEq] at hc
    rw [← hc]
    simp

theorem errorCommand_of_pass {v : Verdict} (h : v.status = .pass) : v.errorCommand = none := by
  rw [errorCommand, h]

theorem errorCommand_of_fail {v : Verdict} (h : v.status = .fail) :
    ∃ text, v.errorCommand = some (errorMark ++ text) ∧ '\n' ∉ text := by
  obtain ⟨text, ht⟩ : ∃ text, v.errorCommand = some (errorMark ++ text) := by
    simp only [errorCommand, h, List.append_assoc]
    exact ⟨_, rfl⟩
  exact ⟨text, ht, fun hn => v.newline_not_mem_errorCommand _ ht (List.mem_append_right _ hn)⟩

/-- The path is the only text in the summary that can begin a line with a colon. -/
theorem countLines_summary (hq : '`' ∉ mark) (v : Verdict) (path : List Char) :
    Text.countLines (':' :: mark) (v.summary path) = Text.countLaterLines (':' :: mark) path := by
  have hreport : Text.countLines (':' :: mark) ("Report: `".toList ++ path ++ "`".toList) =
      Text.countLaterLines (':' :: mark) path :=
    Text.countLines_enclosed (q := '`') (by decide) (fun _ => rfl) (by simp [hq]) (by decide) path
  have hword : '\n' ∉ v.checkWord := by
    unfold checkWord
    split <;> decide
  have hstatus : '\n' ∉ v.status.word.toList := by
    cases v.status <;> decide
  rw [summary, Text.countLines_flatMap (by simp)]
  simp only [summaryLines, List.map_cons, List.map_nil, List.sum_cons, List.sum_nil, hreport]
  rw [Text.countLines_single (a := "# Adaptive Paging Allocation Delta".toList) (by decide)]
  simp [Text.countLines_single, hword, hstatus]

theorem countLines_jsonSummary (v : Verdict) (path : List Char) :
    Text.countLines (':' :: mark) (v.jsonSummary path) = 0 := by
  refine Json.countLines_prettyObject (by decide) (by decide) (by decide) fun m hm => ?_
  rcases List.mem_cons.mp hm with rfl | hm
  · simp
  · exact v.newline_not_mem_members m hm

end Verdict

namespace Outcome

def errors : Outcome → Nat
  | .skipped _ => 0
  | .evaluated _ v => if v.status = .fail then 1 else 0

def warnings : Outcome → Nat
  | .skipped _ => 1
  | .evaluated _ _ => 0

def forged (mark : List Char) (format : Format) : Outcome → Nat
  | .skipped _ => 0
  | .evaluated report _ =>
    match format with
    | .markdown => Text.countLaterLines mark report.shown
    | .json => 0

end Outcome

@[simp] theorem countLines_line {mark : List Char} (hm : mark ≠ []) (text : List Char) :
    Text.countLines mark (line text) = Text.countLines mark text := by
  simp [line, hm]

theorem countLines_commands (v : Verdict) :
    Text.countLines errorMark ((v.errorCommand.map line).getD []) = (if v.status = .fail then 1 else 0) ∧
      Text.countLines warningMark ((v.errorCommand.map line).getD []) = 0 := by
  cases hs : v.status with
  | pass =>
    rw [Verdict.errorCommand_of_pass hs]
    exact ⟨rfl, rfl⟩
  | fail =>
    obtain ⟨text, ht, hn⟩ := Verdict.errorCommand_of_fail hs
    have hmark : '\n' ∉ errorMark := by decide
    have hline : '\n' ∉ errorMark ++ text := fun h => (List.mem_append.mp h).elim hmark hn
    rw [ht, Option.map_some, Option.getD_some, countLines_line (by decide), countLines_line (by decide),
      Text.countLines_single hline, Text.countLines_single hline]
    exact ⟨if_pos (by simp), rfl⟩

theorem Exit.countLines_evaluated (mark : List Char) (hq : '`' ∉ mark) (format : Format)
    (report : Path) (v : Verdict) :
    Text.countLines (':' :: mark) (printed format (.evaluated report v)) =
      (Outcome.evaluated report v).forged (':' :: mark) format +
        Text.countLines (':' :: mark) ((v.errorCommand.map line).getD []) := by
  cases format with
  | markdown =>
    simp only [printed, line, List.append_assoc, List.singleton_append, Text.countLines_append,
      v.countLines_summary hq]
    rfl
  | json =>
    simp only [printed, line, List.append_assoc, List.singleton_append, Text.countLines_append,
      v.countLines_jsonSummary]
    rfl

theorem Exit.countLines_printed (format : Format) (o : Outcome) :
    Text.countLines errorMark (printed format o) = o.errors + o.forged errorMark format ∧
      Text.countLines warningMark (printed format o) = o.warnings + o.forged warningMark format := by
  cases o with
  | skipped reason => cases reason <;> cases format <;> exact ⟨by decide, by decide⟩
  | evaluated report v =>
    obtain ⟨herror, hwarning⟩ := countLines_commands v
    have he := countLines_evaluated ":error::".toList (by decide) format report v
    have hw := countLines_evaluated ":warning::".toList (by decide) format report v
    constructor
    · rw [Nat.add_comm, Outcome.errors, ← herror]
      exact he
    · rw [Nat.add_comm, Outcome.warnings, ← hwarning]
      exact hw

namespace FileTree

variable {t : FileTree} {words : List String} {env : CommandLine.Environment} {now : Time}
  {request : CommandLine.Request} {thresholds : Thresholds} {outcome : Outcome}

theorem program_output (hread : CommandLine.read words env = .ok request)
    (hresolve : request.resolve t.read = .ok thresholds)
    (hrun : (t.run ⟨request.root, request.output, thresholds⟩ now).1 = .ok outcome) :
    (t.program words env now).1.output = Exit.printed request.format outcome := by
  unfold program
  rw [hread]
  simp only [hresolve]
  generalize t.run ⟨request.root, request.output, thresholds⟩ now = result at hrun
  obtain ⟨answer, t'⟩ := result
  simp only at hrun
  rw [hrun]
  rfl

/-- A run prints an error command for a failure and a warning command for a skip, and besides these exactly
the lines of such a form in the path of the report that the markdown summary shows. So it prints just the
commands of its outcome if and only if the path adds none. -/
theorem program_commands (hread : CommandLine.read words env = .ok request)
    (hresolve : request.resolve t.read = .ok thresholds)
    (hrun : (t.run ⟨request.root, request.output, thresholds⟩ now).1 = .ok outcome) :
    let output := (t.program words env now).1.output
    Text.countLines errorMark output = outcome.errors + outcome.forged errorMark request.format ∧
    Text.countLines warningMark output = outcome.warnings + outcome.forged warningMark request.format ∧
    (Text.countLines errorMark output = outcome.errors ∧
        Text.countLines warningMark output = outcome.warnings ↔
      outcome.forged errorMark request.format = 0 ∧ outcome.forged warningMark request.format = 0) := by
  intro output
  have ho : output = Exit.printed request.format outcome := program_output hread hresolve hrun
  obtain ⟨herror, hwarning⟩ := Exit.countLines_printed request.format outcome
  rw [ho, herror, hwarning]
  refine ⟨rfl, rfl, ?_⟩
  omega

def plainRequest : CommandLine.Request where
  root := .ofString CommandLine.defaultRoot
  output := .ofString CommandLine.defaultOutput
  thresholds := ⟨none, none⟩
  config := none
  format := .markdown
  debug := false

theorem read_plainRequest : CommandLine.read [] (fun _ => none) = .ok plainRequest := rfl

theorem resolve_plainRequest (read : Path → Content) : plainRequest.resolve read = .ok .default := rfl

/-- The report lies in a directory whose name goes on in a line of its own. -/
def commandInName : FileTree :=
  let name (s : String) : Name := Text.encode s.toList
  ⟨[([name "benchmarks"], .directory),
    ([name "benchmarks", name "BenchmarkDotNet.Artifacts"], .directory),
    ([name "benchmarks", name "BenchmarkDotNet.Artifacts", name "x\n::error::forged"], .directory),
    ([name "benchmarks", name "BenchmarkDotNet.Artifacts", name "x\n::error::forged",
      name "AdaptivePagingAllocationsBenchmarks-report.json"], .file completeText ⟨1, 0⟩)]⟩

def commandInPath : Path :=
  .ofString ("benchmarks/BenchmarkDotNet.Artifacts/x\n::error::forged/" ++
    "AdaptivePagingAllocationsBenchmarks-report.json")

theorem commandInName_wellFormed : commandInName.WellFormed where
  distinct := by decide
  rooted := by decide
  named := by decide
  inDirectory := by decide
  linked := by simp [commandInName]

theorem commandInName_discover :
    commandInName.discover plainRequest.root = .candidates [⟨commandInPath, ⟨1, 0⟩⟩] := by
  cbv

theorem commandInName_read : commandInName.read commandInPath = .ok completeText := by cbv

theorem commandInName_canWrite : commandInName.CanWrite plainRequest.output :=
  ⟨[Text.encode CommandLine.defaultOutput.toList], by cbv, by decide⟩

theorem commandInPath_forged : Text.countLaterLines errorMark commandInPath.shown = 1 := by
  decide +kernel

theorem completeText_passes {pair : MeasurementPair} (h : Yields (.ok completeText) pair) :
    (pair.judge .default).status = .pass := by
  have hall : (usablePair? (.ok completeText)).all
      (fun pair => decide ((pair.judge .default).status = .pass)) = true := by
    rw [completeText]
    decide +kernel
  rw [usablePair?_eq_some_iff.mpr h] at hall
  simpa using hall

theorem commandInName_run : ∃ v : Verdict, v.status = .pass ∧
    (commandInName.run ⟨plainRequest.root, plainRequest.output, .default⟩ ⟨2, 0⟩).1 =
      .ok (.evaluated commandInPath v) := by
  obtain ⟨pair, hp⟩ := completeText_usable
  refine ⟨pair.judge .default, completeText_passes hp, ?_⟩
  rw [run_of_canWrite commandInName_canWrite, Except.ok.injEq]
  have hf : commandInName.IsFirstUsable plainRequest.root ⟨commandInPath, ⟨1, 0⟩⟩ pair :=
    isFirstUsable_single commandInName_discover (by rwa [commandInName_read])
  exact (outcome_eq_evaluated_iff commandInName_wellFormed _).mpr ⟨_, pair, hf, rfl, rfl⟩

theorem commandInName_commands : ∃ v : Verdict, v.status = .pass ∧
    (Outcome.evaluated commandInPath v).forged errorMark .markdown = 1 ∧
    Text.countLines errorMark (commandInName.program [] (fun _ => none) ⟨2, 0⟩).1.output =
      (Outcome.evaluated commandInPath v).errors + 1 := by
  obtain ⟨v, hpass, hrun⟩ := commandInName_run
  have hcommands : Text.countLines errorMark (commandInName.program [] (fun _ => none) ⟨2, 0⟩).1.output =
      (Outcome.evaluated commandInPath v).errors +
        (Outcome.evaluated commandInPath v).forged errorMark .markdown :=
    (program_commands read_plainRequest (resolve_plainRequest _) hrun).1
  have hforged : (Outcome.evaluated commandInPath v).forged errorMark .markdown = 1 := commandInPath_forged
  exact ⟨v, hpass, hforged, hcommands.trans (by rw [hforged])⟩

theorem commandInName_error_without_failure : ∃ v : Verdict, v.status = .pass ∧
    (commandInName.run ⟨plainRequest.root, plainRequest.output, .default⟩ ⟨2, 0⟩).1 =
      .ok (.evaluated commandInPath v) ∧
    Text.countLines errorMark (commandInName.program [] (fun _ => none) ⟨2, 0⟩).1.output = 1 := by
  obtain ⟨v, hpass, hrun⟩ := commandInName_run
  have ho : (commandInName.program [] (fun _ => none) ⟨2, 0⟩).1.output =
      Exit.printed .markdown (.evaluated commandInPath v) := program_output read_plainRequest (resolve_plainRequest _) hrun
  have hforged : (Outcome.evaluated commandInPath v).forged errorMark .markdown = 1 := commandInPath_forged
  have herrors : (Outcome.evaluated commandInPath v).errors = 0 := by
    simp [Outcome.errors, hpass]
  have hcount := (Exit.countLines_printed .markdown (.evaluated commandInPath v)).1
  rw [← ho] at hcount
  exact ⟨v, hpass, hrun, hcount.trans (by rw [herrors, hforged])⟩

end FileTree
end PagingGate
