import PagingGate.Selection
import PagingGate.Summary

set_option autoImplicit false

namespace PagingGate

inductive SkipReason where
  | rootMissing
  | noReports
  | noMeasurements
  deriving DecidableEq, Repr

def SkipReason.message : SkipReason → String
  | .rootMissing => "Artifacts root not found; skipping allocation check"
  | .noReports => "No allocation benchmark JSON reports found; skipping"
  | .noMeasurements => "Could not extract allocation metrics; skipping"

inductive Outcome where
  | skipped (reason : SkipReason)
  | evaluated (report : Path) (verdict : Verdict)

namespace Outcome

def exitStatus : Outcome → Nat
  | .skipped _ => 0
  | .evaluated _ v =>
    match v.status with
    | .pass => 0
    | .fail => 1

def summary? : Outcome → Option (List Char)
  | .skipped _ => none
  | .evaluated report v => some (v.summary report.shown)

def ofDiscovery (found : Discovery) (read : Path → Content) (t : Thresholds) : Outcome :=
  match found with
  | .rootMissing => .skipped .rootMissing
  | .noReports => .skipped .noReports
  | .candidates _ =>
    match firstUsable? read found.paths with
    | none => .skipped .noMeasurements
    | some (report, pair) => .evaluated report (pair.judge t)

end Outcome

structure GateOptions where
  root : Path
  output : Path
  thresholds : Thresholds

def writeFailure (output : Path) : List Char := "Failed to write ".toList ++ output.shown

namespace FileTree

def outcome (t : FileTree) (o : GateOptions) : Outcome :=
  .ofDiscovery (t.discover o.root) t.read o.thresholds

def run (t : FileTree) (o : GateOptions) (now : Time) : Except FileFault Outcome × FileTree :=
  let outcome := t.outcome o
  match outcome.summary? with
  | none => (.ok outcome, t)
  | some summary =>
    match t.write o.output (Text.encode summary) now with
    | .ok t => (.ok outcome, t)
    | .error e => (.error e, t)

end FileTree
end PagingGate
