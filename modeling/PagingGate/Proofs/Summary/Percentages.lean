import PagingGate.Proofs.Decimal.Shown
import PagingGate.Proofs.Summary.Document
import PagingGate.Proofs.Verdict.Overflow

set_option autoImplicit false

namespace PagingGate

open Binary64 Decimal

namespace Verdict

def deltaError (delta threshold : List Char) : List Char :=
  "::error::Adaptive allocations exceed fixed by ".toList ++ (delta ++ ['%']) ++ " (> ".toList ++
    (threshold ++ ['%']) ++ ")".toList

theorem figures_lines (v : Verdict) : ∃ front minimum, v.figures.lines =
    front ++ [deltaLine (Decimal.fixed 2 v.delta) (Decimal.fixed 2 v.threshold), minimum, v.status.resultLine] :=
  ⟨[_, _], _, rfl⟩

/-- The summary and the error have the same two texts, which say `delta` and `threshold`. Behind the line with them
stand the two lines of the minimum and the status. -/
structure ShowsPercents (v : Verdict) (path : List Char) (delta threshold : Extended) : Prop where
  line : ∃ front minimum, (v.summary path).splitOn '\n' =
    front ++ [deltaLine (Decimal.fixed 2 v.delta) (Decimal.fixed 2 v.threshold), minimum, v.status.resultLine, []]
  command : v.status = .fail →
    v.errorCommand = some (deltaError (Decimal.fixed 2 v.delta) (Decimal.fixed 2 v.threshold))
  delta_eq : shown? (Decimal.fixed 2 v.delta) = some delta
  threshold_eq : shown? (Decimal.fixed 2 v.threshold) = some threshold

theorem showsPercents (v : Verdict) (path : List Char) {delta threshold : Extended} (hd : value? v.delta = some delta)
    (ht : value? v.threshold = some threshold) : v.ShowsPercents path (atPlaces 2 delta) (atPlaces 2 threshold) where
  line := by
    obtain ⟨front, minimum, hlines⟩ := v.figures_lines
    refine ⟨title :: [] :: ((reportLine path).splitOn '\n' ++ front), minimum, ?_⟩
    rw [splitOn_summary, hlines]
    simp only [List.cons_append, List.append_assoc, List.nil_append]
  command := fun hs => by
    rw [errorCommand, hs]
    rfl
  delta_eq := shown?_fixed 2 hd
  threshold_eq := shown?_fixed 2 ht

end Verdict

/-- A delta that fails is never shown below the threshold, and one that passes under the comparison never above it. -/
theorem MeasurementPair.shown_percents_agree (p : MeasurementPair) (t : Thresholds) (path : List Char)
    (ht : t.maxPercent.isNaN = false) (hd : (p.judge t).delta.isNaN = false) :
    ∃ delta threshold, value? (p.judge t).delta = some delta ∧ value? t.maxPercent = some threshold ∧
      (p.judge t).ShowsPercents path (atPlaces 2 delta) (atPlaces 2 threshold) ∧
      ((p.judge t).status = .fail → atPlaces 2 threshold ≤ atPlaces 2 delta) ∧
      ((p.judge t).status = .pass → (p.judge t).underMinimum = false → atPlaces 2 delta ≤ atPlaces 2 threshold) := by
  obtain ⟨threshold, hthreshold⟩ := isNaN_eq_false_iff.mp ht
  obtain ⟨delta, hdelta⟩ := isNaN_eq_false_iff.mp hd
  refine ⟨delta, threshold, hdelta, hthreshold, Verdict.showsPercents _ path hdelta hthreshold, fun hs => ?_,
    fun hs hunder => ?_⟩
  · have hlt := ((judge_fails_iff hdelta hthreshold).mp hs).2
    exact atPlaces_mono 2 ((lt_iff hthreshold hdelta).mp hlt).le
  · have hle := (judge_passes_iff.mp hs).resolve_left (Bool.eq_false_iff.mp hunder)
    exact atPlaces_mono 2 ((le_iff hdelta hthreshold).mp hle)

/-- Twenty percent and one thousandth, which fails and is shown as twenty. -/
theorem shown_percents_at_margin : ∃ delta threshold,
    (MeasurementPair.judge ⟨⟨"Fixed", 100000⟩, ⟨"Adaptive", 120001⟩⟩ .default).ShowsPercents [] delta threshold ∧
    threshold ≤ delta ∧ (20 : Float) < deltaPercent 100000 120001 ∧
    Decimal.fixed 2 (deltaPercent 100000 120001) = "20.00".toList := by
  obtain ⟨delta, threshold, _, _, hshows, hfail, _⟩ :=
    MeasurementPair.shown_percents_agree ⟨⟨"Fixed", 100000⟩, ⟨"Adaptive", 120001⟩⟩ .default [] (by decide +kernel)
      (by decide +kernel)
  exact ⟨_, _, hshows, hfail (by decide +kernel), by decide +kernel, by decide +kernel⟩

end PagingGate
