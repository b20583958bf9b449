import PagingGate.Proofs.CommandLine.Layers
import PagingGate.Proofs.Report.Figures
import PagingGate.Proofs.Verdict.Monotone

set_option autoImplicit false

namespace PagingGate

open Binary64

variable {fixed adaptive : Float} {t : Thresholds}

theorem exists_value?_deltaPercent {q : ℚ} {a : Extended} (hf : value? fixed = some (number q))
    (ha : value? adaptive = some a) : ∃ d, value? (deltaPercent fixed adaptive) = some d := by
  by_cases h0 : q = 0
  · rw [deltaPercent_of_zero (hf.trans (by rw [h0])) adaptive]
    exact ⟨_, value?_infinity⟩
  · have hne : ¬ (fixed == 0) = true := by
      rw [beq_iff hf value?_zero]
      exact fun h => h0 (number_injective h)
    obtain ⟨b, hb⟩ := value?_div_of_ne (value?_sub_of_number ha hf) hf h0
    rw [deltaPercent, if_neg hne]
    exact ⟨_, value?_mul_of_pos hb value?_hundred (by norm_num)⟩

theorem deltaPercent_isNaN_iff {f a : Extended} (hf : value? fixed = some f) (ha : value? adaptive = some a) :
    (deltaPercent fixed adaptive).isNaN = true ↔ fixed.isInf = true := by
  rw [isNaN_iff, isInf_iff]
  rcases eq_infinite_or_number f with ⟨s, rfl⟩ | ⟨q, rfl⟩
  · exact iff_of_true (value?_deltaPercent_of_infinite hf adaptive) ⟨s, hf⟩
  · obtain ⟨d, hd⟩ := exists_value?_deltaPercent hf ha
    refine iff_of_false (fun hnone => ?_) ?_
    · rw [hd] at hnone
      cases hnone
    · rintro ⟨s, hs⟩
      exact infinite_ne_number s q (Option.some.inj (hs.symm.trans hf))

theorem judge_passes_iff_of_isNaN (h : (deltaPercent fixed adaptive).isNaN = true) :
    (judge fixed adaptive t).status = .pass ↔ isUnderMinimum fixed adaptive t.minBytes := by
  rw [judge_passes_iff]
  refine or_iff_left fun hle => ?_
  obtain ⟨d, _, hd, _⟩ := values_of_le hle
  rw [isNaN_iff.mp h] at hd
  cases hd

theorem judge_fails_iff {d p : Extended} (hd : value? (deltaPercent fixed adaptive) = some d)
    (hp : value? t.maxPercent = some p) : (judge fixed adaptive t).status = .fail ↔
      isUnderMinimum fixed adaptive t.minBytes = false ∧ t.maxPercent < deltaPercent fixed adaptive := by
  have hstatus : (judge fixed adaptive t).status = .fail ↔ ¬ (judge fixed adaptive t).status = .pass := by
    cases (judge fixed adaptive t).status <;> decide
  rw [hstatus, judge_passes_iff, not_or, Bool.not_eq_true, le_iff hd hp, not_le, lt_iff hp hd]

theorem judge_passes_of_infinite {d : Extended} (hd : value? (deltaPercent fixed adaptive) = some d)
    (hp : t.maxPercent = 1 / 0) : (judge fixed adaptive t).status = .pass := by
  refine judge_passes_iff.mpr (Or.inr ?_)
  rw [hp, le_iff hd value?_infinity]
  exact le_top

theorem exists_entry_of_latest? {entries : List Entry} {s : Strategy} {m : Measurement}
    (h : latest? entries s = some m) :
    ∃ e ∈ entries, e.strategy = some s ∧ e.perOperation = some m.perOperation := by
  obtain ⟨before, e, after, rfl, ⟨hs, hx, _⟩, _⟩ := latest?_eq_some_iff.mp h
  exact ⟨e, List.mem_append_right before List.mem_cons_self, hs, hx⟩

/-- The delta of a report is NaN exactly if the measurement of fixed paging overflows. Such a report passes only under
the byte minimum. Any other fails exactly if its delta exceeds the threshold and the byte minimum is reached, and
never fails under an infinite threshold. -/
theorem judge_of_report {text : String} {r : Report} {pair : MeasurementPair} {layers : List ThresholdChoice}
    (hr : Report.ofJson text = .ok r) (hpair : measurementPair? r.entries = some pair)
    (ht : Thresholds.resolve layers = .ok t) :
    ∃ e ∈ r.entries, e.strategy = some .fixed ∧ e.perOperation = some pair.fixed.perOperation ∧
      ((pair.judge t).delta.isNaN = true ↔ e.Overflows) ∧
      (e.Overflows → ((pair.judge t).status = .pass ↔ (pair.judge t).underMinimum = true)) ∧
      (¬ e.Overflows →
        ((pair.judge t).status = .fail ↔
          (pair.judge t).underMinimum = false ∧ (pair.judge t).threshold < (pair.judge t).delta) ∧
        (t.maxPercent = 1 / 0 → (pair.judge t).status = .pass)) := by
  obtain ⟨hfixed, hadaptive⟩ := measurementPair?_eq_some_iff.mp hpair
  obtain ⟨e, he, hstrategy, hx⟩ := exists_entry_of_latest? hfixed
  obtain ⟨e', he', _, hx'⟩ := exists_entry_of_latest? hadaptive
  have hfinite := isFinite_of_ofJson hr
  obtain ⟨f, hf, hover⟩ := Entry.perOperation_value (hfinite e he) hx
  obtain ⟨a, ha, _⟩ := Entry.perOperation_value (hfinite e' he') hx'
  have hnan := (deltaPercent_isNaN_iff hf ha).trans hover
  refine ⟨e, he, hstrategy, hx, hnan, fun h => judge_passes_iff_of_isNaN (hnan.mpr h), fun h => ?_⟩
  obtain ⟨d, hd⟩ : ∃ d, value? (deltaPercent pair.fixed.perOperation pair.adaptive.perOperation) = some d := by
    rw [← Option.ne_none_iff_exists', ne_eq, ← isNaN_iff, hnan]
    exact h
  obtain ⟨p, hp⟩ : ∃ p, value? t.maxPercent = some p := by
    rw [← Option.ne_none_iff_exists', ne_eq, ← isNaN_iff, Bool.not_eq_true]
    exact (Thresholds.resolve_eq_ok_iff.mp ht).2 .maxPercent
  exact ⟨judge_fails_iff hd hp, judge_passes_of_infinite hd⟩

theorem exists_pair_of_read {text : String} {x y : Float}
    (h : ((Report.ofJson text).toOption.bind fun r => (measurementPair? r.entries).map fun pair =>
      (pair.fixed.perOperation, pair.adaptive.perOperation)) = some (x, y)) :
    ∃ r pair, Report.ofJson text = .ok r ∧ measurementPair? r.entries = some pair ∧
      pair.fixed.perOperation = x ∧ pair.adaptive.perOperation = y := by
  obtain ⟨r, hr, h⟩ := Option.bind_eq_some_iff.mp h
  obtain ⟨pair, hpair, h⟩ := Option.map_eq_some_iff.mp h
  exact ⟨r, pair, ofJson_of_toOption hr, hpair, (Prod.mk.inj h).1, (Prod.mk.inj h).2⟩

def adaptiveOverflow : String :=
  "\x7b\"Benchmarks\":[\x7b\"Method\":\"Fixed\",\"Statistics\":\x7b\"AllocatedB\":100\x7d\x7d," ++
    "\x7b\"Method\":\"Adaptive\",\"Statistics\":\x7b\"AllocatedBytes\":1e308,\"Operations\":0.1\x7d\x7d]\x7d"

def fixedOverflow : String :=
  "\x7b\"Benchmarks\":[\x7b\"Method\":\"Fixed\",\"Statistics\":\x7b\"AllocatedBytes\":1e308,\"Operations\":0.1\x7d\x7d," ++
    "\x7b\"Method\":\"Adaptive\",\"Statistics\":\x7b\"AllocatedB\":100\x7d\x7d]\x7d"

def unlimited : ThresholdChoice := ⟨some (1 / 0), some 0⟩

theorem unlimited_resolved : Thresholds.resolve [unlimited] = .ok ⟨1 / 0, 0⟩ := by
  rw [Thresholds.resolve_eq_ok_iff]
  refine ⟨rfl, ?_⟩
  rintro (_ | _)
  · decide +kernel
  · decide +kernel

theorem adaptiveOverflow_read :
    ((Report.ofJson adaptiveOverflow).toOption.bind fun r => (measurementPair? r.entries).map fun pair =>
      (pair.fixed.perOperation, pair.adaptive.perOperation)) = some (100, 1 / 0) := by
  decide +kernel

theorem fixedOverflow_read :
    ((Report.ofJson fixedOverflow).toOption.bind fun r => (measurementPair? r.entries).map fun pair =>
      (pair.fixed.perOperation, pair.adaptive.perOperation)) = some (1 / 0, 100) := by
  decide +kernel

theorem adaptiveOverflow_passes : ∃ r pair, Report.ofJson adaptiveOverflow = .ok r ∧
    measurementPair? r.entries = some pair ∧ Thresholds.resolve [unlimited] = .ok ⟨1 / 0, 0⟩ ∧
    pair.adaptive.perOperation.isInf = true ∧ (pair.judge ⟨1 / 0, 0⟩).delta.isNaN = false ∧
    (pair.judge ⟨1 / 0, 0⟩).status = .pass := by
  obtain ⟨r, pair, hr, hpair, hx, hy⟩ := exists_pair_of_read adaptiveOverflow_read
  obtain ⟨e, _, _, _, hnan, _, hfinite⟩ := judge_of_report hr hpair unlimited_resolved
  have hdelta : (pair.judge ⟨1 / 0, 0⟩).delta.isNaN = false := by
    rw [MeasurementPair.judge, hx, hy]
    decide +kernel
  have hover : ¬ e.Overflows := by
    rw [← hnan, hdelta]
    exact Bool.false_ne_true
  exact ⟨r, pair, hr, hpair, unlimited_resolved, by rw [hy]; decide +kernel, hdelta, (hfinite hover).2 rfl⟩

/-- A delta that is NaN fails under an infinite threshold, though it does not exceed it. -/
theorem fixedOverflow_fails : ∃ r pair, Report.ofJson fixedOverflow = .ok r ∧
    measurementPair? r.entries = some pair ∧ Thresholds.resolve [unlimited] = .ok ⟨1 / 0, 0⟩ ∧
    (pair.judge ⟨1 / 0, 0⟩).delta.isNaN = true ∧ (pair.judge ⟨1 / 0, 0⟩).status = .fail ∧
    ¬ (pair.judge ⟨1 / 0, 0⟩).threshold < (pair.judge ⟨1 / 0, 0⟩).delta := by
  obtain ⟨r, pair, hr, hpair, hx, hy⟩ := exists_pair_of_read fixedOverflow_read
  refine ⟨r, pair, hr, hpair, unlimited_resolved, ?_⟩
  rw [MeasurementPair.judge, hx, hy]
  decide +kernel

end PagingGate
