import Mathlib.Data.List.Basic
import PagingGate.Report

set_option autoImplicit false

namespace PagingGate

namespace Entry

/-- The measurement that an entry gives for a strategy: it must be of that strategy and have a value. -/
def measurement? (e : Entry) (s : Strategy) : Option Measurement :=
  if e.strategy = some s then e.perOperation.map (⟨e.label, ·⟩) else none

/-- An entry counts if it has a strategy and a value. -/
def counts (e : Entry) : Bool := e.strategy.isSome && e.perOperation.isSome

variable {e : Entry} {s : Strategy} {m : Measurement}

theorem measurement?_eq_some_iff : e.measurement? s = some m ↔
    e.strategy = some s ∧ e.perOperation = some m.perOperation ∧ e.label = m.method := by
  unfold measurement?
  by_cases hs : e.strategy = some s
  · rw [if_pos hs, Option.map_eq_some_iff]
    constructor
    · rintro ⟨x, hx, rfl⟩
      exact ⟨hs, hx, rfl⟩
    · rintro ⟨_, hx, hm⟩
      exact ⟨m.perOperation, hx, by rw [hm]⟩
  · rw [if_neg hs]
    exact ⟨fun h => (nomatch h), fun h => absurd h.1 hs⟩

theorem measurement?_eq_none_iff : e.measurement? s = none ↔ (e.strategy = some s → e.perOperation = none) := by
  unfold measurement?
  by_cases hs : e.strategy = some s
  · rw [if_pos hs, Option.map_eq_none_iff]
    exact ⟨fun h _ => h, fun h => h hs⟩
  · rw [if_neg hs]
    exact ⟨fun _ h => absurd h hs, fun _ => rfl⟩

theorem counts_of_measurement? (h : (e.measurement? s).isSome = true) : e.counts = true := by
  obtain ⟨m, hm⟩ := Option.isSome_iff_exists.mp h
  obtain ⟨hs, hx, _⟩ := measurement?_eq_some_iff.mp hm
  rw [counts, hs, hx]
  rfl

theorem strategy_of_measurement? (h : (e.measurement? s).isSome = true) : e.strategy = some s := by
  obtain ⟨m, hm⟩ := Option.isSome_iff_exists.mp h
  exact (measurement?_eq_some_iff.mp hm).1

end Entry

def latest? (entries : List Entry) (s : Strategy) : Option Measurement :=
  entries.reverse.findSome? (·.measurement? s)

/-- The last entry of a strategy that has a value gives the measurement. -/
def IsLast (entries : List Entry) (s : Strategy) (m : Measurement) : Prop :=
  ∃ before e after, entries = before ++ e :: after ∧
    (e.strategy = some s ∧ e.perOperation = some m.perOperation ∧ e.label = m.method) ∧
    ∀ x ∈ after, x.strategy = some s → x.perOperation = none

section
variable {entries : List Entry} {s : Strategy} {m : Measurement}

theorem latest?_eq_some_iff : latest? entries s = some m ↔ IsLast entries s m := by
  rw [latest?, List.findSome?_eq_some_iff]
  constructor
  · rintro ⟨after, e, before, hentries, hm, hafter⟩
    refine ⟨before.reverse, e, after.reverse, ?_, Entry.measurement?_eq_some_iff.mp hm, fun x hx => ?_⟩
    · rw [← List.reverse_reverse entries, hentries]
      simp
    · exact Entry.measurement?_eq_none_iff.mp (hafter x (List.mem_reverse.mp hx))
  · rintro ⟨before, e, after, rfl, hm, hafter⟩
    refine ⟨after.reverse, e, before.reverse, by simp, Entry.measurement?_eq_some_iff.mpr hm, fun x hx => ?_⟩
    exact Entry.measurement?_eq_none_iff.mpr (hafter x (List.mem_reverse.mp hx))

theorem latest?_isSome_iff :
    (latest? entries s).isSome ↔ ∃ e ∈ entries, e.strategy = some s ∧ e.perOperation.isSome := by
  rw [latest?, List.findSome?_isSome_iff]
  refine exists_congr fun e => ?_
  rw [List.mem_reverse, Entry.measurement?]
  by_cases hs : e.strategy = some s
  · rw [if_pos hs, Option.isSome_map]
    simp [hs]
  · simp [hs]

theorem findSome?_filter {p : Entry → Bool} (h : ∀ e : Entry, (e.measurement? s).isSome = true → p e = true)
    (entries : List Entry) :
    (entries.filter p).findSome? (·.measurement? s) = entries.findSome? (·.measurement? s) := by
  induction entries with
  | nil => rfl
  | cons e entries ih =>
    by_cases hp : p e = true
    · rw [List.filter_cons_of_pos hp, List.findSome?_cons, List.findSome?_cons, ih]
    · have hnone : e.measurement? s = none := by
        rw [← Option.not_isSome_iff_eq_none]
        exact fun hm => hp (h e hm)
      rw [List.filter_cons_of_neg hp, List.findSome?_cons, hnone, ih]

theorem latest?_filter {p : Entry → Bool} (h : ∀ e : Entry, (e.measurement? s).isSome = true → p e = true)
    (entries : List Entry) : latest? (entries.filter p) s = latest? entries s := by
  rw [latest?, latest?, ← List.filter_reverse, findSome?_filter h]

end

namespace Findings

def of (f : Findings) : Strategy → Option Measurement
  | .fixed => f.fixed
  | .adaptive => f.adaptive

theorem of_note (f : Findings) (e : Entry) (s : Strategy) : (f.note e).of s = (e.measurement? s).or (f.of s) := by
  unfold note Entry.measurement?
  cases hx : e.perOperation with
  | none => simp
  | some x =>
    cases he : e.strategy with
    | none => simp
    | some t => cases t <;> cases s <;> simp [of]

theorem of_foldl (f : Findings) (entries : List Entry) (s : Strategy) :
    (entries.foldl note f).of s = (latest? entries s).or (f.of s) := by
  induction entries generalizing f with
  | nil => rfl
  | cons e entries ih =>
    have hstep : latest? (e :: entries) s = (latest? entries s).or (e.measurement? s) := by
      simp [latest?, List.findSome?_append]
    rw [List.foldl_cons, ih, of_note, hstep, Option.or_assoc]

theorem pair?_eq_some_iff {f : Findings} {pair : MeasurementPair} :
    f.pair? = some pair ↔ f.of .fixed = some pair.fixed ∧ f.of .adaptive = some pair.adaptive := by
  obtain ⟨fixed, adaptive⟩ := f
  obtain ⟨fixed', adaptive'⟩ := pair
  cases fixed <;> cases adaptive <;> simp [pair?, of]

end Findings

theorem measurementPair?_eq_some_iff {entries : List Entry} {pair : MeasurementPair} :
    measurementPair? entries = some pair ↔
      latest? entries .fixed = some pair.fixed ∧ latest? entries .adaptive = some pair.adaptive := by
  have hempty : ∀ s, (⟨none, none⟩ : Findings).of s = none := by
    rintro (_ | _) <;> rfl
  rw [measurementPair?, Findings.pair?_eq_some_iff, Findings.of_foldl, Findings.of_foldl, hempty, hempty,
    Option.or_none, Option.or_none]

theorem measurementPair?_isSome_iff {entries : List Entry} :
    (measurementPair? entries).isSome ↔ ∀ s, (latest? entries s).isSome := by
  simp only [Option.isSome_iff_exists, measurementPair?_eq_some_iff]
  constructor
  · rintro ⟨pair, hfixed, hadaptive⟩ (_ | _)
    · exact ⟨_, hfixed⟩
    · exact ⟨_, hadaptive⟩
  · intro h
    obtain ⟨fixed, hfixed⟩ := h .fixed
    obtain ⟨adaptive, hadaptive⟩ := h .adaptive
    exact ⟨⟨fixed, adaptive⟩, hfixed, hadaptive⟩

theorem measurementPair?_congr {entries other : List Entry} (h : ∀ s, latest? other s = latest? entries s) :
    measurementPair? other = measurementPair? entries := by
  refine Option.ext fun pair => ?_
  rw [measurementPair?_eq_some_iff, measurementPair?_eq_some_iff, h, h]

/-- A report has a pair exactly if each strategy has an entry with a value, and then the last such entries give it.
Lists with the same entries that count have the same pair, and so have lists whose entries stand in the same order
within each strategy. -/
theorem pair_of_last_entries (entries : List Entry) :
    ((measurementPair? entries).isSome ↔ ∀ s, ∃ e ∈ entries, e.strategy = some s ∧ e.perOperation.isSome) ∧
    (∀ pair, measurementPair? entries = some pair ↔
      IsLast entries .fixed pair.fixed ∧ IsLast entries .adaptive pair.adaptive) ∧
    (∀ other : List Entry, other.filter Entry.counts = entries.filter Entry.counts →
      measurementPair? other = measurementPair? entries) ∧
    (∀ other : List Entry,
      (∀ s, other.filter (·.strategy = some s) = entries.filter (·.strategy = some s)) →
        measurementPair? other = measurementPair? entries) := by
  refine ⟨?_, fun pair => ?_, fun other h => ?_, fun other h => ?_⟩
  · rw [measurementPair?_isSome_iff]
    exact forall_congr' fun s => latest?_isSome_iff
  · rw [measurementPair?_eq_some_iff, latest?_eq_some_iff, latest?_eq_some_iff]
  · refine measurementPair?_congr fun s => ?_
    have hcounts := @latest?_filter s Entry.counts fun _ => Entry.counts_of_measurement?
    rw [← hcounts other, h, hcounts]
  · refine measurementPair?_congr fun s => ?_
    have hstrategy := @latest?_filter s (·.strategy = some s)
      fun _ hm => decide_eq_true (Entry.strategy_of_measurement? hm)
    rw [← hstrategy other, h, hstrategy]

def earlyFixed : Entry := ⟨some "FixedPaging", none, some ⟨some 8192, some 4, none⟩⟩
def lateFixed : Entry := ⟨some "", some "Paging.FIXED: Job", some ⟨none, none, some 2050⟩⟩
def onlyAdaptive : Entry := ⟨some "AdaptivePaging", none, some ⟨some 10240, some 0, some 7⟩⟩
def valuelessFixed : Entry := ⟨some "FixedPaging", none, some ⟨none, some 4, none⟩⟩
def unrelated : Entry := ⟨some "Baseline", none, some ⟨none, none, some 1⟩⟩

theorem strategies_of_mixed : earlyFixed.strategy = some .fixed ∧ lateFixed.strategy = some .fixed ∧
    onlyAdaptive.strategy = some .adaptive ∧ valuelessFixed.strategy = some .fixed ∧ unrelated.strategy = none := by
  decide +kernel

theorem mixed_strategies_pair :
    measurementPair? [earlyFixed, lateFixed, onlyAdaptive] =
      some ⟨⟨"Paging.FIXED: Job", 2050⟩, ⟨"AdaptivePaging", 10240 / 1⟩⟩ ∧
    [earlyFixed, unrelated, lateFixed, onlyAdaptive, valuelessFixed].filter Entry.counts =
      [earlyFixed, lateFixed, onlyAdaptive].filter Entry.counts ∧
    measurementPair? [earlyFixed, unrelated, lateFixed, onlyAdaptive, valuelessFixed] =
      measurementPair? [earlyFixed, lateFixed, onlyAdaptive] ∧
    (∀ s, [earlyFixed, onlyAdaptive, lateFixed].filter (·.strategy = some s) =
      [earlyFixed, lateFixed, onlyAdaptive].filter (·.strategy = some s)) ∧
    measurementPair? [earlyFixed, onlyAdaptive, lateFixed] =
      measurementPair? [earlyFixed, lateFixed, onlyAdaptive] := by
  obtain ⟨he, hl, ho, hv, hu⟩ := strategies_of_mixed
  have hcounts : [earlyFixed, unrelated, lateFixed, onlyAdaptive, valuelessFixed].filter Entry.counts =
      [earlyFixed, lateFixed, onlyAdaptive].filter Entry.counts := by
    simp only [List.filter, Entry.counts, he, hl, ho, hv, hu]
    rfl
  have hstrategy : ∀ s, [earlyFixed, onlyAdaptive, lateFixed].filter (·.strategy = some s) =
      [earlyFixed, lateFixed, onlyAdaptive].filter (·.strategy = some s) := by
    intro s
    simp only [List.filter, he, hl, ho]
    cases s <;> rfl
  obtain ⟨_, hpair, hsame, hmixed⟩ := pair_of_last_entries [earlyFixed, lateFixed, onlyAdaptive]
  refine ⟨(hpair _).mpr ⟨?_, ?_⟩, hcounts, hsame _ hcounts, hstrategy, hmixed _ hstrategy⟩
  · exact ⟨[earlyFixed], lateFixed, [onlyAdaptive], rfl, ⟨hl, rfl, rfl⟩, by simp [ho]⟩
  · exact ⟨[earlyFixed, lateFixed], onlyAdaptive, [], rfl, ⟨ho, rfl, rfl⟩, by simp⟩

end PagingGate
