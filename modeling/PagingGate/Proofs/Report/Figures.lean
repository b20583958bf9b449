import PagingGate.Proofs.Json.Finite
import PagingGate.Proofs.Report.Decoding
import PagingGate.Proofs.Report.Pair

set_option autoImplicit false

namespace PagingGate

open Binary64 Json

structure Statistics.IsFinite (s : Statistics) : Prop where
  allocatedBytes : ∀ x ∈ s.allocatedBytes, x.isFinite
  operations : ∀ x ∈ s.operations, x.isFinite
  allocatedPerOperation : ∀ x ∈ s.allocatedPerOperation, x.isFinite

theorem forall_mem_of_optional {α : Type} {Fits : Value → α → Prop} {P : α → Prop} (hP : ∀ v a, Fits v a → P a)
    {field : Option Value} {o : Option α} (h : Optional Fits field o) : ∀ a ∈ o, P a := by
  cases field with
  | none =>
    obtain rfl : o = none := h
    exact fun a ha => (nomatch ha)
  | some v =>
    cases h with
    | null => exact fun a ha => (nomatch ha)
    | value hfits =>
      intro a ha
      rw [← Option.some.inj ha]
      exact hP v _ hfits

theorem isFinite_of_isFloat {v : Value} {x : Float} (h : IsFloat v x) : x.isFinite := by
  obtain ⟨n, _, hn⟩ := h
  exact Literal.isFinite_of_value hn

theorem IsStatistics.isFinite {v : Value} {s : Statistics} (h : IsStatistics v s) : s.IsFinite := by
  obtain ⟨fields, _, hbytes, hoperations, hfigure⟩ := h
  have hfinite : ∀ v x, IsFloat v x → x.isFinite := fun _ _ => isFinite_of_isFloat
  exact ⟨forall_mem_of_optional hfinite hbytes, forall_mem_of_optional hfinite hoperations,
    forall_mem_of_optional hfinite hfigure⟩

theorem IsEntry.isFinite {v : Value} {e : Entry} (h : IsEntry v e) : ∀ s ∈ e.statistics, s.IsFinite := by
  obtain ⟨fields, _, _, _, hstatistics⟩ := h
  exact forall_mem_of_optional (fun _ _ hs => hs.isFinite) hstatistics

theorem isFinite_of_ofJson {text : String} {r : Report} (h : Report.ofJson text = .ok r) :
    ∀ e ∈ r.entries, ∀ s ∈ e.statistics, s.IsFinite := by
  obtain ⟨v, _, hv⟩ := Report.record_decodes.document_sound h
  obtain ⟨fields, benchmarks, _, hlookup, vs, rfl, hentries⟩ := hv
  generalize r.entries = entries at hentries
  clear hlookup
  induction hentries with
  | nil => exact fun e he => (nomatch he)
  | cons hentry _ ih => exact List.forall_mem_cons.mpr ⟨hentry.isFinite, ih⟩

/-- The total, divided by the count of operations, is too large for a finite number. -/
def Statistics.Overflows (s : Statistics) : Prop :=
  ∃ total n, s.allocatedBytes = some total ∧ s.operations = some n ∧ rational n ≠ 0 ∧ |rational n| < 1 ∧
    limit ≤ |rounded (rational total / rational n)|

def Entry.Overflows (e : Entry) : Prop := ∃ s ∈ e.statistics, s.Overflows

namespace Statistics

variable {s : Statistics} {x : Float}

theorem operationCount_cases (h : s.IsFinite) :
    (value? s.operationCount = some (number 1) ∧ ∀ n, s.operations = some n → rational n = 0) ∨
    ∃ n, s.operations = some n ∧ rational n ≠ 0 ∧ value? s.operationCount = some (number (rational n)) := by
  unfold operationCount
  cases ho : s.operations with
  | none => exact Or.inl ⟨value?_one, fun n hn => (nomatch hn)⟩
  | some n =>
    have hvalue := value?_of_isFinite (h.operations n ho)
    have hzero := beq_iff hvalue value?_zero
    dsimp only
    split
    · rename_i heq
      refine Or.inl ⟨value?_one, fun m hm => ?_⟩
      rw [← Option.some.inj hm]
      exact number_injective (hzero.mp heq)
    · rename_i hne
      rw [hzero] at hne
      exact Or.inr ⟨n, rfl, fun h0 => hne (by rw [h0]), hvalue⟩

theorem perOperation_value (h : s.IsFinite) (hx : s.perOperation = some x) :
    ∃ a, value? x = some a ∧ (x.isInf = true ↔ s.Overflows) := by
  unfold perOperation at hx
  cases hbytes : s.allocatedBytes with
  | none =>
    rw [hbytes] at hx
    have hvalue := value?_of_isFinite (h.allocatedPerOperation x hx)
    refine ⟨_, hvalue, iff_of_false (by simp [isInf_of_number hvalue]) ?_⟩
    rintro ⟨total, n, htotal, _⟩
    rw [hbytes] at htotal
    cases htotal
  | some total =>
    rw [hbytes] at hx
    obtain rfl := Option.some.inj hx
    have htotal := value?_of_isFinite (h.allocatedBytes total hbytes)
    rcases operationCount_cases h with ⟨hcount, hnone⟩ | ⟨n, hn, hne, hcount⟩
    · have hvalue := value?_div htotal hcount one_ne_zero
      rw [div_one] at hvalue
      refine ⟨_, hvalue, iff_of_false ?_ ?_⟩
      · rw [isInf_of_nearest hvalue, rounded_of_isPoint (isPoint_rational total), not_le]
        exact abs_rational_lt_limit total
      · rintro ⟨_, n, _, hn, hne, _⟩
        exact hne (hnone n hn)
    · have hvalue := value?_div htotal hcount hne
      refine ⟨_, hvalue, (isInf_of_nearest hvalue).trans ⟨fun hlimit => ?_, ?_⟩⟩
      · have hsmall : |rational n| < 1 := by
          by_contra hlarge
          exact absurd hlimit (not_le.mpr (rounded_div_lt_limit total (not_lt.mp hlarge)))
        exact ⟨total, n, hbytes, hn, hne, hsmall, hlimit⟩
      · rintro ⟨total', n', htotal', hn', _, _, hlimit⟩
        rw [hbytes] at htotal'
        rw [hn] at hn'
        rwa [Option.some.inj htotal', Option.some.inj hn']

/-- A total overflows only over a part of an operation. -/
theorem Overflows.operations_small (h : s.IsFinite) (hover : s.Overflows) :
    s.allocatedBytes.isSome ∧ ∃ n ∈ s.operations, (n == 0) = false ∧ n.abs < 1 := by
  obtain ⟨total, n, htotal, hn, hne, hsmall, _⟩ := hover
  have hvalue := value?_of_isFinite (h.operations n hn)
  refine ⟨Option.isSome_of_eq_some htotal, n, hn, ?_, ?_⟩
  · rw [← Bool.not_eq_true, beq_iff hvalue value?_zero]
    exact fun h0 => hne (number_injective h0)
  · exact (lt_iff (value?_abs hvalue) value?_one).mpr (number_lt_number.mpr hsmall)

theorem perOperation_eq_none_iff :
    s.perOperation = none ↔ s.allocatedBytes = none ∧ s.allocatedPerOperation = none := by
  unfold perOperation
  cases hbytes : s.allocatedBytes with
  | none => exact (and_iff_right rfl).symm
  | some total => exact iff_of_false (fun h => (nomatch h)) (fun h => (nomatch h.1))

end Statistics

/-- The measurement of an entry of a report has a value, and is infinite exactly if its total overflows. -/
theorem Entry.perOperation_value {e : Entry} {x : Float} (h : ∀ s ∈ e.statistics, s.IsFinite)
    (hx : e.perOperation = some x) : ∃ a, value? x = some a ∧ (x.isInf = true ↔ e.Overflows) := by
  obtain ⟨s, hs, hx⟩ := Option.bind_eq_some_iff.mp hx
  obtain ⟨a, ha, hinf⟩ := Statistics.perOperation_value (h s hs) hx
  refine ⟨a, ha, hinf.trans ⟨fun hover => ⟨s, hs, hover⟩, ?_⟩⟩
  rintro ⟨s', hs', hover⟩
  rwa [Option.some.inj (hs.symm.trans hs')]

theorem Entry.perOperation_eq_none_iff {e : Entry} : e.perOperation = none ↔ e.statistics = none ∨
    ∃ s ∈ e.statistics, s.allocatedBytes = none ∧ s.allocatedPerOperation = none := by
  unfold perOperation
  cases e.statistics with
  | none => exact iff_of_true rfl (Or.inl rfl)
  | some s =>
    refine Statistics.perOperation_eq_none_iff.trans ⟨fun h => Or.inr ⟨s, rfl, h⟩, ?_⟩
    rintro (hnone | ⟨s', hs', h⟩)
    · cases hnone
    · rwa [Option.some.inj hs']

/-- All numbers of a report are finite. An entry has no measurement exactly if it has no statistics, or neither a total
nor a figure per operation. A measurement is not NaN. It is infinite exactly if a total overflows, and that total is
divided by a count of operations that is not zero and whose magnitude is below one. -/
theorem figures_of_report {text : String} {r : Report} (h : Report.ofJson text = .ok r) : ∀ e ∈ r.entries,
    (∀ s ∈ e.statistics, s.IsFinite) ∧
    (e.perOperation = none ↔ e.statistics = none ∨
      ∃ s ∈ e.statistics, s.allocatedBytes = none ∧ s.allocatedPerOperation = none) ∧
    ∀ x ∈ e.perOperation, x.isNaN = false ∧ (x.isInf = true ↔ e.Overflows) ∧
      (x.isInf = true → ∃ s ∈ e.statistics, s.allocatedBytes.isSome ∧
        ∃ n ∈ s.operations, (n == 0) = false ∧ n.abs < 1) := by
  intro e he
  have hfinite := isFinite_of_ofJson h e he
  refine ⟨hfinite, Entry.perOperation_eq_none_iff, fun x hx => ?_⟩
  obtain ⟨a, ha, hinf⟩ := Entry.perOperation_value hfinite hx
  refine ⟨isNaN_eq_false_iff.mpr ⟨a, ha⟩, hinf, fun hx => ?_⟩
  obtain ⟨s, hs, hover⟩ := hinf.mp hx
  exact ⟨s, hs, hover.operations_small (hfinite s hs)⟩

/-- No statistics, no figure, digits and exponents beyond what is gathered, both zeros and half an operation. -/
def extremes : String :=
  "\x7b\"Benchmarks\":[\x7b\x7d,[null,null,[null,4,null]],[null,null,[-123456789012345678901234567890,-0,null]]," ++
    "[null,null,[0,1e-99999999999,null]],\x7b\"Statistics\":[1e308,-0.5,null]\x7d]\x7d"

theorem ofJson_of_toOption {text : String} {r : Report} (h : (Report.ofJson text).toOption = some r) :
    Report.ofJson text = .ok r := by
  cases hread : Report.ofJson text with
  | error fault =>
    rw [hread] at h
    cases h
  | ok r' =>
    rw [hread] at h
    exact congrArg Except.ok (Option.some.inj h)

theorem extremes_read : (Report.ofJson extremes).toOption.map (·.entries.map Entry.perOperation) =
    some [none, none, some (-1.234567890123456789e29), some 0, some (-1 / 0)] := by
  decide +kernel

theorem extremes_figures : ∃ r, Report.ofJson extremes = .ok r ∧
    r.entries.map Entry.perOperation = [none, none, some (-1.234567890123456789e29), some 0, some (-1 / 0)] ∧
    (∀ e ∈ r.entries, ∀ s ∈ e.statistics, s.IsFinite) ∧
    ∃ e ∈ r.entries, e.perOperation = some (-1 / 0) ∧ e.Overflows ∧ ∃ s ∈ e.statistics, s.allocatedBytes.isSome ∧
      ∃ n ∈ s.operations, (n == 0) = false ∧ n.abs < 1 := by
  obtain ⟨r, hr, hfigures⟩ := Option.map_eq_some_iff.mp extremes_read
  have hread := ofJson_of_toOption hr
  have hlast : some (-1 / 0) ∈ r.entries.map Entry.perOperation := by
    rw [hfigures]
    simp
  obtain ⟨e, he, hx⟩ := List.mem_map.mp hlast
  obtain ⟨_, _, hvalue⟩ := figures_of_report hread e he
  obtain ⟨_, hover, hpart⟩ := hvalue (-1 / 0) hx
  have hinf : (-1 / 0 : Float).isInf = true := by decide +kernel
  exact ⟨r, hread, hfigures, fun e he => (figures_of_report hread e he).1, e, he, hx, hover.mp hinf, hpart hinf⟩

end PagingGate
