import PagingGate.Proofs.Json.Drift
import PagingGate.Proofs.Json.Records
import PagingGate.Thresholds.Reader

set_option autoImplicit false

namespace PagingGate

open Json

/-- Both members must be there. -/
def IsThresholds (v : Value) (t : Thresholds) : Prop :=
  ∃ fields a b, IsRecord ["max_delta_pct", "min_bytes"] v fields ∧ fields.lookup "max_delta_pct" = some a ∧
    fields.lookup "min_bytes" = some b ∧ IsFloat a t.maxPercent ∧ IsFloat b t.minBytes

namespace Thresholds

def slots : List (Slot ThresholdChoice) :=
  [⟨"max_delta_pct", Option Float, (·.maxPercent), fun x t => { t with maxPercent := x }, Required IsFloat⟩,
   ⟨"min_bytes", Option Float, (·.minBytes), fun x t => { t with minBytes := x }, Required IsFloat⟩]

theorem record_hasSlots : record.HasSlots slots where
  readBy :=
    .cons (Slot.isReadBy_required Reader.float_decodes) <| .cons (Slot.isReadBy_required Reader.float_decodes) .nil
  independent :=
    { distinct := by simp [slots]
      get_set := by simp [slots]
      get_other := by simp [slots]
      ext := by
        rintro ⟨_, _⟩ ⟨_, _⟩ h
        simpa [slots] using h }

theorem agrees_slots_iff {fields : List (String × Value)} {x y : Float} :
    (∀ l ∈ slots, l.Agrees record.blank ⟨some x, some y⟩ (fields.lookup l.key)) ↔
      (∃ a, fields.lookup "max_delta_pct" = some a ∧ IsFloat a x) ∧
        ∃ b, fields.lookup "min_bytes" = some b ∧ IsFloat b y := by
  simp only [slots, List.forall_mem_cons, List.not_mem_nil, false_implies, implies_true, and_true]
  exact and_congr (Slot.agrees_required rfl (by rfl) _) (Slot.agrees_required rfl (by rfl) _)

theorem record_decodes : record.reader.Decodes IsThresholds := by
  refine record_hasSlots.decodes.congr fun v t => ?_
  constructor
  · rintro ⟨fields, ⟨x, y⟩, hrecord, hagrees, hfinish⟩
    cases x with
    | none => simp [record] at hfinish
    | some x =>
      cases y with
      | none => simp [record] at hfinish
      | some y =>
        obtain rfl := Except.ok.inj hfinish
        obtain ⟨⟨a, ha, hx⟩, b, hb, hy⟩ := agrees_slots_iff.mp hagrees
        exact ⟨fields, a, b, hrecord, ha, hb, hx, hy⟩
  · rintro ⟨fields, a, b, hrecord, ha, hb, hx, hy⟩
    exact ⟨fields, ⟨some t.maxPercent, some t.minBytes⟩, hrecord, agrees_slots_iff.mpr ⟨⟨a, ha, hx⟩, b, hb, hy⟩, rfl⟩

variable {t t' : Thresholds}

theorem ofJson_of_literals {a b : Literal} (ha : numberText t.maxPercent = a.text) (hb : numberText t.minBytes = b.text)
    (hx : a.value = .ok t'.maxPercent) (hy : b.value = .ok t'.minBytes) : ofJson (String.ofList t.json) = .ok t' := by
  have hspelled : Spelled [("max_delta_pct", numberText t.maxPercent), ("min_bytes", numberText t.minBytes)]
      [("max_delta_pct", .number a), ("min_bytes", .number b)] :=
    .cons ⟨rfl, ha ▸ .number a⟩ <| .cons ⟨rfl, hb ▸ .number b⟩ .nil
  obtain ⟨ms, hnamed, hspells⟩ := spells_compactObject hspelled
  have hdocument : IsDocument (.object ms) (String.ofList t.json).toList :=
    ⟨[], _, [], isBlank_nil, hspells, isBlank_nil, by
      rw [String.toList_ofList, List.nil_append, List.append_nil]
      rfl⟩
  refine record_decodes.document_complete hdocument ⟨_, _, _, .object hnamed ?_, rfl, rfl, ⟨a, rfl, hx⟩, ⟨b, rfl, hy⟩⟩
  simp [List.count_cons]

/-- What is written for finite thresholds is read, each number within three units in the last place. -/
theorem ofJson_json (t : Thresholds) (hx : t.maxPercent.isFinite) (hy : t.minBytes.isFinite) :
    ∃ (a b : Literal) (t' : Thresholds),
      t.json = compactObject [("max_delta_pct", a.text), ("min_bytes", b.text)] ∧
      ofJson (String.ofList t.json) = .ok t' ∧
      a.Rereads t.maxPercent t'.maxPercent ∧ b.Rereads t.minBytes t'.minBytes := by
  obtain ⟨_, _, _, hx⟩ := Decimal.exists_exact hx
  obtain ⟨_, _, _, hy⟩ := Decimal.exists_exact hy
  obtain ⟨a, ha, hshows⟩ := numberText_literal hx
  obtain ⟨b, hb, hshows'⟩ := numberText_literal hy
  obtain ⟨x, hxvalue, hxreads⟩ := hshows.rereads hx
  obtain ⟨y, hyvalue, hyreads⟩ := hshows'.rereads hy
  refine ⟨a, b, ⟨x, y⟩, ?_, ofJson_of_literals ha hb hxvalue hyvalue, hxreads, hyreads⟩
  rw [json, ha, hb]

end Thresholds

def drifting : Thresholds := ⟨20, 9007199254740991⟩

theorem drifting_read : Thresholds.ofJson (String.ofList drifting.json) = .ok ⟨20, 9007199254740990⟩ := by
  have hread : ((Thresholds.ofJson (String.ofList drifting.json)).toOption.any fun t =>
      decide (t.maxPercent = 20) && decide (t.minBytes = 9007199254740990)) = true := by
    decide +kernel
  cases h : Thresholds.ofJson (String.ofList drifting.json) with
  | error e => simp [h, Except.toOption] at hread
  | ok t =>
    obtain ⟨x, y⟩ := t
    simp only [h, Except.toOption, Option.any_some, Bool.and_eq_true, decide_eq_true_eq] at hread
    obtain ⟨rfl, rfl⟩ := hread
    rfl

theorem not_all_read_unchanged : ¬ ∀ t : Thresholds, t.maxPercent.isFinite → t.minBytes.isFinite →
    Thresholds.ofJson (String.ofList t.json) = .ok t := by
  intro h
  have hsame := h drifting (by decide +kernel) (by decide +kernel)
  rw [drifting_read, Except.ok.injEq] at hsame
  have hne : (9007199254740990 : Float) ≠ 9007199254740991 := by decide +kernel
  exact hne (congrArg Thresholds.minBytes hsame)

theorem drifting_near : ∃ t', Thresholds.ofJson (String.ofList drifting.json) = .ok t' ∧
    |Binary64.rational t'.minBytes - Binary64.rational drifting.minBytes| ≤
      3 * 2 ^ Binary64.grid (Binary64.rational drifting.minBytes) := by
  obtain ⟨a, b, t', _, hread, _, hnear⟩ :=
    Thresholds.ofJson_json drifting (by decide +kernel) (by decide +kernel)
  exact ⟨t', hread, hnear.near⟩

end PagingGate
