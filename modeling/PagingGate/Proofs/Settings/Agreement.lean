import PagingGate.Proofs.Settings.Spelling
import PagingGate.Proofs.Verdict.Monotone

set_option autoImplicit false

namespace PagingGate

open Binary64
open Decimal (readFloat?)
open Toml (IsToken Value integer? float? scalar?)

section
variable {t t' : Thresholds} (h : ∀ k : Knob, value? (k.value t) = value? (k.value t'))
include h

theorem judge_status_congr (fixed adaptive : Float) : (judge fixed adaptive t).status = (judge fixed adaptive t').status := by
  have hunder : isUnderMinimum fixed adaptive t.minBytes = isUnderMinimum fixed adaptive t'.minBytes := by
    have hlt : ∀ {x}, x < t.minBytes ↔ x < t'.minBytes := lt_congr (h .minBytes)
    rw [Bool.eq_iff_iff, isUnderMinimum_iff, isUnderMinimum_iff, hlt, hlt]
  have hdelta : deltaPercent fixed adaptive ≤ t.maxPercent ↔ deltaPercent fixed adaptive ≤ t'.maxPercent :=
    le_congr (h .maxPercent)
  simp only [judge, hunder, hdelta]

theorem Thresholds.validate_congr : t.validate = t'.validate := by
  have hmax : t.maxPercent.isNaN = t'.maxPercent.isNaN := isNaN_congr (h .maxPercent)
  have hmin : t.minBytes.isNaN = t'.minBytes.isNaN := isNaN_congr (h .minBytes)
  rw [validate, validate, hmax, hmin]

end

theorem Thresholds.resolve_congr {layers layers' : List ThresholdChoice}
    (h : ∀ k : Knob, value? (k.value (select layers)) = value? (k.value (select layers'))) (pair : MeasurementPair) :
    (resolve layers).map (fun t => (pair.judge t).status) = (resolve layers').map fun t => (pair.judge t).status := by
  have hdef : ∀ layers, (resolve layers).map (fun t => (pair.judge t).status) =
      (select layers).validate.map fun _ => (pair.judge (select layers)).status := by
    intro layers
    rw [resolve]
    cases (select layers).validate <;> rfl
  have hstatus : (pair.judge (select layers)).status = (pair.judge (select layers')).status := judge_status_congr h _ _
  rw [hdef, hdef, validate_congr h, hstatus]

namespace Settings

variable {token : List Char} {v : Value} {x y : Float}

theorem value?_of_readFloat? (hv : scalar? token = some v) (hy : number v = .ok y) (hx : readFloat? token = some x) :
    value? x = value? y := by
  have hscalar : ((integer? token).map Value.integer).or ((float? token).map Value.float) = some v ∨
      ∀ z, number v ≠ .ok z := by
    unfold scalar? at hv
    split_ifs at hv
    · cases hv
      exact .inr fun z h => nomatch h
    · cases hv
      exact .inr fun z h => nomatch h
    · cases hv
      exact .inr fun z h => nomatch h
    · exact .inl hv
  rcases Option.or_eq_some_iff.mp (hscalar.resolve_right fun h => h y hy) with h | ⟨_, h⟩
  · obtain ⟨n, hn, rfl⟩ := Option.map_eq_some_iff.mp h
    rw [Toml.value?_of_integer? hn hx, ← Except.ok.inj hy, Decimal.value?_ofInt]
  · obtain ⟨z, hz, rfl⟩ := Option.map_eq_some_iff.mp h
    rw [Toml.value?_of_float? hz hx, ← Except.ok.inj hy]

theorem isToken_of_readFloat? (h : readFloat? token = some x) : IsToken token := by
  obtain ⟨hne, hchars⟩ := Decimal.numeralChars_of_readFloat? h
  refine ⟨hne, fun c hc => ?_⟩
  have hnumeral := hchars c hc
  simp only [Decimal.isNumeralChar, Bool.or_eq_true, decide_eq_true_eq] at hnumeral
  simp only [Toml.isScalarChar, Bool.or_eq_true, decide_eq_true_eq]
  tauto

def plainText (k : Knob) (text : String) : String := "[thresholds]\n" ++ k.settingsKey ++ " = " ++ text

theorem spells_plainText (k : Knob) {text : String} (h : IsToken text.toList) :
    Spells (fun j => if j = k then some text.toList else none) (plainText k text).toList := by
  have hheader : Toml.SpellsRow (.header ⟨[], thresholdsKey⟩) _ :=
    .header Toml.IsSpaces.nil (.one bare_thresholdsKey) Toml.IsSpaces.nil
  have hpair : Toml.SpellsRow (.pair ⟨[], k.settingsKey⟩ text.toList) (k.settingsKey ++ " = " ++ text).toList := by
    have hspelled : Toml.SpellsPair ⟨[], k.settingsKey⟩ text.toList _ :=
      .mk (.one (bare_settingsKey k)) Toml.IsSpaces.blank Toml.IsSpaces.blank
    refine .pair h ?_
    simpa using hspelled
  have hremark : Toml.IsRemark [] := .none .nil
  refine ⟨[(k, text.toList)], _, by simp, ?_, .header, .plain ?_⟩
  · intro j token
    by_cases hj : j = k <;> simp [hj, eq_comm]
  · have hlast := Toml.SpellsRows.last Toml.IsSpaces.nil hpair hremark
    have hrows := Toml.SpellsRows.row Toml.IsSpaces.nil hheader hremark .lineFeed hlast
    simpa [plainText, thresholdsKey] using hrows

/-- What is accepted on the command line for a threshold can stand behind its key. If a settings file with it is accepted,
it is the same number there, and every verdict is the same whichever of the two layers it comes from. -/
theorem layers_agree {k : Knob} {v : String} {x : Float} (hx : CommandLine.readNumber k.parameter v = .ok x) :
    Spells (fun j => if j = k then some v.toList else none) (plainText k v).toList ∧
      ∀ (tokens : Knob → Option (List Char)) (text : String) (c : ThresholdChoice),
        Spells tokens text.toList → tokens k = some v.toList → ofText text = .ok c →
          ∃ y, k.chosen c = some y ∧ ((x.isNaN = true ∧ y.isNaN = true) ∨ (x == y) = true) ∧
            ∀ (upper : ThresholdChoice) (lower : List ThresholdChoice) (pair : MeasurementPair),
              (∀ j, j ≠ k → lower.findSome? j.chosen = j.chosen c) →
                (Thresholds.resolve (k.put upper (some x) :: lower)).map (fun t => (pair.judge t).status) =
                  (Thresholds.resolve [k.put upper none, c]).map fun t => (pair.judge t).status := by
  have hread : readFloat? v.toList = some x := by
    unfold CommandLine.readNumber at hx
    cases hv : readFloat? v.toList with
    | none => simp [hv] at hx
    | some z => simpa [hv] using hx
  refine ⟨spells_plainText k (isToken_of_readFloat? hread), fun tokens text c hspells htoken hc => ?_⟩
  obtain ⟨w, y, hscalar, hy, hchosen⟩ := ((ofText_eq_ok_iff_of_spells hspells).mp hc).number k _ htoken
  have hvalue := value?_of_readFloat? hscalar hy hread
  refine ⟨y, hchosen, isNaN_or_beq hvalue, fun upper lower pair hlower => Thresholds.resolve_congr (fun j => ?_) pair⟩
  rw [Knob.value_select, Knob.value_select, List.findSome?_cons, List.findSome?_cons, Knob.chosen_put, Knob.chosen_put]
  by_cases hj : j = k
  · subst hj
    simpa [hchosen] using hvalue
  · rw [if_neg hj, if_neg hj, hlower j hj]
    cases j.chosen upper with
    | none => simp
    | some z => rfl

theorem layers_agree_halfway : ∃ x y, CommandLine.readNumber .maxPercent "9007199254740993" = .ok x ∧
    ofText (plainText .maxPercent "9007199254740993") = .ok ⟨some y, none⟩ ∧
    ((x.isNaN = true ∧ y.isNaN = true) ∨ (x == y) = true) ∧
    ∀ pair : MeasurementPair, (Thresholds.resolve [⟨some x, none⟩]).map (fun t => (pair.judge t).status) =
      (Thresholds.resolve [⟨none, none⟩, ⟨some y, none⟩]).map fun t => (pair.judge t).status := by
  have hread : readFloat? "9007199254740993".toList = some (Float.ofNat 9007199254740993) := by rfl
  have hflag : CommandLine.readNumber .maxPercent "9007199254740993" = .ok (Float.ofNat 9007199254740993) := by
    rw [CommandLine.readNumber, hread]
  obtain ⟨hspells, hagree⟩ := layers_agree (k := .maxPercent) hflag
  have hc : ofText (plainText .maxPercent "9007199254740993") = .ok ⟨some (Float.ofInt 9007199254740993), none⟩ := by
    refine (ofText_eq_ok_iff_of_spells hspells).mpr ⟨fun j token ht => ?_, fun j hj => ?_⟩
    · cases j with
      | maxPercent =>
        rw [if_pos rfl, Option.some.injEq] at ht
        exact ⟨.integer 9007199254740993, _, by rw [← ht]; rfl, rfl, rfl⟩
      | minBytes => cases ht
    · cases j with
      | maxPercent => cases hj
      | minBytes => rfl
  obtain ⟨y, hy, hxy, hstatus⟩ := hagree _ _ _ hspells (if_pos rfl) hc
  obtain rfl := Option.some.inj hy
  refine ⟨_, _, hflag, hc, hxy, fun pair => hstatus ⟨none, none⟩ [] pair fun j hj => ?_⟩
  cases j with
  | maxPercent => exact absurd rfl hj
  | minBytes => rfl

end Settings
end PagingGate
