import PagingGate.Proofs.Report.Decoding

set_option autoImplicit false

/-!
# Reports that are cut off

A report that lost more than white space at its end is refused. The error says so, but for numbers: the front of a
number can be out of range, and one that is only passed over is malformed behind a sign, a point or a mark.
-/

namespace PagingGate

open Json

theorem IsReport.ne_number {v : Value} {r : Report} (h : IsReport v r) (n : Literal) : v ≠ .number n := by
  obtain ⟨_, _, hrecord, _, _⟩ := h
  cases hrecord <;> simp

def cutFront : String := "\x7b\"x\":-"

def cutBack : String := "1,\"Benchmarks\":[]\x7d"

theorem cutBack_not_isBlank : ¬ IsBlank cutBack.toList := fun h => absurd (h '1' (by decide)) (by decide)

theorem ofJson_cutFront_append : Report.ofJson (cutFront ++ cutBack) = .ok ⟨[]⟩ := by
  have h : (Report.ofJson (cutFront ++ cutBack)).toOption.any (·.entries.isEmpty) = true := by
    decide +kernel
  cases hr : Report.ofJson (cutFront ++ cutBack) with
  | error e => simp [hr, Except.toOption] at h
  | ok r =>
    obtain ⟨entries⟩ := r
    simp only [hr, Except.toOption, Option.any_some, List.isEmpty_iff] at h
    rw [h]

theorem ofJson_cutFront : Report.ofJson cutFront = .error .invalidNumber := by
  have h : (match Report.ofJson cutFront with | .error .invalidNumber => true | _ => false) = true := by
    decide +kernel
  split at h
  · assumption
  · simp at h

theorem malformed_behind_sign : Report.ofJson (cutFront ++ cutBack) = .ok ⟨[]⟩ ∧ ¬ IsBlank cutBack.toList ∧
    Report.ofJson cutFront = .error .invalidNumber ∧ Error.invalidNumber.kind = .malformed ∧
    Error.invalidNumber ≠ .numberOutOfRange :=
  ⟨ofJson_cutFront_append, cutBack_not_isBlank, ofJson_cutFront, rfl, by simp⟩

/-- Behind white space nothing is missing. Else the text has ended too early, or it has ended in a number: what is
there is out of range, or it dangles and any other number would do as well. -/
theorem ofJson_cut {p s : String} {r : Report} (h : Report.ofJson (p ++ s) = .ok r) :
    (IsBlank s.toList → Report.ofJson p = .ok r) ∧
    (¬ IsBlank s.toList → ∃ e, Report.ofJson p = .error e ∧ (e.kind = .ended ∨ e = .numberOutOfRange ∨
      (e = .invalidNumber ∧
        CutInNumber (fun t => Report.ofJson (String.ofList t) = .ok r) p.toList s.toList))) := by
  obtain ⟨v, hd, hr⟩ := Report.record_decodes.document_sound h
  rw [String.toList_append] at hd
  refine ⟨fun hs => Report.record_decodes.document_complete (hd.of_blank hs) hr, fun hs => ?_⟩
  obtain ⟨e, he, hbroken⟩ := Report.record_decodes.document_cut hd hr hr.ne_number hs
  rw [String.ofList_toList] at he
  refine ⟨e, he, hbroken.mono ?_⟩
  rintro t ⟨v, hd, hr⟩
  exact Report.record_decodes.document_complete (by rwa [String.toList_ofList]) hr

theorem cutFront_dangles : Report.ofJson (cutFront ++ cutBack) = .ok ⟨[]⟩ ∧ ¬ IsBlank cutBack.toList ∧
    ∃ e, Report.ofJson cutFront = .error e ∧ (e.kind = .ended ∨ e = .numberOutOfRange ∨
      (e = .invalidNumber ∧
        CutInNumber (fun t => Report.ofJson (String.ofList t) = .ok ⟨[]⟩) cutFront.toList cutBack.toList)) :=
  ⟨ofJson_cutFront_append, cutBack_not_isBlank, (ofJson_cut ofJson_cutFront_append).2 cutBack_not_isBlank⟩

end PagingGate
