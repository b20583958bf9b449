import PagingGate.Proofs.Commands
import PagingGate.Proofs.Json.Unambiguous
import PagingGate.Proofs.Json.Written

set_option autoImplicit false

namespace PagingGate.Verdict

open Json (IsDocument IsFigure Named Piece Spelled Unescapes Value)

inductive IsTold (v : Verdict) (path : List Char) : List (String × Value) → Prop where
  | members {report status : List Piece} {fixed adaptive delta threshold minBytes : Value} :
      Unescapes report path → IsFigure v.fixed fixed → IsFigure v.adaptive adaptive → IsFigure v.delta delta →
      IsFigure v.threshold threshold → IsFigure v.minBytes minBytes → Unescapes status v.status.word.toList →
      IsTold v path
        [("report", .string report), ("fixed_alloc", fixed), ("adaptive_alloc", adaptive), ("delta_pct", delta),
         ("threshold_pct", threshold), ("min_bytes", minBytes), ("under_minimum", .flag v.underMinimum),
         ("status", .string status)]

theorem jsonSummary_object (v : Verdict) (path : List Char) : ∃ ms fields,
    IsDocument (.object ms) (v.jsonSummary path) ∧ Named ms fields ∧ v.IsTold path fields := by
  obtain ⟨report, hreport, hpath⟩ := Json.stringText_quoted (String.ofList path)
  obtain ⟨status, hstatus, hword⟩ := Json.stringText_quoted v.status.word
  obtain ⟨fixed, hfixed, hfixed'⟩ := Json.spells_numberText v.fixed
  obtain ⟨adaptive, hadaptive, hadaptive'⟩ := Json.spells_numberText v.adaptive
  obtain ⟨delta, hdelta, hdelta'⟩ := Json.spells_numberText v.delta
  obtain ⟨threshold, hthreshold, hthreshold'⟩ := Json.spells_numberText v.threshold
  obtain ⟨minBytes, hminBytes, hminBytes'⟩ := Json.spells_numberText v.minBytes
  have hspelled : Spelled (("report", Json.stringText (String.ofList path)) :: v.members)
      [("report", .string report), ("fixed_alloc", fixed), ("adaptive_alloc", adaptive), ("delta_pct", delta),
       ("threshold_pct", threshold), ("min_bytes", minBytes), ("under_minimum", .flag v.underMinimum),
       ("status", .string status)] := by
    refine .cons ⟨rfl, hreport ▸ .string report⟩ <| .cons ⟨rfl, hfixed⟩ <| .cons ⟨rfl, hadaptive⟩ <|
      .cons ⟨rfl, hdelta⟩ <| .cons ⟨rfl, hthreshold⟩ <| .cons ⟨rfl, hminBytes⟩ <|
      .cons ⟨rfl, Json.spells_flagText v.underMinimum⟩ <| .cons ⟨rfl, hstatus ▸ .string status⟩ .nil
  obtain ⟨ms, hnamed, hspells⟩ := Json.spells_prettyObject hspelled
  have hdocument : IsDocument (.object ms) (v.jsonSummary path) :=
    ⟨[], _, [], Json.isBlank_nil, hspells, Json.isBlank_nil, by rw [List.nil_append, List.append_nil]; rfl⟩
  rw [String.toList_ofList] at hpath
  exact ⟨ms, _, hdocument, hnamed, .members hpath hfixed' hadaptive' hdelta' hthreshold' hminBytes' hword⟩

theorem not_command_of_mem_jsonSummary (v : Verdict) (path : List Char) :
    ∀ l ∈ (v.jsonSummary path).splitOn '\n', ¬ "::".toList <+: l := by
  have hcount : Text.countLines "::".toList (v.jsonSummary path) = 0 := v.countLines_jsonSummary path
  intro l hl hmark
  exact List.countP_eq_zero.mp hcount l hl (List.isPrefixOf_iff_prefix.mpr hmark)

/-- Whatever the figures and the path are, the summary reads as one object with the path, the figures, the flag and the
status, and in no other way. No line of it is a workflow command. -/
theorem jsonSummary_tells (v : Verdict) (path : List Char) :
    (∃ ms fields, (∀ j, IsDocument j (v.jsonSummary path) ↔ j = .object ms) ∧ Named ms fields ∧ v.IsTold path fields) ∧
    ∀ l ∈ (v.jsonSummary path).splitOn '\n', ¬ "::".toList <+: l := by
  obtain ⟨ms, fields, hdocument, hnamed, htold⟩ := v.jsonSummary_object path
  exact ⟨⟨ms, fields, fun _ => hdocument.iff_eq, hnamed, htold⟩, v.not_command_of_mem_jsonSummary path⟩

end PagingGate.Verdict
