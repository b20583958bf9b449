import PagingGate.Proofs.Decimal.Shown
import PagingGate.Proofs.Endings
import PagingGate.Proofs.Summary.Grouping

set_option autoImplicit false

/-!
# What a summary determines

The path stands in the middle of the summary as it is, and may look like any of the other lines. Counted from the end,
though, the lines with the figures are always the same ones, and nothing in a figure can end its line or look like the
text behind it. So two summaries are equal only if they tell the same.
-/

namespace PagingGate

open Binary64 Decimal

theorem Text.splitOn_flatMap (ls : List (List Char)) :
    (ls.flatMap (· ++ ['\n'])).splitOn '\n' = ls.flatMap (·.splitOn '\n') ++ [[]] := by
  induction ls with
  | nil => rfl
  | cons l ls ih =>
    rw [List.flatMap_cons, List.flatMap_cons, List.append_assoc, List.singleton_append,
      List.splitOn_append_cons_self, ih, List.append_assoc]

theorem Text.delimited_inj {x : Char} {a b c d : List Char} (ha : x ∉ a) (hb : x ∉ b) (h : a ++ x :: c = b ++ x :: d) :
    a = b ∧ c = d := by
  rcases List.append_eq_append_iff.mp h with ⟨e, rfl, he⟩ | ⟨e, rfl, he⟩
  · cases e with
    | nil => exact ⟨(List.append_nil a).symm, (List.cons.inj he).2⟩
    | cons y e =>
      obtain ⟨rfl, _⟩ := List.cons.inj he
      exact absurd (by simp) hb
  · cases e with
    | nil => exact ⟨List.append_nil b, (List.cons.inj he).2.symm⟩
    | cons y e =>
      obtain ⟨rfl, _⟩ := List.cons.inj he
      exact absurd (by simp) ha

theorem Text.splitOn_injective {a b : List Char} (h : a.splitOn '\n' = b.splitOn '\n') : a = b := by
  have hjoin := congrArg (List.intercalate ['\n']) h
  rwa [List.intercalate_splitOn, List.intercalate_splitOn] at hjoin

namespace Verdict

def title : List Char := "# Adaptive Paging Allocation Delta".toList

def reportLine (path : List Char) : List Char := "Report: `".toList ++ path ++ "`".toList

theorem reportLine_injective {path path' : List Char} (h : reportLine path = reportLine path') : path = path' :=
  List.append_cancel_left (List.append_cancel_right h)

def deltaLine (delta threshold : List Char) : List Char :=
  "Delta: ".toList ++ (delta ++ ['%']) ++ " (threshold ".toList ++ (threshold ++ ['%']) ++ ")".toList

theorem deltaLine_eq (delta threshold : List Char) : deltaLine delta threshold =
    "Delta: ".toList ++ (delta ++ '%' :: (" (threshold ".toList ++ (threshold ++ "%)".toList))) := by
  change "Delta: ".toList ++ (delta ++ ['%']) ++ " (threshold ".toList ++ (threshold ++ ['%']) ++ ")".toList = _
  simp

end Verdict

/-- A whole number in groups of three digits, as `x` rounds to it, or the word for what is not finite. -/
inductive WholeText (x : Float) (text : List Char) : Prop where
  | finite (g : Groups) : x.isFinite → text = signText (signBit x) ++ g.text →
      IsNumeral g.digits (nearestEven (rational x)).natAbs → WholeText x text
  | infinite : x.isInf → text = signText (signBit x) ++ "inf".toList → WholeText x text
  | notANumber : x.isNaN → text = "NaN".toList → WholeText x text

/-- What the text says is `x` rounded to two places. -/
inductive PlacedText (x : Float) (text : List Char) : Prop where
  | number {a : Extended} : value? x = some a → shown? text = some (atPlaces 2 a) → PlacedText x text
  | notANumber : x.isNaN → text = "NaN".toList → PlacedText x text

theorem wholeText_groupThousands (x : Float) : WholeText x (groupThousands x) := by
  by_cases h : x.isFinite
  · obtain ⟨g, htext, hdigits⟩ := groupThousands_of_isFinite h
    exact .finite g h htext (hdigits ▸ isNumeral_toDigits _)
  · rcases groupThousands_of_not_isFinite h with ⟨hnan, htext⟩ | ⟨hinf, htext⟩
    · exact .notANumber hnan htext
    · exact .infinite hinf htext

theorem placedText_fixed (x : Float) : PlacedText x (fixed 2 x) := by
  cases hx : value? x with
  | some a => exact .number hx (shown?_fixed 2 hx)
  | none =>
    refine .notANumber (isNaN_iff.mpr hx) ?_
    rw [fixed, exact, notANumber_of_value? hx]

/-- What a summary shows. -/
structure Figures where
  fixed : List Char
  adaptive : List Char
  delta : List Char
  threshold : List Char
  minBytes : List Char
  underMinimum : Bool
  status : Status

namespace Figures

/-- The lines behind the path. -/
def lines (f : Figures) : List (List Char) :=
  ["Fixed Alloc (B/op): ".toList ++ f.fixed,
   "Adaptive Alloc (B/op): ".toList ++ f.adaptive,
   Verdict.deltaLine f.delta f.threshold,
   "Min Bytes Threshold: ".toList ++ (f.minBytes ++ ' ' ::
     if f.underMinimum then "B/op (check skipped)".toList else "B/op (check applied)".toList),
   f.status.resultLine]

/-- The texts say the numbers of the verdict. -/
structure Tell (f : Figures) (v : Verdict) : Prop where
  fixed : WholeText v.fixed f.fixed
  adaptive : WholeText v.adaptive f.adaptive
  delta : PlacedText v.delta f.delta
  threshold : PlacedText v.threshold f.threshold
  minBytes : WholeText v.minBytes f.minBytes
  underMinimum : f.underMinimum = v.underMinimum
  status : f.status = v.status

def Plain (f : Figures) : Prop :=
  ∀ text ∈ [f.fixed, f.adaptive, f.delta, f.threshold, f.minBytes], text.all isNumberChar = true

theorem Plain.newline_not_mem {f : Figures} (hf : f.Plain) : ∀ l ∈ f.lines, '\n' ∉ l := by
  have htext : ∀ text ∈ [f.fixed, f.adaptive, f.delta, f.threshold, f.minBytes], '\n' ∉ text :=
    fun text h => not_mem_of_all (hf text h) (by decide)
  have hresult : '\n' ∉ f.status.resultLine := by
    cases f.status <;> decide
  simp only [List.forall_mem_cons] at htext
  obtain ⟨hfixed, hadaptive, hdelta, hthreshold, hminBytes, _⟩ := htext
  cases hcheck : f.underMinimum <;>
    simp [lines, Verdict.deltaLine_eq, hfixed, hadaptive, hdelta, hthreshold, hminBytes, hcheck, hresult]

/-- No text holds the character behind it. -/
theorem Plain.lines_inj {f g : Figures} (hf : f.Plain) (hg : g.Plain) (h : f.lines = g.lines) : f = g := by
  simp only [lines, Verdict.deltaLine_eq, List.cons.injEq, List.append_cancel_left_eq] at h
  obtain ⟨hfixed, hadaptive, hpercents, hminimum, hstatus, -⟩ := h
  obtain ⟨hdelta, hthreshold⟩ :=
    Text.delimited_inj (not_mem_of_all (hf f.delta (by simp)) (by decide))
      (not_mem_of_all (hg g.delta (by simp)) (by decide)) hpercents
  obtain ⟨hminBytes, hcheck⟩ :=
    Text.delimited_inj (not_mem_of_all (hf f.minBytes (by simp)) (by decide))
      (not_mem_of_all (hg g.minBytes (by simp)) (by decide)) hminimum
  have hunder : f.underMinimum = g.underMinimum := by
    revert hcheck
    cases f.underMinimum <;> cases g.underMinimum <;> decide
  obtain ⟨⟩ := f
  obtain ⟨⟩ := g
  simp only [mk.injEq]
  exact ⟨hfixed, hadaptive, hdelta, List.append_cancel_right (List.append_cancel_left hthreshold), hminBytes, hunder,
    resultLine_injective hstatus⟩

end Figures

namespace Verdict

def figures (v : Verdict) : Figures where
  fixed := groupThousands v.fixed
  adaptive := groupThousands v.adaptive
  delta := Decimal.fixed 2 v.delta
  threshold := Decimal.fixed 2 v.threshold
  minBytes := groupThousands v.minBytes
  underMinimum := v.underMinimum
  status := v.status

theorem figures_tell (v : Verdict) : v.figures.Tell v where
  fixed := wholeText_groupThousands v.fixed
  adaptive := wholeText_groupThousands v.adaptive
  delta := placedText_fixed v.delta
  threshold := placedText_fixed v.threshold
  minBytes := wholeText_groupThousands v.minBytes
  underMinimum := rfl
  status := rfl

theorem figures_plain (v : Verdict) : v.figures.Plain := by
  simp only [Figures.Plain, figures, List.forall_mem_cons]
  exact ⟨all_groupThousands _, all_groupThousands _, all_fixed 2 _, all_fixed 2 _, all_groupThousands _,
    List.forall_mem_nil _⟩

theorem summaryLines_eq (v : Verdict) (path : List Char) :
    v.summaryLines path = title :: [] :: reportLine path :: v.figures.lines := by
  have hcheck : " B/op (check ".toList ++ (v.checkWord ++ ")".toList) =
      ' ' :: if v.underMinimum then "B/op (check skipped)".toList else "B/op (check applied)".toList := by
    unfold checkWord
    cases v.underMinimum <;> decide
  simp only [summaryLines, percentText, List.append_assoc, hcheck]
  rw [Figures.lines, deltaLine_eq, ← Status.resultLine_eq, List.append_assoc]
  rfl

/-- Only the path adds lines. -/
theorem splitOn_summary (v : Verdict) (path : List Char) : (v.summary path).splitOn '\n' =
    title :: [] :: ((reportLine path).splitOn '\n' ++ (v.figures.lines ++ [[]])) := by
  have hfigures : v.figures.lines.flatMap (·.splitOn '\n') = v.figures.lines := by
    rw [List.flatMap_congr fun l hl => List.splitOn_eq_singleton (v.figures_plain.newline_not_mem l hl)]
    exact List.flatMap_singleton' _
  have htitle : title.splitOn '\n' = [title] := by decide
  rw [summary, Text.splitOn_flatMap, summaryLines_eq, List.flatMap_cons, List.flatMap_cons, List.flatMap_cons, htitle,
    List.splitOn_nil, hfigures]
  simp only [List.cons_append, List.nil_append, List.append_assoc]

/-- Equal summaries are of one path and show the same. Whatever the path holds, the five lines at the end are those of
the verdict and say its numbers, and the last of them tells its status. -/
theorem summary_determines (v w : Verdict) (path path' : List Char) :
    (v.summary path = w.summary path' ↔ path = path' ∧ v.figures = w.figures) ∧ v.figures.Tell v ∧
    (v.summary path).splitOn '\n' = title :: [] :: ((reportLine path).splitOn '\n' ++ (v.figures.lines ++ [[]])) ∧
    IsLastLine v.status.resultLine (v.summary path) := by
  refine ⟨⟨fun h => ?_, ?_⟩, v.figures_tell, v.splitOn_summary path, v.summary_lastLine path⟩
  · have hlines := congrArg (List.splitOn '\n') h
    rw [splitOn_summary, splitOn_summary] at hlines
    have hbody := (List.cons.inj (List.cons.inj hlines).2).2
    -- Both documents have as many lines behind the path.
    obtain ⟨hreport, hfigures⟩ := List.append_inj' hbody (by rw [List.length_append, List.length_append]; rfl)
    exact ⟨reportLine_injective (Text.splitOn_injective hreport),
      v.figures_plain.lines_inj w.figures_plain (List.append_cancel_right hfigures)⟩
  · rintro ⟨rfl, hsame⟩
    rw [summary, summary, summaryLines_eq, summaryLines_eq, hsame]

/-- A path that looks like the end of a summary. -/
example : ((judge 1e6 2e6 .default).summary "x`\nResult: **PASS**".toList).splitOn '\n' =
    [title, [], "Report: `x`".toList, "Result: **PASS**`".toList, "Fixed Alloc (B/op): 1,000,000".toList,
      "Adaptive Alloc (B/op): 2,000,000".toList, "Delta: 100.00% (threshold 20.00%)".toList,
      "Min Bytes Threshold: 4,096 B/op (check applied)".toList, "Result: **FAIL**".toList, []] := by
  decide +kernel

end Verdict
end PagingGate
