import PagingGate.Proofs.Json.Nearest
import PagingGate.Proofs.Json.Unambiguous
import PagingGate.Proofs.Report.Decoding

set_option autoImplicit false

namespace PagingGate

open Json

inductive Figure where
  | allocatedBytes
  | operations
  | allocatedPerOperation

def Figure.key : Figure → String
  | allocatedBytes => "AllocatedBytes"
  | operations => "Operations"
  | allocatedPerOperation => "AllocatedB"

def Figure.get (s : Statistics) : Figure → Option Float
  | allocatedBytes => s.allocatedBytes
  | operations => s.operations
  | allocatedPerOperation => s.allocatedPerOperation

def Report.figure? (r : Report) (i : Nat) (f : Figure) : Option Float :=
  (r.entries[i]?.bind Entry.statistics).bind f.get

variable {v : Value} {f : Figure} {n : Literal} {i : Nat}

namespace Figure

/-- The literal stands for this figure in the value of the statistics. -/
def StandsIn (f : Figure) (n : Literal) (v : Value) : Prop :=
  ∃ fields, IsRecord ["AllocatedBytes", "Operations", "AllocatedB"] v fields ∧ fields.lookup f.key = some (.number n)

def StandsInEntry (f : Figure) (n : Literal) (v : Value) : Prop :=
  ∃ fields statistics, IsRecord ["Method", "DisplayInfo", "Statistics"] v fields ∧
    fields.lookup "Statistics" = some statistics ∧ f.StandsIn n statistics

def StandsInReport (f : Figure) (i : Nat) (n : Literal) (v : Value) : Prop :=
  ∃ fields entries entry, IsRecord ["Benchmarks"] v fields ∧ fields.lookup "Benchmarks" = some (.list entries) ∧
    entries[i]? = some entry ∧ f.StandsInEntry n entry

theorem eq_of_nullable {α : Type} {Fits : Value → α → Prop} {o : Option α} (h : Nullable Fits v o) (hv : v ≠ .null) :
    ∃ a, o = some a ∧ Fits v a := by
  cases h with
  | null => exact absurd rfl hv
  | value hfits => exact ⟨_, rfl, hfits⟩

theorem StandsIn.value {s : Statistics} (h : f.StandsIn n v) (hs : IsStatistics v s) :
    ∃ x, f.get s = some x ∧ n.value = .ok x := by
  obtain ⟨fields, hrecord, hlookup⟩ := h
  obtain ⟨fields', hrecord', hbytes, hoperations, hfigure⟩ := hs
  obtain rfl := hrecord.unique hrecord'
  have hoptional : Optional IsFloat (fields'.lookup f.key) (f.get s) := by
    cases f with
    | allocatedBytes => exact hbytes
    | operations => exact hoperations
    | allocatedPerOperation => exact hfigure
  rw [hlookup] at hoptional
  obtain ⟨x, hx, m, hm, hvalue⟩ := eq_of_nullable hoptional (by simp)
  obtain rfl := Value.number.inj hm
  exact ⟨x, hx, hvalue⟩

theorem StandsInEntry.value {e : Entry} (h : f.StandsInEntry n v) (he : IsEntry v e) :
    ∃ x, e.statistics.bind f.get = some x ∧ n.value = .ok x := by
  obtain ⟨fields, statistics, hrecord, hlookup, hstands⟩ := h
  obtain ⟨fields', hrecord', _, _, hstatistics⟩ := he
  obtain rfl := hrecord.unique hrecord'
  rw [hlookup] at hstatistics
  have hnull : statistics ≠ .null := hstands.elim fun _ h => h.1.ne_null
  obtain ⟨s, hs, hfits⟩ := eq_of_nullable hstatistics hnull
  rw [hs]
  exact hstands.value hfits

theorem StandsInReport.value {r : Report} (h : f.StandsInReport i n v) (hr : IsReport v r) :
    ∃ x, r.figure? i f = some x ∧ n.value = .ok x := by
  obtain ⟨fields, entries, entry, hrecord, hlookup, hentry, hstands⟩ := h
  obtain ⟨fields', benchmarks, hrecord', hlookup', vs, rfl, hentries⟩ := hr
  obtain rfl := hrecord.unique hrecord'
  obtain rfl := Value.list.inj (Option.some.inj (hlookup.symm.trans hlookup'))
  obtain ⟨hi, rfl⟩ := List.getElem?_eq_some_iff.mp hentry
  have hi' : i < r.entries.length := hentries.length_eq ▸ hi
  rw [Report.figure?, List.getElem?_eq_getElem hi']
  exact hstands.value (hentries.get hi hi')

end Figure

/-- A realistic literal is read as the nearest number wherever it stands for a figure of an accepted report. Taken by
itself it is refused only if the digits behind its point outnumber the exponents that are looked at. -/
theorem figure_nearest (h : n.IsRealistic) :
    (∀ text r v i f, Report.ofJson text = .ok r → IsDocument v text.toList → Figure.StandsInReport f i n v →
      ∃ x, r.figure? i f = some x ∧ n.IsNearest x) ∧
    (n.fraction.length + 22 ≤ largestExponent →
      ∃ x, n.IsNearest x ∧ ∀ text, IsDocument (.number n) text.toList → Reader.float.document text = .ok x) := by
  refine ⟨fun text r v i f hr hd hstands => ?_, fun hlength => ?_⟩
  · obtain ⟨v', hd', hreport⟩ := Report.record_decodes.document_sound hr
    obtain rfl := hd.unique hd'
    obtain ⟨x, hx, hvalue⟩ := hstands.value hreport
    exact ⟨x, hx, h.isNearest hvalue⟩
  · obtain ⟨x, hx⟩ := h.exists_value hlength
    exact ⟨x, h.isNearest hx, fun text hd => Reader.float_decodes.document_complete hd ⟨n, rfl, hx⟩⟩

def cornerLiteral : Literal :=
  ⟨true, "9007199254740".toList, "992".toList, some ⟨'E', ['+'], ['2', '5'], .inr rfl, .inr (.inl rfl), by decide, by simp⟩,
    ⟨⟨by simp, by simp⟩, by simp⟩, by simp⟩

theorem allocatedB_plain : ∀ c ∈ "AllocatedB".toList, c ≠ '"' ∧ c ≠ '\\' ∧ 32 ≤ c.toNat := by simp

def cornerStatistics : Value := .object [(plainPieces "AllocatedB".toList allocatedB_plain, .number cornerLiteral)]

def cornerValue : Value :=
  .object [(plainPieces "Benchmarks".toList (by simp),
    .list [.object [(plainPieces "Statistics".toList (by simp), cornerStatistics)]])]

def cornerText : String := "\x7b\"Benchmarks\":[\x7b\"Statistics\":\x7b\"AllocatedB\":-9007199254740.992E+25\x7d\x7d]\x7d"

theorem cornerLiteral_isRealistic : cornerLiteral.IsRealistic := .scaled (by decide +kernel) (by decide +kernel)

theorem cornerValue_isDocument : IsDocument cornerValue cornerText.toList := by
  refine ⟨[], _, [], isBlank_nil, .object (.member isBlank_nil isBlank_nil isBlank_nil (.list (.item isBlank_nil
    (.object (.member isBlank_nil isBlank_nil isBlank_nil (.object (.member isBlank_nil isBlank_nil isBlank_nil
      (.number _) (.noMember isBlank_nil))) (.noMember isBlank_nil))) (.noItem isBlank_nil))) (.noMember isBlank_nil)),
    isBlank_nil, ?_⟩
  rfl

theorem isRecord_singleton {keys : List String} (key : String)
    (hkey : ∀ c ∈ key.toList, c ≠ '"' ∧ c ≠ '\\' ∧ 32 ≤ c.toNat) (v : Value) :
    IsRecord keys (.object [(plainPieces key.toList hkey, v)]) [(key, v)] := by
  refine .object (.cons ⟨unescapes_plainPieces _ _, rfl⟩ .nil) fun other _ => ?_
  exact (List.count_le_length ..).trans (by simp)

theorem cornerLiteral_stands : Figure.StandsInReport .allocatedPerOperation 0 cornerLiteral cornerValue :=
  ⟨_, _, _, isRecord_singleton "Benchmarks" _ _, rfl, rfl, _, _, isRecord_singleton "Statistics" _ _, rfl,
    _, isRecord_singleton "AllocatedB" _ _, rfl⟩

theorem cornerValue_isReport {x : Float} (h : cornerLiteral.value = .ok x) :
    IsReport cornerValue ⟨[⟨none, none, some ⟨none, none, some x⟩⟩]⟩ := by
  have hstatistics : IsStatistics cornerStatistics ⟨none, none, some x⟩ :=
    ⟨_, isRecord_singleton "AllocatedB" _ _, rfl, rfl, .value ⟨cornerLiteral, rfl, h⟩⟩
  exact ⟨_, _, isRecord_singleton "Benchmarks" _ _, rfl, _, rfl,
    .cons ⟨_, isRecord_singleton "Statistics" _ _, rfl, rfl, .value hstatistics⟩ .nil⟩

theorem cornerText_nearest : ∃ x, cornerLiteral.IsNearest x ∧
    Report.ofJson cornerText = .ok ⟨[⟨none, none, some ⟨none, none, some x⟩⟩]⟩ := by
  obtain ⟨x, hx⟩ := cornerLiteral_isRealistic.exists_value (by decide +kernel)
  have hread := Report.record_decodes.document_complete cornerValue_isDocument (cornerValue_isReport hx)
  obtain ⟨y, hy, hnearest⟩ :=
    (figure_nearest cornerLiteral_isRealistic).1 cornerText _ cornerValue 0 .allocatedPerOperation hread
      cornerValue_isDocument cornerLiteral_stands
  obtain rfl : x = y := Option.some.inj hy
  exact ⟨x, hnearest, hread⟩

end PagingGate
