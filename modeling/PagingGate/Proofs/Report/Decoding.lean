import PagingGate.Proofs.Json.Records
import PagingGate.Report.Reader

set_option autoImplicit false

namespace PagingGate

open Json

/-- A field that may be missing or null. -/
def Optional {α : Type} (Fits : Value → α → Prop) : Option Value → Option α → Prop
  | none, o => o = none
  | some v, o => Nullable Fits v o

def IsStatistics (v : Value) (s : Statistics) : Prop :=
  ∃ fields, IsRecord ["AllocatedBytes", "Operations", "AllocatedB"] v fields ∧
    Optional IsFloat (fields.lookup "AllocatedBytes") s.allocatedBytes ∧
    Optional IsFloat (fields.lookup "Operations") s.operations ∧
    Optional IsFloat (fields.lookup "AllocatedB") s.allocatedPerOperation

def IsEntry (v : Value) (e : Entry) : Prop :=
  ∃ fields, IsRecord ["Method", "DisplayInfo", "Statistics"] v fields ∧
    Optional IsText (fields.lookup "Method") e.method ∧
    Optional IsText (fields.lookup "DisplayInfo") e.displayInfo ∧
    Optional IsStatistics (fields.lookup "Statistics") e.statistics

/-- The list of benchmarks must be there. Its items are the entries, in order. -/
def IsReport (v : Value) (r : Report) : Prop :=
  ∃ fields benchmarks, IsRecord ["Benchmarks"] v fields ∧ fields.lookup "Benchmarks" = some benchmarks ∧
    IsListOf IsEntry benchmarks r.entries

theorem Json.IsRecord.ne_null {keys : List String} {v : Value} {fields : List (String × Value)}
    (h : IsRecord keys v fields) : v ≠ .null := by
  cases h <;> simp

theorem IsStatistics.ne_null {v : Value} {s : Statistics} (h : IsStatistics v s) : v ≠ .null :=
  h.elim fun _ h => h.1.ne_null

theorem ne_null_of_isFloat {v : Value} {x : Float} (h : IsFloat v x) : v ≠ .null := by
  obtain ⟨n, rfl, _⟩ := h
  simp

theorem ne_null_of_isText {v : Value} {s : String} (h : IsText v s) : v ≠ .null := by
  obtain ⟨s, rfl, _⟩ := h
  simp

theorem agrees_iff_optional {σ α : Type} {key : String} {get : σ → Option α} {set : Option α → σ → σ}
    {Fits : Value → α → Prop} {blank d : σ} (h : get blank = none) (field : Option Value) :
    (Slot.mk key (Option α) get set (Nullable Fits)).Agrees blank d field ↔ Optional Fits field (get d) := by
  cases field <;> simp [Slot.Agrees, Optional, h]

namespace Statistics

def slots : List (Slot Statistics) :=
  [⟨"AllocatedBytes", Option Float, (·.allocatedBytes), fun x s => { s with allocatedBytes := x }, Nullable IsFloat⟩,
   ⟨"Operations", Option Float, (·.operations), fun x s => { s with operations := x }, Nullable IsFloat⟩,
   ⟨"AllocatedB", Option Float, (·.allocatedPerOperation), fun x s => { s with allocatedPerOperation := x },
    Nullable IsFloat⟩]

theorem record_hasSlots : record.HasSlots slots where
  readBy :=
    have hfloat := Reader.float_decodes.nullable ne_null_of_isFloat
    .cons (Slot.isReadBy_mapped hfloat) <| .cons (Slot.isReadBy_mapped hfloat) <|
      .cons (Slot.isReadBy_mapped hfloat) .nil
  independent :=
    { distinct := by simp [slots]
      get_set := by simp [slots]
      get_other := by simp [slots]
      ext := by
        rintro ⟨_, _, _⟩ ⟨_, _, _⟩ h
        simpa [slots] using h }

theorem record_decodes : record.reader.Decodes IsStatistics := by
  refine (record_hasSlots.decodes_draft rfl).congr fun v s => exists_congr fun fields => ?_
  simp [slots, agrees_iff_optional, record]

end Statistics

namespace Entry

def slots : List (Slot Entry) :=
  [⟨"Method", Option String, (·.method), fun x e => { e with method := x }, Nullable IsText⟩,
   ⟨"DisplayInfo", Option String, (·.displayInfo), fun x e => { e with displayInfo := x }, Nullable IsText⟩,
   ⟨"Statistics", Option Statistics, (·.statistics), fun x e => { e with statistics := x }, Nullable IsStatistics⟩]

theorem record_hasSlots : record.HasSlots slots where
  readBy :=
    have htext := Reader.text_decodes.nullable ne_null_of_isText
    .cons (Slot.isReadBy_mapped htext) <| .cons (Slot.isReadBy_mapped htext) <|
      .cons (Slot.isReadBy_mapped (Statistics.record_decodes.nullable IsStatistics.ne_null)) .nil
  independent :=
    { distinct := by simp [slots]
      get_set := by simp [slots]
      get_other := by simp [slots]
      ext := by
        rintro ⟨_, _, _⟩ ⟨_, _, _⟩ h
        simpa [slots] using h }

theorem record_decodes : record.reader.Decodes IsEntry := by
  refine (record_hasSlots.decodes_draft rfl).congr fun v e => exists_congr fun fields => ?_
  simp [slots, agrees_iff_optional, record]

end Entry

namespace Report

def slots : List (Slot (Option (List Entry))) :=
  [⟨"Benchmarks", Option (List Entry), id, fun x _ => x, fun v x => ∃ es, x = some es ∧ IsListOf IsEntry v es⟩]

theorem record_hasSlots : record.HasSlots slots where
  readBy := .cons (Slot.isReadBy_required Entry.record_decodes.list) .nil
  independent :=
    { distinct := by simp [slots]
      get_set := by simp [slots]
      get_other := by simp [slots]
      ext := by simp [slots] }

theorem record_decodes : record.reader.Decodes IsReport := by
  refine record_hasSlots.decodes.congr fun v r => ?_
  constructor
  · rintro ⟨fields, d, hrecord, hagrees, hfinish⟩
    replace hagrees := hagrees _ List.mem_cons_self
    cases d with
    | none => simp [record] at hfinish
    | some es =>
      obtain rfl := Except.ok.inj hfinish
      cases hlookup : fields.lookup "Benchmarks" with
      | none => simp [hlookup, Slot.Agrees, record] at hagrees
      | some benchmarks =>
        simp only [hlookup, Slot.Agrees] at hagrees
        obtain ⟨es', hes, hlist⟩ := hagrees
        obtain rfl := Option.some.inj hes
        exact ⟨fields, benchmarks, hrecord, hlookup, hlist⟩
  · rintro ⟨fields, benchmarks, hrecord, hlookup, hentries⟩
    refine ⟨fields, some r.entries, hrecord, ?_, rfl⟩
    simp [slots, Slot.Agrees, hlookup, hentries]

end Report

/-- A text without quotes, backslashes and control characters spells itself. -/
def plainPieces : (cs : List Char) → (∀ c ∈ cs, c ≠ '"' ∧ c ≠ '\\' ∧ 32 ≤ c.toNat) → List Piece
  | [], _ => []
  | c :: cs, h => .plain c (h c List.mem_cons_self) :: plainPieces cs fun d hd => h d (List.mem_cons_of_mem c hd)

theorem unescapes_plainPieces (cs : List Char) (h : ∀ c ∈ cs, c ≠ '"' ∧ c ≠ '\\' ∧ 32 ≤ c.toNat) :
    Unescapes (plainPieces cs h) cs := by
  induction cs with
  | nil => exact .nil
  | cons c cs ih => exact .plain (ih _)

def hugeLiteral : Literal :=
  ⟨false, ['1'], [], some ⟨'e', [], ['9', '9', '9'], .inl rfl, .inl rfl, by decide, by simp⟩,
    ⟨⟨by decide, by simp⟩, by decide⟩, by simp⟩

def sixteenLiteral : Literal :=
  ⟨false, ['1', '6'], [], none, ⟨⟨by decide, by simp⟩, by decide⟩, by simp⟩

def mixedEntries : Value :=
  .list [.list [.string (plainPieces "Fixed".toList (by simp)), .null,
    .object [(plainPieces "AllocatedB".toList (by simp), .number sixteenLiteral)]]]

/-- An ignored member comes first, and the key of the list begins with an escape. -/
def mixedValue : Value :=
  .object [(plainPieces ['x'] (by simp),
      .list [.number hugeLiteral, .string [.unit 'd' '8' '0' '0' 0xD800 (by decide)]]),
    (.unit '0' '0' '4' '2' 0x42 (by decide) :: plainPieces "enchmarks".toList (by simp), mixedEntries)]

def mixedText : String :=
  "\x7b\"x\":[1e999,\"\\ud800\"],\"\\u0042enchmarks\": [[\"Fixed\",null,\x7b\"AllocatedB\":16\x7d]]\x7d\n"

def mixedReport : Report := ⟨[⟨some "Fixed", none, some ⟨none, none, some (Float.ofNat 16)⟩⟩]⟩

theorem mixedValue_isDocument : IsDocument mixedValue mixedText.toList := by
  have hcomma : IsSeparator false [','] := ⟨[], [], isBlank_nil, isBlank_nil, rfl⟩
  refine ⟨[], _, ['\n'], isBlank_nil, .object (.member isBlank_nil isBlank_nil isBlank_nil
    (.list (.item isBlank_nil (.number _) (.item hcomma (.string _) (.noItem isBlank_nil))))
    (.member hcomma isBlank_nil (isBlank_cons.mpr ⟨rfl, isBlank_nil⟩ : IsBlank [' '])
      (.list (.item isBlank_nil (.list (.item isBlank_nil (.string _) (.item hcomma .null (.item hcomma
        (.object (.member isBlank_nil isBlank_nil isBlank_nil (.number _) (.noMember isBlank_nil)))
        (.noItem isBlank_nil))))) (.noItem isBlank_nil))) (.noMember isBlank_nil))),
    isBlank_cons.mpr ⟨rfl, isBlank_nil⟩, ?_⟩
  rfl

theorem mixedEntries_isListOf : IsListOf IsEntry mixedEntries mixedReport.entries := by
  have hstatistics : IsStatistics (.object [(plainPieces "AllocatedB".toList (by simp), .number sixteenLiteral)])
      ⟨none, none, some (Float.ofNat 16)⟩ := by
    refine ⟨[("AllocatedB", .number sixteenLiteral)], .object (.cons ⟨unescapes_plainPieces _ _, rfl⟩ .nil) ?_, rfl,
      rfl, .value ⟨sixteenLiteral, rfl, rfl⟩⟩
    simp [List.count_cons]
  refine ⟨_, rfl, .cons ⟨_, .list rfl, ?_, ?_, ?_⟩ .nil⟩
  · exact .value ⟨_, rfl, unescapes_plainPieces _ _⟩
  · exact .null
  · exact .value hstatistics

theorem mixedValue_isReport : IsReport mixedValue mixedReport := by
  refine ⟨[("x", _), ("Benchmarks", mixedEntries)], mixedEntries,
    .object (.cons ⟨unescapes_plainPieces _ _, rfl⟩ (.cons ⟨.unit rfl rfl (unescapes_plainPieces _ _), rfl⟩ .nil)) ?_,
    rfl, mixedEntries_isListOf⟩
  simp [List.count_cons]

end PagingGate
