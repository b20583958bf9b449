import PagingGate.Proofs.Settings
import PagingGate.Proofs.Toml.Numbers
import PagingGate.Proofs.Toml.Rows

set_option autoImplicit false

/-!
# Spellings of settings

The same thresholds can be written below a header, behind dotted keys or in braces, with quoted keys, in either order, and
with white space and comments around them. All such documents are accepted, and say the same.
-/

namespace PagingGate.Settings

open Binary64 hiding number
open Toml

/-- The rows that set these thresholds. -/
inductive Styled (settings : List (Knob × List Char)) : List Row → Prop where
  | header : Styled settings
      (.header ⟨[], thresholdsKey⟩ :: settings.map fun s => .pair ⟨[], s.1.settingsKey⟩ s.2)
  | dotted : Styled settings (settings.map fun s => .pair ⟨[thresholdsKey], s.1.settingsKey⟩ s.2)
  | braces : Styled settings [.braces ⟨[], thresholdsKey⟩ (settings.map fun s => (s.1.settingsKey, s.2))]

/-- A document that sets exactly these thresholds, each to its token. -/
def Spells (tokens : Knob → Option (List Char)) (text : List Char) : Prop := ∃ settings rows,
  (settings.map Prod.fst).Nodup ∧ (∀ k token, (k, token) ∈ settings ↔ tokens k = some token) ∧
    Styled settings rows ∧ SpellsDocument rows text

/-- Each token is a number, which is chosen, and nothing else is. -/
structure Says (tokens : Knob → Option (List Char)) (c : ThresholdChoice) : Prop where
  number : ∀ k token, tokens k = some token → ∃ v x, scalar? token = some v ∧ number v = .ok x ∧ k.chosen c = some x
  others : ∀ k, tokens k = none → k.chosen c = none

variable {settings : List (Knob × List Char)} {rows : List Row} {tokens : Knob → Option (List Char)} {c : ThresholdChoice}

theorem Styled.length_le (h : Styled settings rows) : ∀ row ∈ rows, row.keyPath.parts.length ≤ maxKeyParts := by
  have hpairs : ∀ parents : List String, parents.length < maxKeyParts →
      ∀ row ∈ settings.map fun s => Row.pair ⟨parents, s.1.settingsKey⟩ s.2, row.keyPath.parts.length ≤ maxKeyParts := by
    intro parents hparents row hrow
    obtain ⟨s, _, rfl⟩ := List.mem_map.mp hrow
    simpa [Row.keyPath, KeyPath.parts] using hparents
  cases h with
  | header => exact List.forall_mem_cons.mpr ⟨by decide, hpairs [] (by decide)⟩
  | dotted => exact hpairs [thresholdsKey] (by decide)
  | braces => simp [Row.keyPath, KeyPath.parts, maxKeyParts]

theorem scalars_of_styled {ss : List Statement} (h : Styled settings rows) (hss : rows.mapM Row.read? = some ss) :
    ∀ s ∈ settings, ∃ v, scalar? s.2 = some v := by
  have hpairs : ∀ {parents ss},
      (settings.map fun s => Row.pair ⟨parents, s.1.settingsKey⟩ s.2).mapM Row.read? = some ss →
      ∀ s ∈ settings, ∃ v, scalar? s.2 = some v := by
    intro parents ss hss s hs
    obtain ⟨_, hrow⟩ := exists_of_mapM_map hss s hs
    obtain ⟨v, hv, _⟩ := Option.map_eq_some_iff.mp hrow
    exact ⟨v, hv⟩
  cases h with
  | header =>
    rw [mapM_cons_option] at hss
    obtain ⟨_, _, htail⟩ := Option.bind_eq_some_iff.mp hss
    obtain ⟨_, hpair, _⟩ := Option.map_eq_some_iff.mp htail
    exact hpairs hpair
  | dotted => exact hpairs hss
  | braces =>
    rw [mapM_cons_option] at hss
    obtain ⟨_, hrow, _⟩ := Option.bind_eq_some_iff.mp hss
    obtain ⟨_, hbraces, _⟩ := Option.map_eq_some_iff.mp hrow
    obtain ⟨_, hmembers, _⟩ := Option.bind_eq_some_iff.mp hbraces
    intro s hs
    obtain ⟨_, hmember⟩ := exists_of_mapM_map hmembers s hs
    obtain ⟨v, hv, _⟩ := Option.map_eq_some_iff.mp hmember
    exact ⟨v, hv⟩

def valued (values : List Char → Value) (settings : List (Knob × List Char)) : List Setting :=
  settings.map fun s => (s.1, values s.2)

section
variable {values : List Char → Value}

theorem fst_valued : (valued values settings).map Prod.fst = settings.map Prod.fst := by
  rw [valued, List.map_map]
  rfl

theorem members_valued : (valued values settings).map Setting.member =
    settings.map fun s => (s.1.settingsKey, values s.2) := by
  rw [valued, List.map_map]
  rfl

variable (hv : ∀ s ∈ settings, scalar? s.2 = some (values s.2))
include hv

theorem flat_valued : Flat ((valued values settings).map Setting.member) := by
  intro m hm
  rw [members_valued] at hm
  obtain ⟨s, hs, rfl⟩ := List.mem_map.mp hm
  exact not_table_of_scalar? (hv s hs)

theorem holds_of_styled (hn : (settings.map Prod.fst).Nodup) (h : Styled settings rows) :
    ∃ ss, rows.mapM Row.read? = some ss ∧ Holds ss (valued values settings) [] := by
  cases h with
  | header =>
    have hpairs : (settings.map fun s => Row.pair ⟨[], s.1.settingsKey⟩ s.2).mapM Row.read? =
        some (settings.map fun s => .assignment (plain (s.1.settingsKey, values s.2))) :=
      mapM_map_eq_some fun s hs => by rw [Row.read?, hv s hs]; rfl
    refine ⟨_, ?_, .header _⟩
    rw [mapM_cons_option, hpairs, valued, List.map_map]
    rfl
  | dotted =>
    have hpairs : (settings.map fun s => Row.pair ⟨[thresholdsKey], s.1.settingsKey⟩ s.2).mapM Row.read? =
        some (settings.map fun s => .assignment (dotted thresholdsKey (s.1.settingsKey, values s.2))) :=
      mapM_map_eq_some fun s hs => by rw [Row.read?, hv s hs]; rfl
    by_cases hne : settings = []
    · subst hne
      exact ⟨[], rfl, .nothing⟩
    · refine ⟨_, ?_, .dotted _ fun h => hne (List.map_eq_nil_iff.mp h)⟩
      rw [hpairs, valued, List.map_map]
      rfl
  | braces =>
    have hmembers : readMembers (settings.map fun s => (s.1.settingsKey, s.2)) =
        some ((valued values settings).map Setting.member) := by
      rw [members_valued]
      exact mapM_map_eq_some fun s hs => by rw [hv s hs]; rfl
    have hassign : Table.assignAll [] (((valued values settings).map Setting.member).map plain) =
        some ((valued values settings).map Setting.member) := by
      refine (Table.assignAll_eq_some_iff_of_flat (flat_valued hv)).mpr ⟨rfl, ?_⟩
      rwa [nodup_members, fst_valued]
    refine ⟨_, ?_, .braces _⟩
    rw [mapM_cons_option, Row.read?, hmembers, Option.bind_some, hassign]
    rfl

theorem reports_valued_iff (hn : (settings.map Prod.fst).Nodup)
    (htokens : ∀ k token, (k, token) ∈ settings ↔ tokens k = some token) :
    Reports (valued values settings) c ↔ Says tokens c := by
  have hscalar : ∀ {k token}, tokens k = some token → scalar? token = some (values token) := fun ht =>
    hv (_, _) ((htokens _ _).mpr ht)
  have hmem : ∀ {k}, k ∉ settings.map Prod.fst ↔ tokens k = none := by
    intro k
    simp [Option.eq_none_iff_forall_ne_some, htokens]
  constructor
  · intro h
    refine ⟨fun k token ht => ?_, fun k hk => h.others k (by rwa [fst_valued, hmem])⟩
    have hmem : (k, values token) ∈ valued values settings := List.mem_map.mpr ⟨(k, token), (htokens k token).mpr ht, rfl⟩
    obtain ⟨x, hx, hchosen⟩ := h.reported _ hmem
    exact ⟨_, x, hscalar ht, hx, hchosen⟩
  · intro h
    refine ⟨by rwa [fst_valued], fun s hs => ?_, fun k hk => h.others k (by rwa [fst_valued, hmem] at hk)⟩
    obtain ⟨⟨k, token⟩, hmem, rfl⟩ := List.mem_map.mp hs
    have ht := (htokens k token).mp hmem
    obtain ⟨v, x, hscalar', hx, hchosen⟩ := h.number k token ht
    obtain rfl := Option.some.inj ((hscalar ht).symm.trans hscalar')
    exact ⟨x, hx, hchosen⟩

end

/-- However the thresholds are spelled, a document says what their tokens say. -/
theorem ofText_eq_ok_iff_of_spells {text : String} (h : Spells tokens text.toList) : ofText text = .ok c ↔ Says tokens c := by
  obtain ⟨settings, rows, hnodup, htokens, hstyled, hdocument⟩ := h
  have hread := document_spelled hdocument hstyled.length_le
  have hiff : (∀ s ∈ settings, ∃ v, scalar? s.2 = some v) → (ofText text = .ok c ↔ Says tokens c) := by
    intro hscalars
    obtain ⟨values, hv⟩ : ∃ values : List Char → Value, ∀ s ∈ settings, scalar? s.2 = some (values s.2) := by
      refine ⟨fun token => (scalar? token).getD .dateTime, fun s hs => ?_⟩
      obtain ⟨v, hv⟩ := hscalars s hs
      dsimp only
      rw [hv, Option.getD_some]
    obtain ⟨ss, hss, hholds⟩ := holds_of_styled hv hnodup hstyled
    rw [ofText_of_holds (hread.trans hss) hholds (flat_valued hv) (by rwa [nodup_members, fst_valued]),
      reports_valued_iff hv hnodup htokens]
  constructor
  · intro hc
    obtain ⟨t, ht, _⟩ := ofText_eq_ok.mp hc
    obtain ⟨front, below, hss, _⟩ := document?_eq_some_iff.mp ht
    exact (hiff (scalars_of_styled hstyled (hread.symm.trans hss))).mp hc
  · intro hsays
    refine (hiff fun s hs => ?_).mpr hsays
    obtain ⟨v, _, hv, _⟩ := hsays.number s.1 s.2 ((htokens _ _).mp hs)
    exact ⟨v, hv⟩

theorem number_of_standsFor {v : Value} {meaning : Option Extended} (h : v.StandsFor meaning) :
    ∃ x, number v = .ok x ∧ value? x = meaning := by
  cases h with
  | integer n => exact ⟨_, rfl, Decimal.value?_ofInt n⟩
  | float x => exact ⟨x, rfl, rfl⟩

/-- However the thresholds are spelled, what is chosen is the same: the binary64 number nearest to each. -/
theorem chosen_by_any_spelling {meaning : Knob → Option Extended}
    (h : ∀ k token, tokens k = some token → Denotes token (meaning k)) :
    ∃ c, (∀ k, tokens k = none → k.chosen c = none) ∧
      (∀ k token, tokens k = some token → ∃ x, k.chosen c = some x ∧ value? x = meaning k) ∧
      ∀ text : String, Spells tokens text.toList → ofText text = .ok c := by
  have hknob : ∀ k, ∃ x?, (tokens k = none → x? = none) ∧ ∀ token, tokens k = some token →
      ∃ v x, scalar? token = some v ∧ number v = .ok x ∧ x? = some x ∧ value? x = meaning k := by
    intro k
    cases htoken : tokens k with
    | none => exact ⟨none, fun _ => rfl, fun _ ht => nomatch ht⟩
    | some token =>
      obtain ⟨v, hscalar, hstands⟩ := scalar?_of_denotes (h k token htoken)
      obtain ⟨x, hx, hvalue⟩ := number_of_standsFor hstands
      refine ⟨some x, fun ht => (nomatch ht), fun token' ht => ?_⟩
      rw [← Option.some.inj ht]
      exact ⟨v, x, hscalar, hx, rfl, hvalue⟩
  choose chosen hnone hsome using hknob
  have hchosen : ∀ k, k.chosen ⟨chosen .maxPercent, chosen .minBytes⟩ = chosen k := fun k => by cases k <;> rfl
  refine ⟨⟨chosen .maxPercent, chosen .minBytes⟩, fun k ht => (hchosen k).trans (hnone k ht), fun k token ht => ?_, ?_⟩
  · obtain ⟨_, x, _, _, hx, hvalue⟩ := hsome k token ht
    exact ⟨x, (hchosen k).trans hx, hvalue⟩
  · intro text htext
    refine (ofText_eq_ok_iff_of_spells htext).mpr ⟨fun k token ht => ?_, fun k ht => (hchosen k).trans (hnone k ht)⟩
    obtain ⟨v, x, hscalar, hx, hk, _⟩ := hsome k token ht
    exact ⟨v, x, hscalar, hx, (hchosen k).trans hk⟩

theorem bare_thresholdsKey : SpellsPart thresholdsKey thresholdsKey.toList :=
  .bare (by simp [thresholdsKey]) (by simp [thresholdsKey, isKeyChar])

theorem bare_settingsKey (k : Knob) : SpellsPart k.settingsKey k.settingsKey.toList := by
  refine .bare ?_ ?_ <;> cases k <;> simp [Knob.settingsKey, maxPercentKey, minBytesKey, isKeyChar]

/-- Twenty percent in hexadecimal digits, and four kibibytes with a point in them. -/
def spelledTokens : Knob → Option (List Char)
  | .maxPercent => some "0x14".toList
  | .minBytes => some "4_0.96e+2".toList

def belowHeader : String :=
  "\ufeff# limits\r\n[ \"thresholds\" ]\n'min_bytes' = 4_0.96e+2\t# bytes\n\n\"max\\u005fpct\"=0x14"

def behindDots : String := "thresholds.max_pct = 0x14\nthresholds . 'min_bytes' = 4_0.96e+2\n"

def inBraces : String := "thresholds = \x7b min_bytes = 4_0.96e+2, max_pct = 0x14 \x7d"

def spelledMeaning : Knob → Option Extended
  | .maxPercent => some (Binary64.number 20)
  | .minBytes => some (Binary64.number 4096)

theorem denotes_hexadecimal : Denotes "0x14".toList (some (Binary64.number 20)) := by
  have hdigits : Spaced (isDigitOf 16) ['1', '4'] ['1', '4'] := .next rfl (.one rfl)
  have h := Denotes.prefixed .hexadecimal hdigits (by decide)
  have hvalue : valueOfDigits 16 ['1', '4'] = 20 := by rfl
  rwa [hvalue, nearest_natCast (by decide)] at h

theorem denotes_float : Denotes "4_0.96e+2".toList (some (Binary64.number 4096)) := by
  have hwhole : SpacedWhole ['4', '0'] ['4', '_', '0'] := ⟨.separated rfl (.one rfl), .inr (by decide)⟩
  have hfraction : SpellsFraction ['9', '6'] ['.', '9', '6'] := .some (.next rfl (.one rfl))
  have hplus : Json.IsSign ['+'] := .inr (.inl rfl)
  have hdigits : Spaced Char.isDigit ['2'] ['2'] := .one rfl
  have hexponent : SpellsExponent (Decimal.signedInt ['+'] ['2']) ['e', '+', '2'] := .some (.inl rfl) hplus hdigits
  have hvalue : nearest (Decimal.Numeral.rational ⟨false, 4096, 0⟩) = Binary64.number (4096 : ℕ) := by
    rw [← nearest_natCast (by decide)]
    norm_num [Decimal.Numeral.rational, Decimal.sign, signed]
  have htop : nearest (Decimal.Numeral.rational ⟨false, 4096, 0⟩) ≠ ⊤ := by
    rw [hvalue]
    exact (number_lt_top _).ne
  have hsign : Json.IsSign [] := .inl rfl
  have h := Denotes.float hsign hwhole hfraction hexponent (by simp) htop
  exact hvalue ▸ h

theorem denotes_spelledTokens : ∀ k token, spelledTokens k = some token → Denotes token (spelledMeaning k)
  | .maxPercent, _, h => Option.some.inj h ▸ denotes_hexadecimal
  | .minBytes, _, h => Option.some.inj h ▸ denotes_float

theorem isToken_hexadecimal : IsToken "0x14".toList := isToken_of_denotes denotes_hexadecimal

theorem isToken_float : IsToken "4_0.96e+2".toList := isToken_of_denotes denotes_float

theorem behindDots_spells : Spells spelledTokens behindDots.toList := by
  have hremark : IsRemark [] := .none .nil
  refine ⟨[(.maxPercent, "0x14".toList), (.minBytes, "4_0.96e+2".toList)], _, by simp, ?_, .dotted, ?_⟩
  · rintro (_ | _) token <;> simp [spelledTokens, eq_comm]
  · have hliteral : SpellsPart minBytesKey _ := .literal (by simp [minBytesKey, isPlain])
    have hfirst : SpellsPair ⟨[thresholdsKey], maxPercentKey⟩ "0x14".toList _ :=
      .mk (.more bare_thresholdsKey IsSpaces.nil IsSpaces.nil (.one (bare_settingsKey .maxPercent)))
        IsSpaces.blank IsSpaces.blank
    have hsecond : SpellsPair ⟨[thresholdsKey], minBytesKey⟩ "4_0.96e+2".toList _ :=
      .mk (.more bare_thresholdsKey IsSpaces.blank IsSpaces.blank (.one hliteral)) IsSpaces.blank IsSpaces.blank
    have hrows := SpellsRows.row .nil (.pair isToken_hexadecimal hfirst) hremark .lineFeed
      (.row .nil (.pair isToken_float hsecond) hremark .lineFeed (.lastBlank hremark))
    exact .plain hrows

theorem inBraces_spells : Spells spelledTokens inBraces.toList := by
  have hremark : IsRemark [] := .none .nil
  refine ⟨[(.minBytes, "4_0.96e+2".toList), (.maxPercent, "0x14".toList)], _, by simp, ?_, .braces, ?_⟩
  · rintro (_ | _) token <;> simp [spelledTokens, eq_comm]
  · have hfirst : SpellsPair ⟨[], minBytesKey⟩ "4_0.96e+2".toList _ :=
      .mk (.one (bare_settingsKey .minBytes)) IsSpaces.blank IsSpaces.blank
    have hsecond : SpellsPair ⟨[], maxPercentKey⟩ "0x14".toList _ :=
      .mk (.one (bare_settingsKey .maxPercent)) IsSpaces.blank IsSpaces.blank
    have hlast := SpellsMembers.last isToken_hexadecimal .blank hsecond .blank
    have hmembers := SpellsBraces.members (.more isToken_float .blank hfirst .nil hlast)
    have hrow : SpellsRow (.braces ⟨[], thresholdsKey⟩ _) _ :=
      .braces hmembers (.mk (.one bare_thresholdsKey) IsSpaces.blank IsSpaces.blank)
    exact .plain (.last .nil hrow hremark)

theorem plain_append {pre cs t : List Char} (hpre : ∀ c ∈ pre, isPlain c = true ∧ c ≠ '"' ∧ c ≠ '\\')
    (h : SpellsChars cs t) : SpellsChars (pre ++ cs) (pre ++ t) := by
  induction pre with
  | nil => exact h
  | cons c pre ih =>
    obtain ⟨⟨hplain, hquote, hback⟩, htail⟩ := List.forall_mem_cons.mp hpre
    exact .plain hplain hquote hback (ih htail)

theorem belowHeader_spells : Spells spelledTokens belowHeader.toList := by
  have hremark : IsRemark [] := .none .nil
  refine ⟨[(.minBytes, "4_0.96e+2".toList), (.maxPercent, "0x14".toList)], _, by simp, ?_, .header, ?_⟩
  · rintro (_ | _) token <;> simp [spelledTokens, eq_comm]
  · have hcomment : IsRemark ([] ++ '#' :: " limits".toList) := .comment .nil (by simp [isPlain])
    have hbehind : IsRemark (['\t'] ++ '#' :: " bytes".toList) := .comment (by simp [IsSpaces, isSpace]) (by simp [isPlain])
    have htable : SpellsPart thresholdsKey "\"thresholds\"".toList := by
      refine .basic (t := "thresholds".toList) ?_
      have hchars : SpellsChars ("thresholds".toList ++ []) _ := plain_append (by simp [isPlain]) .nil
      simpa [thresholdsKey] using hchars
    have hmax : SpellsPart maxPercentKey "\"max\\u005fpct\"".toList := by
      refine .basic (t := "max\\u005fpct".toList) ?_
      have htail : SpellsChars ("pct".toList ++ []) _ := plain_append (by simp [isPlain]) .nil
      have hcode : SpellsChars ('_' :: ("pct".toList ++ [])) ('\\' :: 'u' :: ("005f".toList ++ _)) := .code rfl rfl htail
      have hchars : SpellsChars ("max".toList ++ _) _ := plain_append (by simp [isPlain]) hcode
      simpa [maxPercentKey] using hchars
    have hmin : SpellsPart minBytesKey "'min_bytes'".toList := .literal (by simp [minBytesKey, isPlain])
    have hheader : SpellsRow (.header ⟨[], thresholdsKey⟩) _ := .header IsSpaces.blank (.one htable) IsSpaces.blank
    have hfirst : SpellsPair ⟨[], minBytesKey⟩ "4_0.96e+2".toList _ := .mk (.one hmin) IsSpaces.blank IsSpaces.blank
    have hsecond : SpellsPair ⟨[], maxPercentKey⟩ "0x14".toList _ := .mk (.one hmax) IsSpaces.nil IsSpaces.nil
    have hlast := SpellsRows.last .nil (.pair isToken_hexadecimal hsecond) hremark
    have hrows := SpellsRows.row .nil (.pair isToken_float hfirst) hbehind .lineFeed (.blank hremark .lineFeed hlast)
    have hdocument : SpellsDocument _ _ := .marked (.blank hcomment .both (.row .nil hheader hremark .lineFeed hrows))
    simpa [belowHeader, Knob.settingsKey] using hdocument

theorem chosen_by_three_spellings : ∃ c x y, c = ⟨some x, some y⟩ ∧ value? x = some (Binary64.number 20) ∧
    value? y = some (Binary64.number 4096) ∧ ofText belowHeader = .ok c ∧ ofText behindDots = .ok c ∧
    ofText inBraces = .ok c := by
  obtain ⟨c, _, hsome, hall⟩ := chosen_by_any_spelling denotes_spelledTokens
  obtain ⟨x, hx, hx20⟩ := hsome .maxPercent _ rfl
  obtain ⟨y, hy, hy4096⟩ := hsome .minBytes _ rfl
  refine ⟨c, x, y, ?_, hx20, hy4096, hall _ belowHeader_spells, hall _ behindDots_spells, hall _ inBraces_spells⟩
  obtain ⟨_, _⟩ := c
  obtain rfl := hx
  obtain rfl := hy
  rfl

end PagingGate.Settings
