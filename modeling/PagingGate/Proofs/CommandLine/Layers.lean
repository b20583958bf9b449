import PagingGate.Proofs.CommandLine.Items
import PagingGate.Proofs.Endings

set_option autoImplicit false

/-!
# Where the thresholds come from

Each of the two numbers is taken, apart from the other, from the first of four layers that has it: the options of the
command line, the environment, the settings file, the defaults. What stands in the layers below does not matter, not
even whether it is a number.
-/

namespace PagingGate

open CommandLine (Accepted Draft Environment Gives Item Misuse Parameter Request Spell)

inductive Knob where
  | maxPercent
  | minBytes
  deriving DecidableEq

namespace Knob

def parameter : Knob → Parameter
  | maxPercent => .maxPercent
  | minBytes => .minBytes

def variableName : Knob → String
  | maxPercent => Thresholds.maxPercentVariable
  | minBytes => Thresholds.minBytesVariable

def preset : Knob → Float
  | maxPercent => 20
  | minBytes => 4096

def fault : Knob → Thresholds.Fault
  | maxPercent => .maxPercentNaN
  | minBytes => .minBytesNaN

def given (d : Draft) : Knob → Option Float
  | maxPercent => d.maxPercent
  | minBytes => d.minBytes

def chosen (c : ThresholdChoice) : Knob → Option Float
  | maxPercent => c.maxPercent
  | minBytes => c.minBytes

def value (t : Thresholds) : Knob → Float
  | maxPercent => t.maxPercent
  | minBytes => t.minBytes

def judged (v : Verdict) : Knob → Float
  | maxPercent => v.threshold
  | minBytes => v.minBytes

end Knob

/-- What a run takes its thresholds from. -/
structure Sources where
  items : List Item
  env : Environment
  file : ThresholdChoice

namespace Sources

/-- The option stands on the command line with this text. -/
def Flag (s : Sources) (k : Knob) (text : String) : Prop := ∃ joined, .option k.parameter text joined ∈ s.items

/-- The variable is set to this text, and the option is absent. -/
def Variable (s : Sources) (k : Knob) (text : String) : Prop :=
  (∀ text', ¬ s.Flag k text') ∧ s.env k.variableName = some text

/-- Neither the option nor the variable is there. -/
def Unset (s : Sources) (k : Knob) : Prop := (∀ text', ¬ s.Flag k text') ∧ s.env k.variableName = none

inductive Selects (s : Sources) (k : Knob) : Float → Prop where
  | flag {text x} : s.Flag k text → Decimal.readFloat? text.toList = some x → Selects s k x
  | environment {text x} : s.Variable k text → Decimal.readFloat? text.toList = some x → Selects s k x
  | file {x} : s.Unset k → k.chosen s.file = some x → Selects s k x
  | preset : s.Unset k → k.chosen s.file = none → Selects s k k.preset

/-- The sources say the same of one number. -/
structure Agree (s s' : Sources) (k : Knob) : Prop where
  flag_iff : ∀ text, s.Flag k text ↔ s'.Flag k text
  variable_eq : s.env k.variableName = s'.env k.variableName
  file_eq : k.chosen s.file = k.chosen s'.file

theorem Agree.selects {s s' : Sources} {k : Knob} {x : Float} (h : s.Agree s' k) (hx : s.Selects k x) :
    s'.Selects k x := by
  have hflag : ∀ text, ¬ s.Flag k text → ¬ s'.Flag k text := fun text hn hf => hn ((h.flag_iff text).mpr hf)
  cases hx with
  | flag hf hread => exact .flag ((h.flag_iff _).mp hf) hread
  | environment hv hread => exact .environment ⟨fun text' => hflag text' (hv.1 text'), h.variable_eq ▸ hv.2⟩ hread
  | file hu hx => exact .file ⟨fun text' => hflag text' (hu.1 text'), h.variable_eq ▸ hu.2⟩ (h.file_eq ▸ hx)
  | preset hu hx => exact .preset ⟨fun text' => hflag text' (hu.1 text'), h.variable_eq ▸ hu.2⟩ (h.file_eq ▸ hx)

def upper (d : Draft) (env : Environment) (k : Knob) : Except Misuse (Option Float) :=
  CommandLine.readVariable k.parameter (k.given d) (env k.variableName)

variable {s : Sources} {d : Draft} {k : Knob} {x : Float} {text : String}

theorem readNumber_toOption (p : Parameter) (text : String) :
    (CommandLine.readNumber p text).toOption = Decimal.readFloat? text.toList := by
  unfold CommandLine.readNumber
  cases Decimal.readFloat? text.toList <;> rfl

theorem given_eq_some_iff (h : Gives s.items d) :
    k.given d = some x ↔ ∃ text, s.Flag k text ∧ Decimal.readFloat? text.toList = some x := by
  cases k with
  | maxPercent =>
    have hget := h.get_iff .maxPercent x
    simp only [Parameter.value?, readNumber_toOption, exists_and_right] at hget
    exact hget
  | minBytes =>
    have hget := h.get_iff .minBytes x
    simp only [Parameter.value?, readNumber_toOption, exists_and_right] at hget
    exact hget

theorem given_isSome_iff (h : Gives s.items d) : (k.given d).isSome = true ↔ ∃ text, s.Flag k text := by
  cases k with
  | maxPercent => exact h.get_isSome_iff (p := .maxPercent)
  | minBytes => exact h.get_isSome_iff (p := .minBytes)

theorem not_flag_of_given (h : Gives s.items d) (hg : k.given d = none) (text : String) : ¬ s.Flag k text := by
  intro hf
  have := (given_isSome_iff h).mpr ⟨text, hf⟩
  rw [hg] at this
  cases this

theorem not_given_of_flag (h : Gives s.items d) (hf : ∀ text, ¬ s.Flag k text) : k.given d = none := by
  rw [← Option.isNone_iff_eq_none, ← Option.isSome_eq_false_iff, ← Bool.not_eq_true, given_isSome_iff h]
  rintro ⟨text, hflag⟩
  exact hf text hflag

theorem upper_of_flag (h : Gives s.items d) (hf : s.Flag k text) (hx : Decimal.readFloat? text.toList = some x) :
    upper d s.env k = .ok (some x) := by
  rw [upper, (given_eq_some_iff h).mpr ⟨text, hf, hx⟩]
  rfl

theorem upper_of_variable (h : Gives s.items d) (hv : s.Variable k text) :
    upper d s.env k = (CommandLine.readNumber k.parameter text).map some := by
  rw [upper, not_given_of_flag h hv.1, hv.2]
  rfl

theorem upper_of_unset (h : Gives s.items d) (hu : s.Unset k) : upper d s.env k = .ok none := by
  rw [upper, not_given_of_flag h hu.1, hu.2]
  rfl

theorem upper_cases (h : Gives s.items d) (k : Knob) :
    (∃ text x, s.Flag k text ∧ Decimal.readFloat? text.toList = some x) ∨ (∃ text, s.Variable k text) ∨ s.Unset k := by
  cases hg : k.given d with
  | some x =>
    obtain ⟨text, hf, hx⟩ := (given_eq_some_iff h).mp hg
    exact Or.inl ⟨text, x, hf, hx⟩
  | none =>
    cases henv : s.env k.variableName with
    | some text => exact Or.inr (Or.inl ⟨text, not_flag_of_given h hg, henv⟩)
    | none => exact Or.inr (Or.inr ⟨not_flag_of_given h hg, henv⟩)

theorem upper_eq_error_iff (h : Gives s.items d) {m : Misuse} : upper d s.env k = .error m ↔
    ∃ text, s.Variable k text ∧ Decimal.readFloat? text.toList = none ∧ m = .notANumber k.parameter text := by
  constructor
  · intro hm
    rcases upper_cases h k with ⟨text, x, hf, hx⟩ | ⟨text, hv⟩ | hu
    · rw [upper_of_flag h hf hx] at hm
      cases hm
    · rw [upper_of_variable h hv, CommandLine.readNumber] at hm
      cases hx : Decimal.readFloat? text.toList with
      | some x => simp [hx] at hm
      | none => exact ⟨text, hv, hx, by simpa [hx, eq_comm] using hm⟩
    · rw [upper_of_unset h hu] at hm
      cases hm
  · rintro ⟨text, hv, hx, rfl⟩
    rw [upper_of_variable h hv, CommandLine.readNumber, hx]
    rfl

theorem selects_iff (h : Gives s.items d) : s.Selects k x ↔
    ∃ o, upper d s.env k = .ok o ∧ x = (o.or (k.chosen s.file)).getD k.preset := by
  constructor
  · intro hx
    cases hx with
    | flag hf hx => exact ⟨_, upper_of_flag h hf hx, rfl⟩
    | environment hv hx =>
      refine ⟨some x, ?_, rfl⟩
      rw [upper_of_variable h hv, CommandLine.readNumber, hx]
      rfl
    | file hu hx => exact ⟨_, upper_of_unset h hu, by rw [hx]; rfl⟩
    | preset hu hx => exact ⟨_, upper_of_unset h hu, by rw [hx]; rfl⟩
  · rintro ⟨o, ho, rfl⟩
    rcases upper_cases h k with ⟨text, x, hf, hx⟩ | ⟨text, hv⟩ | hu
    · rw [upper_of_flag h hf hx] at ho
      obtain rfl := Except.ok.inj ho
      exact .flag hf hx
    · rw [upper_of_variable h hv, CommandLine.readNumber] at ho
      cases hx : Decimal.readFloat? text.toList with
      | some x =>
        simp only [hx, Except.ok_map, Except.ok.injEq] at ho
        subst ho
        exact .environment hv hx
      | none => simp [hx] at ho
    · rw [upper_of_unset h hu] at ho
      obtain rfl := Except.ok.inj ho
      cases hx : k.chosen s.file with
      | some x => exact .file hu hx
      | none => exact .preset hu hx

theorem Selects.unique {y : Float} (h : Gives s.items d) (hx : s.Selects k x) (hy : s.Selects k y) : x = y := by
  obtain ⟨o, ho, rfl⟩ := (selects_iff h).mp hx
  obtain ⟨o', ho', rfl⟩ := (selects_iff h).mp hy
  obtain rfl := Except.ok.inj (ho.symm.trans ho')
  rfl

end Sources

theorem Knob.value_select (layers : List ThresholdChoice) (k : Knob) :
    k.value (Thresholds.select layers) = (layers.findSome? k.chosen).getD k.preset := by
  cases k <;> rfl

theorem Thresholds.validate_eq_ok_iff {t : Thresholds} : t.validate = .ok () ↔ ∀ k : Knob, (k.value t).isNaN = false := by
  unfold validate
  constructor
  · intro h k
    split_ifs at h with hp hb
    cases k with
    | maxPercent => exact Bool.not_eq_true _ ▸ hp
    | minBytes => exact Bool.not_eq_true _ ▸ hb
  · intro h
    have hp : t.maxPercent.isNaN = false := h .maxPercent
    have hb : t.minBytes.isNaN = false := h .minBytes
    rw [hp, hb]
    rfl

theorem Thresholds.validate_eq_error {t : Thresholds} {fault : Fault} (h : t.validate = .error fault) :
    ∃ k : Knob, (k.value t).isNaN = true ∧ fault = k.fault := by
  unfold validate at h
  split_ifs at h with hp hb
  · exact ⟨.maxPercent, hp, (Except.error.inj h).symm⟩
  · exact ⟨.minBytes, hb, (Except.error.inj h).symm⟩

theorem Thresholds.resolve_eq_ok_iff {layers : List ThresholdChoice} {t : Thresholds} :
    resolve layers = .ok t ↔ t = select layers ∧ ∀ k : Knob, (k.value t).isNaN = false := by
  rw [← validate_eq_ok_iff, resolve, Except.bind_eq_ok]
  constructor
  · rintro ⟨_, hvalid, ht⟩
    obtain rfl := Except.ok.inj ht
    exact ⟨rfl, hvalid⟩
  · rintro ⟨rfl, hvalid⟩
    exact ⟨(), hvalid, rfl⟩

theorem Thresholds.resolve_eq_error {layers : List ThresholdChoice} {fault : Fault} (h : resolve layers = .error fault) :
    ∃ k : Knob, (k.value (select layers)).isNaN = true ∧ fault = k.fault := by
  rw [resolve] at h
  cases hvalid : (select layers).validate with
  | ok u => simp [hvalid] at h
  | error fault' =>
    rw [hvalid, Except.error_bind] at h
    exact Except.error.inj h ▸ validate_eq_error hvalid

def CommandLine.Draft.request (d : Draft) (choice : ThresholdChoice) : Request where
  root := d.root.getD (.ofString CommandLine.defaultRoot)
  output := d.output.getD (.ofString CommandLine.defaultOutput)
  thresholds := choice
  config := d.config
  format := d.format.getD .markdown
  debug := d.debug

section
variable {words : List String} {env : Environment} {d : Draft} {request : Request}

theorem CommandLine.read_eq (hd : CommandLine.readWords words = .ok d) : CommandLine.read words env = (do
    let a ← (Sources.upper d env .maxPercent).mapError .misuse
    let b ← (Sources.upper d env .minBytes).mapError .misuse
    pure (d.request ⟨a, b⟩)) := by
  rw [CommandLine.read, hd]
  rfl

theorem CommandLine.read_eq_ok_iff (hd : CommandLine.readWords words = .ok d) : CommandLine.read words env = .ok request ↔
    (∀ k, Sources.upper d env k = .ok (k.chosen request.thresholds)) ∧ request = d.request request.thresholds := by
  rw [read_eq hd]
  constructor
  · intro h
    obtain ⟨_, ha, h⟩ := Except.bind_eq_ok.mp h
    obtain ⟨_, hb, h⟩ := Except.bind_eq_ok.mp h
    obtain rfl := Except.ok.inj h
    refine ⟨fun k => ?_, rfl⟩
    cases k with
    | maxPercent => exact Except.mapError_eq_ok.mp ha
    | minBytes => exact Except.mapError_eq_ok.mp hb
  · rintro ⟨hupper, hrequest⟩
    rw [hupper .maxPercent, hupper .minBytes]
    exact congrArg Except.ok hrequest.symm

theorem CommandLine.read_eq_error {stop : CommandLine.Stop} (hd : CommandLine.readWords words = .ok d)
    (h : CommandLine.read words env = .error stop) : ∃ k m, Sources.upper d env k = .error m ∧ stop = .misuse m := by
  rw [read_eq hd] at h
  cases ha : Sources.upper d env .maxPercent with
  | error m =>
    rw [ha, Except.error_mapError, Except.error_bind] at h
    exact ⟨.maxPercent, m, ha, (Except.error.inj h).symm⟩
  | ok a =>
    cases hb : Sources.upper d env .minBytes with
    | error m =>
      rw [ha, hb, Except.ok_mapError, Except.ok_bind, Except.error_mapError, Except.error_bind] at h
      exact ⟨.minBytes, m, hb, (Except.error.inj h).symm⟩
    | ok b => simp [ha, hb] at h

end

/-- What the content of a settings file chooses, or why it cannot be taken. -/
inductive Chooses (path : Path) : Content → Except ConfigurationFault ThresholdChoice → Prop where
  | chosen {bytes text choice} : Text.decode? bytes = some text → Settings.ofText (String.ofList text) = .ok choice →
      Chooses path (.ok bytes) (.ok choice)
  | refused {bytes text e} : Text.decode? bytes = some text → Settings.ofText (String.ofList text) = .error e →
      Chooses path (.ok bytes) (.error (.refused path e))
  | notText {bytes} : Text.decode? bytes = none → Chooses path (.ok bytes) (.error (.unreadable path .invalidText))
  | unreadable {fault} : Chooses path (.error fault) (.error (.unreadable path fault))

/-- What the settings file says. Where none is asked for, it says nothing. -/
inductive SettingsAre (t : FileTree) (items : List Item) : Except ConfigurationFault ThresholdChoice → Prop where
  | absent : (∀ text joined, Item.option .config text joined ∉ items) → SettingsAre t items (.ok ⟨none, none⟩)
  | given {text joined r} : .option .config text joined ∈ items → Chooses (.ofString text) (t.read (.ofString text)) r →
      SettingsAre t items r

theorem Chooses.readSettings_eq {path : Path} {content : Content} {r : Except ConfigurationFault ThresholdChoice}
    (h : Chooses path content r) : readSettings path content = r := by
  unfold readSettings textOf
  cases h with
  | chosen hd hs => simp only [hd, hs, Except.ok_mapError]
  | refused hd hs => simp only [hd, hs, Except.error_mapError]
  | notText hd => simp only [hd]
  | unreadable => rfl

theorem exists_chooses (path : Path) (content : Content) : ∃ r, Chooses path content r := by
  cases content with
  | error fault => exact ⟨_, .unreadable⟩
  | ok bytes =>
    cases hd : Text.decode? bytes with
    | none => exact ⟨_, .notText hd⟩
    | some text =>
      cases hs : Settings.ofText (String.ofList text) with
      | error e => exact ⟨_, .refused hd hs⟩
      | ok choice => exact ⟨_, .chosen hd hs⟩

theorem readSettings_eq_iff {path : Path} {content : Content} {r : Except ConfigurationFault ThresholdChoice} :
    readSettings path content = r ↔ Chooses path content r := by
  refine ⟨fun h => ?_, Chooses.readSettings_eq⟩
  obtain ⟨r', hr'⟩ := exists_chooses path content
  rwa [← h, hr'.readSettings_eq]

section
variable {t : FileTree} {items : List Item} {d : Draft} {request : Request}

theorem config_eq_some {text : String} {joined : Bool} (h : Gives items d)
    (hmem : .option .config text joined ∈ items) : d.config = some (.ofString text) := by
  obtain ⟨path, hpath⟩ := Option.isSome_iff_exists.mp (h.readable _ hmem).1
  have hof : path = .ofString text := by
    simp only [Parameter.value?, CommandLine.readPath] at hpath
    split at hpath
    · cases hpath
    · exact (Option.some.inj hpath).symm
  exact hof ▸ (h.get_iff .config path).mpr ⟨text, joined, hmem, hpath⟩

theorem config_eq_none (h : Gives items d) (hmem : ∀ text joined, Item.option .config text joined ∉ items) :
    d.config = none := by
  rw [← Option.isNone_iff_eq_none, ← Option.isSome_eq_false_iff, ← Bool.not_eq_true]
  intro hsome
  obtain ⟨text, joined, hgiven⟩ := (h.get_isSome_iff (p := .config)).mp hsome
  exact hmem text joined hgiven

theorem resolve_of_settings_error {fault : ConfigurationFault} (h : Gives items d) (hconfig : request.config = d.config)
    (hs : SettingsAre t items (.error fault)) : request.resolve t.read = .error fault := by
  cases hs with
  | given hmem hchooses =>
    rw [Request.resolve, hconfig, config_eq_some h hmem, settingsLayer, readSettings_eq_iff.mpr hchooses]
    rfl

theorem resolve_of_settings {file : ThresholdChoice} (h : Gives items d) (hconfig : request.config = d.config)
    (hs : SettingsAre t items (.ok file)) : ∃ layers, (∀ k : Knob, layers.findSome? k.chosen = k.chosen file) ∧
      request.resolve t.read = (Thresholds.resolve (request.thresholds :: layers)).mapError .threshold := by
  cases hs with
  | absent hmem =>
    refine ⟨[], fun k => by cases k <;> rfl, ?_⟩
    rw [Request.resolve, hconfig, config_eq_none h hmem]
    rfl
  | given hmem hchooses =>
    refine ⟨[file], fun k => ?_, ?_⟩
    · rw [List.findSome?_singleton]
    · rw [Request.resolve, hconfig, config_eq_some h hmem, settingsLayer, readSettings_eq_iff.mpr hchooses]
      rfl

end

/-- How a run comes by its thresholds. -/
structure FileTree.Loads (t : FileTree) (words : List String) (s : Sources) : Prop where
  /-- A variable that is looked at and is no number is misuse. -/
  misuse : ∀ k text, s.Variable k text → Decimal.readFloat? text.toList = none → ∃ k' text', s.Variable k' text' ∧
    Decimal.readFloat? text'.toList = none ∧
    CommandLine.read words s.env = .error (.misuse (.notANumber k'.parameter text'))
  request : (∀ k text, s.Variable k text → Decimal.readFloat? text.toList ≠ none) →
    ∃ request, CommandLine.read words s.env = .ok request
  /-- A settings file that cannot be taken is an error, whatever else is given. -/
  settings : ∀ request fault, CommandLine.read words s.env = .ok request → SettingsAre t s.items (.error fault) →
    request.resolve t.read = .error fault
  selected : ∀ request, CommandLine.read words s.env = .ok request → ∀ k, ∃ x, s.Selects k x ∧ ∀ y, s.Selects k y → y = x
  thresholds : ∀ request, CommandLine.read words s.env = .ok request → SettingsAre t s.items (.ok s.file) →
    ∀ thresholds, request.resolve t.read = .ok thresholds ↔
      ∀ k : Knob, s.Selects k (k.value thresholds) ∧ (k.value thresholds).isNaN = false
  refused : ∀ request, CommandLine.read words s.env = .ok request → SettingsAre t s.items (.ok s.file) →
    ((∃ fault, request.resolve t.read = .error fault) ↔ ∃ k x, s.Selects k x ∧ x.isNaN = true)
  reason : ∀ request fault, CommandLine.read words s.env = .ok request → SettingsAre t s.items (.ok s.file) →
    request.resolve t.read = .error fault → ∃ k x, s.Selects k x ∧ x.isNaN = true ∧ fault = .threshold k.fault
  /-- No verdict is reached with NaN. -/
  judged : ∀ request thresholds report v, t.Starts words s.env request thresholds → SettingsAre t s.items (.ok s.file) →
    t.outcome ⟨request.root, request.output, thresholds⟩ = .evaluated report v →
    ∀ k : Knob, s.Selects k (k.judged v) ∧ (k.judged v).isNaN = false

theorem Knob.value_ext {t t' : Thresholds} (h : ∀ k : Knob, k.value t = k.value t') : t = t' := by
  obtain ⟨a, b⟩ := t
  obtain ⟨a', b'⟩ := t'
  obtain rfl : a = a' := h .maxPercent
  obtain rfl : b = b' := h .minBytes
  rfl

theorem FileTree.judged_of_evaluated {t : FileTree} {o : GateOptions} {report : Path} {v : Verdict}
    (h : t.outcome o = .evaluated report v) (k : Knob) : k.judged v = k.value o.thresholds := by
  unfold outcome Outcome.ofDiscovery at h
  split at h
  · cases h
  · cases h
  · split at h
    · cases h
    · obtain ⟨_, rfl⟩ := Outcome.evaluated.inj h
      cases k <;> rfl

section
variable {t : FileTree} {words : List String} {s : Sources} {d : Draft} {request : Request}
  (hd : CommandLine.readWords words = .ok d)
include hd

theorem config_of_read {env : Environment} (hr : CommandLine.read words env = .ok request) :
    request.config = d.config := by
  rw [((CommandLine.read_eq_ok_iff hd).mp hr).2]
  rfl

variable (h : Gives s.items d)
include h

theorem read_eq_misuse {k : Knob} {text : String} (hv : s.Variable k text)
    (hx : Decimal.readFloat? text.toList = none) : ∃ k' text', s.Variable k' text' ∧
      Decimal.readFloat? text'.toList = none ∧
      CommandLine.read words s.env = .error (.misuse (.notANumber k'.parameter text')) := by
  cases hr : CommandLine.read words s.env with
  | ok request =>
    have hk := ((CommandLine.read_eq_ok_iff hd).mp hr).1 k
    rw [(Sources.upper_eq_error_iff h).mpr ⟨text, hv, hx, rfl⟩] at hk
    cases hk
  | error stop =>
    obtain ⟨k', m, hm, rfl⟩ := CommandLine.read_eq_error hd hr
    obtain ⟨text', hv', hx', rfl⟩ := (Sources.upper_eq_error_iff h).mp hm
    exact ⟨k', text', hv', hx', rfl⟩

theorem exists_request (hnumbers : ∀ k text, s.Variable k text → Decimal.readFloat? text.toList ≠ none) :
    ∃ request, CommandLine.read words s.env = .ok request := by
  cases hr : CommandLine.read words s.env with
  | ok request => exact ⟨request, rfl⟩
  | error stop =>
    obtain ⟨k, m, hm, _⟩ := CommandLine.read_eq_error hd hr
    obtain ⟨text, hv, hx, _⟩ := (Sources.upper_eq_error_iff h).mp hm
    exact absurd hx (hnumbers k text hv)

variable (hr : CommandLine.read words s.env = .ok request)
include hr

theorem selects_select {layers : List ThresholdChoice}
    (hl : ∀ k : Knob, layers.findSome? k.chosen = k.chosen s.file) (k : Knob) :
    s.Selects k (k.value (Thresholds.select (request.thresholds :: layers))) := by
  refine (Sources.selects_iff h).mpr ⟨_, ((CommandLine.read_eq_ok_iff hd).mp hr).1 k, ?_⟩
  rw [Knob.value_select, List.findSome?_cons, hl]
  cases k.chosen request.thresholds <;> rfl

theorem resolve_selected (hs : SettingsAre t s.items (.ok s.file)) :
    ∃ selected : Thresholds, (∀ k : Knob, s.Selects k (k.value selected)) ∧
      ((request.resolve t.read = .ok selected ∧ ∀ k : Knob, (k.value selected).isNaN = false) ∨
        ∃ k : Knob, request.resolve t.read = .error (.threshold k.fault) ∧ (k.value selected).isNaN = true) := by
  obtain ⟨layers, hl, hresolve⟩ := resolve_of_settings h (config_of_read hd hr) hs
  refine ⟨_, selects_select hd h hr hl, ?_⟩
  rw [hresolve]
  cases ht : Thresholds.resolve (request.thresholds :: layers) with
  | ok thresholds =>
    obtain ⟨rfl, hnan⟩ := Thresholds.resolve_eq_ok_iff.mp ht
    exact Or.inl ⟨rfl, hnan⟩
  | error fault =>
    obtain ⟨k, hnan, rfl⟩ := Thresholds.resolve_eq_error ht
    exact Or.inr ⟨k, rfl, hnan⟩

theorem resolve_eq_ok_iff_selects (hs : SettingsAre t s.items (.ok s.file)) (thresholds : Thresholds) :
    request.resolve t.read = .ok thresholds ↔
      ∀ k : Knob, s.Selects k (k.value thresholds) ∧ (k.value thresholds).isNaN = false := by
  obtain ⟨selected, hselects, ⟨hresolve, hnan⟩ | ⟨k, hresolve, hnan⟩⟩ := resolve_selected hd h hr hs
  · rw [hresolve, Except.ok.injEq]
    constructor
    · rintro rfl
      exact fun k => ⟨hselects k, hnan k⟩
    · exact fun hall => Knob.value_ext fun k => (hselects k).unique h (hall k).1
  · rw [hresolve]
    refine iff_of_false (fun h => nomatch h) fun hall => ?_
    rw [(hselects k).unique h (hall k).1, (hall k).2] at hnan
    cases hnan

theorem refuses_iff (hs : SettingsAre t s.items (.ok s.file)) :
    (∃ fault, request.resolve t.read = .error fault) ↔ ∃ k x, s.Selects k x ∧ x.isNaN = true := by
  obtain ⟨selected, hselects, ⟨hresolve, hnan⟩ | ⟨k, hresolve, hnan⟩⟩ := resolve_selected hd h hr hs
  · rw [hresolve]
    refine iff_of_false (fun ⟨_, h⟩ => nomatch h) ?_
    rintro ⟨k, x, hx, hxnan⟩
    rw [hx.unique h (hselects k), hnan k] at hxnan
    cases hxnan
  · exact iff_of_true ⟨_, hresolve⟩ ⟨k, _, hselects k, hnan⟩

end

theorem FileTree.loads {words : List String} {s : Sources} {d : Draft} (t : FileTree)
    (hd : CommandLine.readWords words = .ok d) (h : Gives s.items d) : t.Loads words s where
  misuse _ _ := read_eq_misuse hd h
  request := exists_request hd h
  settings _ _ hr := resolve_of_settings_error h (config_of_read hd hr)
  selected _ hr k := by
    have hx := (Sources.selects_iff h).mpr ⟨_, ((CommandLine.read_eq_ok_iff hd).mp hr).1 k, rfl⟩
    exact ⟨_, hx, fun y hy => hy.unique h hx⟩
  thresholds _ hr := resolve_eq_ok_iff_selects hd h hr
  refused _ hr := refuses_iff hd h hr
  reason _ fault hr hs hfault := by
    obtain ⟨selected, hselects, ⟨hresolve, hnan⟩ | ⟨k, hresolve, hnan⟩⟩ := resolve_selected hd h hr hs
    · rw [hresolve] at hfault
      cases hfault
    · rw [hresolve] at hfault
      exact ⟨k, _, hselects k, hnan, (Except.error.inj hfault).symm⟩
  judged request thresholds report v hstarts hs ho k := by
    rw [judged_of_evaluated ho k]
    exact (resolve_eq_ok_iff_selects hd h hstarts.read_eq hs thresholds).mp hstarts.resolve_eq k

/-- Each number of an accepted command line comes from its first layer, whatever the other number comes from. -/
theorem FileTree.loads_by_layers {words : List String} {s : Sources} (t : FileTree) (ha : Accepted s.items)
    (hw : Spell s.items words) : t.Loads words s ∧
      ∀ (t' : FileTree) (words' : List String) (s' : Sources) (request request' : Request)
        (thresholds thresholds' : Thresholds), Accepted s'.items → Spell s'.items words' →
        t.Starts words s.env request thresholds → SettingsAre t s.items (.ok s.file) →
        t'.Starts words' s'.env request' thresholds' → SettingsAre t' s'.items (.ok s'.file) →
        ∀ k, s.Agree s' k → k.value thresholds' = k.value thresholds := by
  obtain ⟨d, hg⟩ := ha.gives
  have hloads := t.loads (CommandLine.readWords_eq_ok_iff.mpr ⟨s.items, hg, hw⟩) hg
  refine ⟨hloads, fun t' words' s' request request' thresholds thresholds' ha' hw' hstarts hs hstarts' hs' k hk => ?_⟩
  obtain ⟨d', hg'⟩ := ha'.gives
  have hloads' := t'.loads (CommandLine.readWords_eq_ok_iff.mpr ⟨s'.items, hg', hw'⟩) hg'
  have hx := (hloads.thresholds request hstarts.read_eq hs thresholds).mp hstarts.resolve_eq k
  have hx' := (hloads'.thresholds request' hstarts'.read_eq hs' thresholds').mp hstarts'.resolve_eq k
  exact hx'.1.unique hg' (hk.selects hx.1)

def shadowingText : String := "[thresholds]\nmax_pct = nan\nmin_bytes = 1024\n"

def shadowingTree : FileTree :=
  ⟨[([Text.encode "gate.toml".toList], .file (Text.encode shadowingText.toList) ⟨1, 0⟩)]⟩

/-- The variable is no number, and the settings file has NaN. -/
def shadowing (nan : Float) : Sources where
  items := [.option .config "gate.toml" true, .option .maxPercent "12.5" false]
  env := fun name => if name = Thresholds.maxPercentVariable then some "lots" else none
  file := ⟨some nan, some 1024⟩

theorem shadowing_accepted (nan : Float) : Accepted (shadowing nan).items where
  readable := by
    simp only [shadowing, List.mem_cons, List.not_mem_nil, or_false, forall_eq_or_imp, forall_eq, Item.IsReadable]
    decide +kernel
  once := by
    change ([some Parameter.config, some Parameter.maxPercent] : List (Option Parameter)).Nodup
    decide

theorem shadowing_read : shadowingTree.read (.ofString "gate.toml") = .ok (Text.encode shadowingText.toList) := by cbv

theorem shadowing_settings : ∃ nan : Float, nan.isNaN = true ∧
    SettingsAre shadowingTree (shadowing nan).items (.ok (shadowing nan).file) := by
  have hread : ((readSettings (.ofString "gate.toml") (shadowingTree.read (.ofString "gate.toml"))).toOption.any fun c =>
      c.maxPercent.any (·.isNaN) && decide (c.minBytes = some 1024)) = true := by
    rw [shadowing_read, shadowingText]
    decide +kernel
  cases hr : readSettings (.ofString "gate.toml") (shadowingTree.read (.ofString "gate.toml")) with
  | error fault => simp [hr, Except.toOption] at hread
  | ok c =>
    obtain ⟨maxPercent, minBytes⟩ := c
    simp only [hr, Except.toOption, Option.any_some, Bool.and_eq_true, decide_eq_true_eq] at hread
    obtain ⟨hnan, rfl⟩ := hread
    cases maxPercent with
    | none => cases hnan
    | some nan => exact ⟨nan, hnan, .given List.mem_cons_self (readSettings_eq_iff.mp hr)⟩

theorem shadowing_loads : ∃ nan : Float, nan.isNaN = true ∧
    SettingsAre shadowingTree (shadowing nan).items (.ok (shadowing nan).file) ∧
    ∃ request, CommandLine.read ["--config=gate.toml", "--max-pct", "12.5"] (shadowing nan).env = .ok request ∧
      request.resolve shadowingTree.read = .ok ⟨12.5, 1024⟩ := by
  obtain ⟨nan, hnan, hs⟩ := shadowing_settings
  have hspell : Spell (shadowing nan).items ["--config=gate.toml", "--max-pct", "12.5"] := Or.inl rfl
  have hloads := (FileTree.loads_by_layers shadowingTree (shadowing_accepted nan) hspell).1
  have hflag : (shadowing nan).Flag .maxPercent "12.5" := ⟨false, by simp [shadowing, Knob.parameter]⟩
  have henv : (shadowing nan).env Knob.minBytes.variableName = none := by
    have hne : Thresholds.minBytesVariable ≠ Thresholds.maxPercentVariable := by decide
    simp [shadowing, Knob.variableName, hne]
  have hunset : (shadowing nan).Unset .minBytes := ⟨by simp [shadowing, Knob.parameter, Sources.Flag], henv⟩
  obtain ⟨request, hr⟩ := hloads.request (by
    rintro (_ | _) text hv
    · exact absurd hflag (hv.1 _)
    · exact absurd (hv.2.symm.trans hunset.2) (by simp))
  refine ⟨nan, hnan, hs, request, hr, (hloads.thresholds request hr hs _).mpr ?_⟩
  rintro (_ | _)
  · exact ⟨.flag hflag (by decide +kernel), by decide +kernel⟩
  · exact ⟨.file hunset rfl, by decide +kernel⟩

end PagingGate
