import PagingGate.Proofs.CommandLine.Layers
import PagingGate.Proofs.Settings

set_option autoImplicit false

namespace PagingGate

open CommandLine (Accepted Draft Environment Gives Item Parameter Reading Request Spell Word)

inductive Route where
  | nextWord
  | sameWord
  | environment
  deriving DecidableEq

def CommandLine.wordsOf (items : List Item) (closed : Bool) : List String :=
  items.flatMap Item.words ++ if closed then ["--"] else []

def CommandLine.Request.put (r : Request) (k : Knob) (x : Float) : Request :=
  { r with thresholds := k.put r.thresholds (some x) }

namespace Route

def items (k : Knob) (text : String) : Route → List Item
  | nextWord => [.option k.parameter text false]
  | sameWord => [.option k.parameter text true]
  | environment => []

def env (k : Knob) (text : String) (env : Environment) : Route → Environment
  | nextWord | sameWord => env
  | environment => Function.update env k.variableName (some text)

end Route

namespace CommandLine

section
variable {items items' before after : List Item} {item : Item} {d d' : Draft} {k : Knob} {text : String}
  {env env' : Environment} {x : Float}

theorem spell_wordsOf (items : List Item) (closed : Bool) : Spell items (wordsOf items closed) := by
  cases closed with
  | false => exact Or.inl (List.append_nil _)
  | true => exact Or.inr rfl

theorem Accepted.sublist (ha : Accepted items) (hsub : items'.Sublist items) : Accepted items' :=
  ⟨fun i hi => ha.readable i (hsub.subset hi), ha.once.sublist (hsub.map _)⟩

theorem Accepted.others (ha : Accepted (before ++ item :: after)) : Accepted (before ++ after) :=
  ha.sublist ((List.Sublist.refl before).append (List.sublist_cons_self item after))

theorem Accepted.not_mem_others (ha : Accepted (before ++ item :: after)) :
    item.parameter? ∉ (before ++ after).map Item.parameter? := by
  have honce := ha.once
  rw [List.map_append, List.map_cons, List.nodup_middle, List.nodup_cons] at honce
  rw [List.map_append]
  exact honce.1

theorem Accepted.in_next_word (ha : Accepted (before ++ .option k.parameter text true :: after))
    (hplain : Word.ofString text = .plain text) : Accepted (before ++ .option k.parameter text false :: after) := by
  refine ⟨fun i hi => ?_, ?_⟩
  · rcases List.mem_append.mp hi with hi | hi
    · exact ha.readable i (List.mem_append_left _ hi)
    rcases List.mem_cons.mp hi with rfl | hi
    · exact ⟨(ha.readable (.option k.parameter text true) (by simp)).1, fun _ => hplain⟩
    · exact ha.readable i (List.mem_append_right _ (List.mem_cons_of_mem _ hi))
  · have honce := ha.once
    rw [List.map_append, List.map_cons] at honce ⊢
    exact honce

theorem Accepted.number (ha : Accepted items) {joined : Bool} (hmem : .option k.parameter text joined ∈ items) :
    ∃ x, Decimal.readFloat? text.toList = some x := by
  have hsome := (ha.readable _ hmem).1
  rw [← Option.isSome_iff_exists]
  cases k with
  | maxPercent => rwa [Knob.parameter, Parameter.value?, Sources.readNumber_toOption] at hsome
  | minBytes => rwa [Knob.parameter, Parameter.value?, Sources.readNumber_toOption] at hsome

/-- Two drafts say the same, but for one threshold. -/
structure Draft.Beside (k : Knob) (d d' : Draft) : Prop where
  get_eq : ∀ q, q ≠ k.parameter → d'.get q = d.get q
  debug_eq : d'.debug = d.debug

theorem Knob.parameter_injective {j k : Knob} (h : j.parameter = k.parameter) : j = k := by
  revert h
  cases j <;> cases k <;> decide

theorem Draft.Beside.request_eq (h : d.Beside k d') (c : ThresholdChoice) : d'.request c = d.request c := by
  have hroot : d'.root = d.root := h.get_eq .root (by cases k <;> decide)
  have houtput : d'.output = d.output := h.get_eq .output (by cases k <;> decide)
  have hconfig : d'.config = d.config := h.get_eq .config (by cases k <;> decide)
  have hformat : d'.format = d.format := h.get_eq .format (by cases k <;> decide)
  rw [Draft.request, Draft.request, hroot, houtput, hconfig, hformat, h.debug_eq]

theorem Draft.Beside.given_eq (h : d.Beside k d') {j : Knob} (hj : j ≠ k) : j.given d' = j.given d := by
  have hget := h.get_eq j.parameter fun hp => hj (Knob.parameter_injective hp)
  cases j with
  | maxPercent => exact hget
  | minBytes => exact hget

theorem Gives.beside {joined : Bool} (h : Gives (before ++ after) d)
    (h' : Gives (before ++ .option k.parameter text joined :: after) d') : d.Beside k d' where
  get_eq q hq := by
    refine Option.ext fun y => ?_
    rw [h'.get_iff, h.get_iff]
    simp [hq]
  debug_eq := by
    rw [Bool.eq_iff_iff, h'.debug_iff, h.debug_iff]
    simp

theorem read_eq_map_put {words words' : List String} (hd : readWords words = .ok d) (hd' : readWords words' = .ok d')
    (hbeside : d.Beside k d') (hself : Sources.upper d' env' k = .ok (some x)) (hnone : Sources.upper d env k = .ok none)
    (hother : ∀ j, j ≠ k → Sources.upper d' env' j = Sources.upper d env j) :
    read words' env' = (read words env).map (·.put k x) := by
  rw [read_eq hd, read_eq hd']
  cases k with
  | maxPercent =>
    rw [hself, hnone, hother .minBytes (by decide)]
    cases Sources.upper d env .minBytes with
    | error m => rfl
    | ok b => exact congrArg Except.ok (hbeside.request_eq _)
  | minBytes =>
    rw [hself, hnone, hother .maxPercent (by decide)]
    cases Sources.upper d env .maxPercent with
    | error m => rfl
    | ok a => exact congrArg Except.ok (hbeside.request_eq _)

theorem upper_update_other {j : Knob} (hj : j ≠ k) (hgiven : j.given d' = j.given d) (v w : Option String) :
    Sources.upper d' (Function.update env k.variableName v) j =
      Sources.upper d (Function.update env k.variableName w) j := by
  have hname : j.variableName ≠ k.variableName := by
    revert hj
    cases j <;> cases k <;> decide
  rw [Sources.upper, Sources.upper, hgiven, Function.update_of_ne hname, Function.update_of_ne hname]

theorem given_eq_none_of_others (ha : Accepted (before ++ .option k.parameter text true :: after))
    (h : Gives (before ++ after) d) : k.given d = none := by
  have hget : d.get k.parameter = none := h.get_eq_none_iff.mpr ha.not_mem_others
  cases k with
  | maxPercent => exact hget
  | minBytes => exact hget

theorem ofString_eq_plain {text : String} (h : text.toList.head? ≠ some '-') : Word.ofString text = .plain text := by
  unfold Word.ofString
  split
  · rename_i cs hcs
    exact absurd (by rw [hcs]; rfl) h
  · rename_i c cs hcs
    exact absurd (by rw [hcs]; rfl) h
  · rfl

theorem readFloat?_dash {c : Char} {cs : List Char} (hi : c.toLower ≠ 'i') (hn : c.toLower ≠ 'n')
    (hdigit : c.isDigit = false) (hpoint : c ≠ '.') : Decimal.readFloat? ('-' :: c :: cs) = none := by
  have hword : Decimal.readWord? true (c :: cs) = none := by
    simp [Decimal.readWord?, hi, hn]
  have hdigits : Decimal.readUnsigned? true (c :: cs) = none := by
    simp [Decimal.readUnsigned?, Decimal.splitDigits, hdigit, hpoint]
  change (Decimal.readWord? true (c :: cs)).or ((Decimal.readUnsigned? true (c :: cs)).map Decimal.Numeral.toFloat) = none
  rw [hword, hdigits]
  rfl

theorem take_dash {text : String} {r : Reading} (hread : Decimal.readFloat? text.toList = some x)
    (hdash : text.toList.head? = some '-') :
    text ≠ "--" ∧ r.take text = .error (.misuse (.unknown (String.ofList (text.toList.take 2)))) := by
  obtain ⟨rest, htext⟩ := List.head?_eq_some_iff.mp hdash
  cases rest with
  | nil =>
    rw [htext] at hread
    cases hread
  | cons c cs =>
    have hne : ∀ a : Char, a.toLower ≠ 'i' → a.toLower ≠ 'n' → a.isDigit = false → a ≠ '.' → c ≠ a := by
      rintro a hi hn hdigit hpoint rfl
      rw [htext, readFloat?_dash hi hn hdigit hpoint] at hread
      cases hread
    have hdashes : c ≠ '-' := hne _ (by decide) (by decide) (by decide) (by decide)
    have hshort : Word.ofString text = .short c := by
      rw [Word.ofString, htext]
      split
      · rename_i rest h
        exact absurd (List.cons.inj (List.cons.inj h).2).1 hdashes
      · rename_i a rest _ h
        rw [(List.cons.inj (List.cons.inj h).2).1]
      · rename_i h
        exact absurd rfl (h c cs)
    refine ⟨?_, ?_⟩
    · rintro rfl
      have hchars : ['-', '-'] = '-' :: c :: cs := htext
      exact hdashes (List.cons.inj (List.cons.inj hchars).2).1.symm
    · rw [Reading.take, hshort, htext]
      simp only [Reading.takeShort]
      rw [if_neg (hne _ (by decide) (by decide) (by decide) (by decide)),
        if_neg (hne _ (by decide) (by decide) (by decide) (by decide))]
      rfl

theorem read_dash_refused (ha : Accepted before) (hread : Decimal.readFloat? text.toList = some x)
    (hdash : text.toList.head? = some '-') (rest : List String) (env : Environment) :
    read (before.flatMap Item.words ++ ("--" ++ k.parameter.name) :: text :: rest) env =
      .error (.misuse (.unknown (String.ofList (text.toList.take 2)))) := by
  obtain ⟨r, d, hbefore, hs, -⟩ := Reading.takeAll_items ha
  obtain ⟨htext, htake⟩ := take_dash (r := ⟨d, some (k.parameter, none)⟩) hread hdash
  have hname := ne_dashes_of_ofString (ofString_option k.parameter) (by cases k <;> decide)
  have hopen : r.takeParameter k.parameter none = .ok ⟨d, some (k.parameter, none)⟩ :=
    Reading.takeParameter_eq_ok_iff.mpr ⟨d, hs, Or.inl ⟨rfl, rfl⟩⟩
  have hall : Reading.start.takeAll (before.flatMap Item.words ++ ("--" ++ k.parameter.name) :: text :: rest) =
      .error (.misuse (.unknown (String.ofList (text.toList.take 2)))) := by
    rw [hbefore, Reading.takeAll_cons hname (Reading.take_option hopen)]
    simp only [Reading.takeAll, if_neg htext, htake]
  rw [read, readWords, hall]
  rfl

theorem read_option {joined : Bool} (ha : Accepted (before ++ .option k.parameter text joined :: after))
    (hothers : Accepted (before ++ after)) (hnone : ∀ d, Gives (before ++ after) d → k.given d = none)
    (hx : Decimal.readFloat? text.toList = some x) (closed : Bool) :
    read (wordsOf (before ++ .option k.parameter text joined :: after) closed) env =
      (read (wordsOf (before ++ after) closed) (Function.update env k.variableName none)).map (·.put k x) := by
  obtain ⟨d, hg⟩ := hothers.gives
  obtain ⟨d', hg'⟩ := ha.gives
  have hbeside := hg.beside hg'
  have hflag : Sources.Flag ⟨before ++ .option k.parameter text joined :: after, env, ⟨none, none⟩⟩ k text :=
    ⟨joined, by simp⟩
  refine read_eq_map_put (readWords_eq_ok_iff.mpr ⟨_, hg, spell_wordsOf _ closed⟩)
    (readWords_eq_ok_iff.mpr ⟨_, hg', spell_wordsOf _ closed⟩) hbeside (Sources.upper_of_flag hg' hflag hx) ?_
    fun j hj => ?_
  · rw [Sources.upper, hnone d hg, Function.update_self]
    rfl
  · have hupdate : Sources.upper d' (Function.update env k.variableName (env k.variableName)) j = _ :=
      upper_update_other hj (hbeside.given_eq hj) _ none
    rwa [Function.update_eq_self] at hupdate

theorem read_variable (ha : Accepted items) (hnone : ∀ d, Gives items d → k.given d = none)
    (hx : Decimal.readFloat? text.toList = some x) (closed : Bool) :
    read (wordsOf items closed) (Function.update env k.variableName (some text)) =
      (read (wordsOf items closed) (Function.update env k.variableName none)).map (·.put k x) := by
  obtain ⟨d, hg⟩ := ha.gives
  have hd := readWords_eq_ok_iff.mpr ⟨_, hg, spell_wordsOf _ closed⟩
  refine read_eq_map_put hd hd ⟨fun _ _ => rfl, rfl⟩ ?_ ?_ fun j hj => upper_update_other hj rfl _ _
  · rw [Sources.upper, hnone d hg, Function.update_self]
    simp [readVariable, readNumber, hx]
  · rw [Sources.upper, hnone d hg, Function.update_self]
    rfl

theorem exists_read_others (ha : Accepted items) (hnone : ∀ d, Gives items d → k.given d = none)
    (hother : ∀ j v, j ≠ k → env j.variableName = some v → (Decimal.readFloat? v.toList).isSome = true) (closed : Bool) :
    ∃ request, read (wordsOf items closed) (Function.update env k.variableName none) = .ok request := by
  obtain ⟨d, hg⟩ := ha.gives
  have hd := readWords_eq_ok_iff.mpr ⟨_, hg, spell_wordsOf _ closed⟩
  cases hr : read (wordsOf items closed) (Function.update env k.variableName none) with
  | ok request => exact ⟨request, rfl⟩
  | error stop =>
    obtain ⟨j, m, hm, -⟩ := read_eq_error hd hr
    have hs : Gives (Sources.items ⟨items, Function.update env k.variableName none, ⟨none, none⟩⟩) d := hg
    obtain ⟨v, ⟨_, hset⟩, hread, -⟩ := (Sources.upper_eq_error_iff hs).mp hm
    have hv : Function.update env k.variableName none j.variableName = some v := hset
    have hj : j ≠ k := by
      rintro rfl
      rw [Function.update_self] at hv
      cases hv
    have hname : j.variableName ≠ k.variableName := by
      revert hj
      cases j <;> cases k <;> decide
    rw [Function.update_of_ne hname] at hv
    have := hother j v hj hv
    rw [hread] at this
    cases this

end

/-- A threshold that is a number gives the same request by every route. Only a text that begins with a dash is refused
in a word of its own. -/
theorem read_by_routes {k : Knob} {text : String} {before after : List Item} (closed : Bool) (env : Environment)
    (ha : Accepted (before ++ .option k.parameter text true :: after)) :
    ∃ x, Decimal.readFloat? text.toList = some x ∧
      (∀ r : Route, (r = .nextWord → text.toList.head? ≠ some '-') →
        read (wordsOf (before ++ r.items k text ++ after) closed) (r.env k text env) =
          (read (wordsOf (before ++ after) closed) (Function.update env k.variableName none)).map (·.put k x)) ∧
      ((∀ j v, j ≠ k → env j.variableName = some v → (Decimal.readFloat? v.toList).isSome = true) →
        ∃ request, read (wordsOf (before ++ after) closed) (Function.update env k.variableName none) = .ok request) ∧
      (text.toList.head? = some '-' → ∀ rest,
        read (before.flatMap Item.words ++ ("--" ++ k.parameter.name) :: text :: rest) env =
          .error (.misuse (.unknown (String.ofList (text.toList.take 2))))) := by
  have hmem : .option k.parameter text true ∈ before ++ .option k.parameter text true :: after := by simp
  obtain ⟨x, hx⟩ := ha.number hmem
  have hnone : ∀ d, Gives (before ++ after) d → k.given d = none := fun d => given_eq_none_of_others ha
  refine ⟨x, hx, fun r hr => ?_, fun hother => exists_read_others ha.others hnone hother closed, fun hdash rest => ?_⟩
  · rw [List.append_assoc]
    cases r with
    | nextWord => exact read_option (ha.in_next_word (ofString_eq_plain (hr rfl))) ha.others hnone hx closed
    | sameWord => exact read_option ha ha.others hnone hx closed
    | environment => exact read_variable ha.others hnone hx closed
  · exact read_dash_refused (ha.sublist (List.sublist_append_left _ _)) hx hdash rest env

theorem minBytes_by_routes : ∃ x, Decimal.readFloat? "1024".toList = some x ∧
    ∃ request : Request, read ["--debug", "--min-bytes", "1024", "--max-pct=-2.5", "--"]
      (Function.update (fun _ => none) Thresholds.minBytesVariable (some "lots")) = .ok (request.put .minBytes x) ∧
    read ["--debug", "--min-bytes=1024", "--max-pct=-2.5", "--"] (fun _ => none) = .ok (request.put .minBytes x) ∧
    read ["--debug", "--max-pct=-2.5", "--"]
      (Function.update (fun _ => none) Thresholds.minBytesVariable (some "1024")) = .ok (request.put .minBytes x) := by
  have ha : Accepted ([.debug] ++ .option Knob.minBytes.parameter "1024" true :: [.option .maxPercent "-2.5" true]) := by
    refine ⟨?_, by decide⟩
    simp only [List.cons_append, List.nil_append, List.mem_cons, List.not_mem_nil, or_false, forall_eq_or_imp, forall_eq,
      Item.IsReadable]
    decide +kernel
  obtain ⟨x, hx, hroute, hothers, -⟩ := read_by_routes true (fun _ => none) ha
  obtain ⟨y, hy, hroute', -⟩ :=
    read_by_routes true (Function.update (fun _ => none) Thresholds.minBytesVariable (some "lots")) ha
  obtain rfl := Option.some.inj (hx.symm.trans hy)
  obtain ⟨request, hrequest⟩ := hothers (fun _ _ _ h => by cases h)
  have hnext := hroute' .nextWord (fun _ => by decide)
  have hunset : Function.update (Function.update (fun _ => none : Environment) Thresholds.minBytesVariable (some "lots"))
      (Knob.variableName .minBytes) none = Function.update (fun _ => none) (Knob.variableName .minBytes) none :=
    Function.update_idem ..
  rw [hunset, hrequest] at hnext
  have hsame := hroute .sameWord (fun h => by cases h)
  have henv := hroute .environment (fun h => by cases h)
  rw [hrequest] at hsame henv
  exact ⟨x, hx, request, hnext, hsame, henv⟩

/-- A negative threshold has a meaning and is taken from two of the routes. -/
theorem negative_refused_in_next_word :
    (read ["--max-pct=-5"] (fun _ => none)).toOption.map (·.thresholds.maxPercent) = some (some (-5)) ∧
    (read [] (Function.update (fun _ => none) Thresholds.maxPercentVariable (some "-5"))).toOption.map
      (·.thresholds.maxPercent) = some (some (-5)) ∧
    read ["--max-pct", "-5"] (fun _ => none) = .error (.misuse (.unknown "-5")) := by
  refine ⟨by decide +kernel, by decide +kernel, ?_⟩
  have hnil : Accepted [] := ⟨by simp, List.nodup_nil⟩
  have hread : ∃ x, Decimal.readFloat? "-5".toList = some x := Option.isSome_iff_exists.mp (by decide +kernel)
  obtain ⟨x, hx⟩ := hread
  exact read_dash_refused (k := .maxPercent) hnil hx (by decide) [] _

end CommandLine
end PagingGate
