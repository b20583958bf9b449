import Mathlib
import PagingGate.CommandLine
import PagingGate.Except

set_option autoImplicit false

/-!
# The items of a command line

An accepted command line is a row of items, in any order: an option with its value in the same word or in the next
one, and the flag for debugging. No option comes twice. What is read from the words is what the items say.
-/

namespace PagingGate.CommandLine

def Parameter.Value : Parameter → Type
  | .root | .output | .config => Path
  | .maxPercent | .minBytes => Float
  | .format => Format

def Parameter.value? : (p : Parameter) → String → Option p.Value
  | .root, text => (readPath .root text).toOption
  | .output, text => (readPath .output text).toOption
  | .maxPercent, text => (readNumber .maxPercent text).toOption
  | .minBytes, text => (readNumber .minBytes text).toOption
  | .config, text => (readPath .config text).toOption
  | .format, text => (readFormat text).toOption

namespace Draft

def get (d : Draft) : (p : Parameter) → Option p.Value
  | .root => d.root
  | .output => d.output
  | .maxPercent => d.maxPercent
  | .minBytes => d.minBytes
  | .config => d.config
  | .format => d.format

theorem ext_get {d d' : Draft} (hget : ∀ p, d.get p = d'.get p) (hdebug : d.debug = d'.debug) : d = d' := by
  obtain ⟨a, b, c, e, f, g, h⟩ := d
  obtain ⟨a', b', c', e', f', g', h'⟩ := d'
  obtain rfl : a = a' := hget .root
  obtain rfl : b = b' := hget .output
  obtain rfl : c = c' := hget .maxPercent
  obtain rfl : e = e' := hget .minBytes
  obtain rfl : f = f' := hget .config
  obtain rfl : g = g' := hget .format
  obtain rfl : h = h' := hdebug
  rfl

@[simp] theorem get_empty (p : Parameter) : Draft.empty.get p = none := by
  cases p <;> rfl

def put (d : Draft) : (p : Parameter) → p.Value → Draft
  | .root, x => { d with root := some x }
  | .output, x => { d with output := some x }
  | .maxPercent, x => { d with maxPercent := some x }
  | .minBytes, x => { d with minBytes := some x }
  | .config, x => { d with config := some x }
  | .format, x => { d with format := some x }

@[simp] theorem get_put_self (d : Draft) (p : Parameter) (x : p.Value) : (d.put p x).get p = some x := by
  cases p <;> rfl

theorem get_put_other (d : Draft) {p q : Parameter} (h : q ≠ p) (x : p.Value) : (d.put p x).get q = d.get q := by
  cases p <;> cases q <;> first | rfl | exact absurd rfl h

@[simp] theorem debug_put (d : Draft) (p : Parameter) (x : p.Value) : (d.put p x).debug = d.debug := by
  cases p <;> rfl

theorem map_eq_ok_iff {ε α β : Type} {r : Except ε α} {f : α → β} {b : β} :
    r.map f = .ok b ↔ ∃ a, r.toOption = some a ∧ b = f a := by
  cases r <;> simp [Except.toOption, eq_comm]

theorem set_eq_ok_iff {d d' : Draft} {p : Parameter} {text : String} :
    d.set p text = .ok d' ↔ ∃ x, p.value? text = some x ∧ d' = d.put p x := by
  cases p <;> exact map_eq_ok_iff

theorem has_eq (d : Draft) (p : Parameter) : d.has p = (d.get p).isSome := by
  cases p <;> rfl

theorem store_eq_ok_iff {d d' : Draft} {p : Parameter} {text : String} : d.store p text = .ok d' ↔
    d.get p = none ∧ ∃ x, p.value? text = some x ∧ d' = d.put p x := by
  rw [store, has_eq]
  cases h : d.get p with
  | none => simp [set_eq_ok_iff]
  | some x => simp

end Draft

inductive Item where
  | option (p : Parameter) (text : String) (joined : Bool)
  | debug
  deriving DecidableEq

namespace Item

def words : Item → List String
  | .option p text true => ["--" ++ p.name ++ "=" ++ text]
  | .option p text false => ["--" ++ p.name, text]
  | .debug => ["--debug"]

/-- Its text is a value, and as a word of its own does not look like an option. -/
def IsReadable : Item → Prop
  | .option p text joined => (p.value? text).isSome = true ∧ (joined = false → Word.ofString text = .plain text)
  | .debug => True

def parameter? : Item → Option Parameter
  | .option p _ _ => some p
  | .debug => none

end Item

/-- Nothing comes twice. -/
structure Accepted (items : List Item) : Prop where
  readable : ∀ item ∈ items, item.IsReadable
  once : (items.map Item.parameter?).Nodup

/-- The draft holds what the items say, whatever their order. -/
structure Gives (items : List Item) (d : Draft) : Prop extends Accepted items where
  get_iff : ∀ p x, d.get p = some x ↔ ∃ text joined, Item.option p text joined ∈ items ∧ p.value? text = some x
  debug_iff : d.debug = true ↔ Item.debug ∈ items

/-- The words of the items, and two dashes behind them if need be. -/
def Spell (items : List Item) (words : List String) : Prop :=
  words = items.flatMap Item.words ∨ words = items.flatMap Item.words ++ ["--"]

section
variable {items : List Item} {d : Draft} {p : Parameter} {text : String} {joined : Bool}

theorem accepted_concat_iff {item : Item} : Accepted (items ++ [item]) ↔
    Accepted items ∧ item.IsReadable ∧ item.parameter? ∉ items.map Item.parameter? := by
  constructor
  · rintro ⟨hreadable, honce⟩
    rw [List.map_append, List.map_singleton, List.nodup_append] at honce
    exact ⟨⟨fun i hi => hreadable i (List.mem_append_left _ hi), honce.1⟩,
      hreadable item (List.mem_append_right _ (List.mem_singleton_self item)),
      fun hmem => honce.2.2 _ hmem _ (List.mem_singleton_self _) rfl⟩
  · rintro ⟨⟨hreadable, honce⟩, hitem, hnew⟩
    refine ⟨fun i hi => ?_, ?_⟩
    · rcases List.mem_append.mp hi with hi | hi
      · exact hreadable i hi
      · rwa [List.mem_singleton.mp hi]
    · rw [List.map_append, List.map_singleton, List.nodup_append]
      refine ⟨honce, List.nodup_singleton _, fun a ha b hb => ?_⟩
      rw [List.mem_singleton.mp hb]
      rintro rfl
      exact hnew ha

theorem gives_nil : Gives [] .empty where
  readable := by simp
  once := List.nodup_nil
  get_iff p x := by simp
  debug_iff := by simp [Draft.empty]

theorem mem_parameters_iff : some p ∈ items.map Item.parameter? ↔ ∃ text joined, Item.option p text joined ∈ items := by
  rw [List.mem_map]
  constructor
  · rintro ⟨item, hmem, hitem⟩
    cases item with
    | option q text joined =>
      obtain rfl := Option.some.inj hitem
      exact ⟨text, joined, hmem⟩
    | debug => cases hitem
  · rintro ⟨text, joined, hmem⟩
    exact ⟨_, hmem, rfl⟩

theorem none_mem_parameters_iff : none ∈ items.map Item.parameter? ↔ Item.debug ∈ items := by
  rw [List.mem_map]
  constructor
  · rintro ⟨item, hmem, hitem⟩
    cases item with
    | option q text joined => cases hitem
    | debug => exact hmem
  · exact fun hmem => ⟨_, hmem, rfl⟩

theorem Gives.get_isSome_iff (h : Gives items d) :
    (d.get p).isSome = true ↔ ∃ text joined, Item.option p text joined ∈ items := by
  rw [Option.isSome_iff_exists]
  constructor
  · rintro ⟨x, hx⟩
    obtain ⟨text, joined, hmem, _⟩ := (h.get_iff p x).mp hx
    exact ⟨text, joined, hmem⟩
  · rintro ⟨text, joined, hmem⟩
    obtain ⟨x, hx⟩ := Option.isSome_iff_exists.mp (h.readable _ hmem).1
    exact ⟨x, (h.get_iff p x).mpr ⟨text, joined, hmem, hx⟩⟩

theorem Gives.get_eq_none_iff (h : Gives items d) : d.get p = none ↔ some p ∉ items.map Item.parameter? := by
  rw [mem_parameters_iff, ← h.get_isSome_iff, Bool.not_eq_true, Option.isSome_eq_false_iff, Option.isNone_iff_eq_none]

theorem Gives.debug_eq_false_iff (h : Gives items d) : d.debug = false ↔ none ∉ items.map Item.parameter? := by
  rw [none_mem_parameters_iff, ← h.debug_iff, Bool.not_eq_true]

theorem Gives.concat_option {x : p.Value} (h : Gives items d) (ha : Accepted (items ++ [.option p text joined]))
    (hx : p.value? text = some x) : Gives (items ++ [.option p text joined]) (d.put p x) where
  toAccepted := ha
  get_iff q y := by
    have hnone : d.get p = none := h.get_eq_none_iff.mpr (accepted_concat_iff.mp ha).2.2
    by_cases hq : q = p
    · subst hq
      rw [Draft.get_put_self]
      constructor
      · intro hy
        exact ⟨text, joined, List.mem_append_right _ (List.mem_singleton_self _), hx.trans hy⟩
      · rintro ⟨text', joined', hmem, hy⟩
        rcases List.mem_append.mp hmem with hmem | hmem
        · have := h.get_isSome_iff.mpr ⟨text', joined', hmem⟩
          simp [hnone] at this
        · obtain ⟨_, rfl, _⟩ := Item.option.inj (List.mem_singleton.mp hmem)
          exact hx.symm.trans hy
    · rw [Draft.get_put_other d hq, h.get_iff]
      simp [hq]
  debug_iff := by
    rw [Draft.debug_put, h.debug_iff]
    simp

theorem Gives.concat_debug (h : Gives items d) (ha : Accepted (items ++ [.debug])) :
    Gives (items ++ [.debug]) { d with debug := true } where
  toAccepted := ha
  get_iff q y := by
    have hget : Draft.get { d with debug := true } q = d.get q := by cases q <;> rfl
    rw [hget, h.get_iff]
    simp
  debug_iff := by simp

theorem Gives.store {d' : Draft} (h : Gives items d) (hs : d.store p text = .ok d')
    (hplain : joined = false → Word.ofString text = .plain text) : Gives (items ++ [.option p text joined]) d' := by
  obtain ⟨hget, x, hx, rfl⟩ := Draft.store_eq_ok_iff.mp hs
  have hreadable : (Item.option p text joined).IsReadable := ⟨by rw [hx]; rfl, hplain⟩
  exact h.concat_option (accepted_concat_iff.mpr ⟨h.toAccepted, hreadable, h.get_eq_none_iff.mp hget⟩) hx

theorem Gives.exists_store (h : Gives items d) (ha : Accepted (items ++ [.option p text joined])) :
    ∃ d', d.store p text = .ok d' ∧ Gives (items ++ [.option p text joined]) d' := by
  obtain ⟨_, hreadable, hnew⟩ := accepted_concat_iff.mp ha
  obtain ⟨x, hx⟩ := Option.isSome_iff_exists.mp hreadable.1
  exact ⟨_, Draft.store_eq_ok_iff.mpr ⟨h.get_eq_none_iff.mpr hnew, x, hx, rfl⟩, h.concat_option ha hx⟩

end

def longText (name : String) : Option String → String
  | none => "--" ++ name
  | some text => "--" ++ name ++ "=" ++ text

@[simp] theorem ofName?_name (p : Parameter) : Parameter.ofName? p.name = some p := by
  cases p <;> decide

theorem eq_name_of_ofName? {name : String} {p : Parameter} (h : Parameter.ofName? name = some p) : name = p.name := by
  have := List.find?_some h
  exact (of_decide_eq_true this).symm

@[simp] theorem ofString_option (p : Parameter) : Word.ofString ("--" ++ p.name) = .long p.name none := by
  cases p <;> decide

@[simp] theorem ofString_joined (p : Parameter) (text : String) :
    Word.ofString ("--" ++ p.name ++ "=" ++ text) = .long p.name (some text) := by
  cases p <;> simp [Word.ofString, longWord, Parameter.name]

theorem ne_dashes_of_ofString {word name : String} {value : Option String} (h : Word.ofString word = .long name value)
    (hne : name ≠ "") : word ≠ "--" := by
  rintro rfl
  have hdashes : Word.ofString "--" = .long "" none := by decide
  rw [hdashes] at h
  exact hne (Word.long.inj h).1.symm

theorem longWord_cases {cs : List Char} {name : String} {value : Option String} (h : longWord cs = .long name value) :
    (value = none ∧ cs = name.toList) ∨ ∃ text : String, value = some text ∧ cs = name.toList ++ '=' :: text.toList := by
  unfold longWord at h
  have hsplit := List.takeWhile_append_dropWhile (p := fun c => decide (c ≠ '=')) (l := cs)
  cases hdrop : cs.dropWhile (fun c => decide (c ≠ '=')) with
  | nil =>
    simp only [hdrop, Word.long.injEq] at h
    obtain ⟨rfl, rfl⟩ := h
    rw [hdrop, List.append_nil] at hsplit
    exact Or.inl ⟨rfl, by rw [String.toList_ofList, hsplit]⟩
  | cons c rest =>
    simp only [hdrop, Word.long.injEq] at h
    obtain ⟨rfl, rfl⟩ := h
    have hc : c = '=' := by
      have hhead := List.head?_dropWhile_not (fun c => decide (c ≠ '=')) cs
      rw [hdrop] at hhead
      simpa using hhead
    rw [hdrop, hc] at hsplit
    exact Or.inr ⟨_, rfl, by rw [String.toList_ofList, String.toList_ofList, hsplit]⟩

theorem ofString_cases {word : String} {w : Word} (h : Word.ofString word = w) :
    (∃ cs, word.toList = '-' :: '-' :: cs ∧ w = longWord cs) ∨ (∃ c, w = .short c) ∨ w = .plain word := by
  unfold Word.ofString at h
  split at h
  · rename_i cs hcs
    exact Or.inl ⟨cs, hcs, h.symm⟩
  · exact Or.inr (Or.inl ⟨_, h.symm⟩)
  · exact Or.inr (Or.inr h.symm)

theorem longWord_ne_plain (cs : List Char) (text : String) : longWord cs ≠ .plain text := by
  unfold longWord
  dsimp only
  split <;> simp

theorem eq_of_ofString_plain {word text : String} (h : Word.ofString word = .plain text) : text = word := by
  rcases ofString_cases h with ⟨cs, _, hw⟩ | ⟨c, hw⟩ | hw
  · exact absurd hw.symm (longWord_ne_plain cs text)
  · cases hw
  · exact Word.plain.inj hw

theorem eq_of_ofString_long {word name : String} {value : Option String} (h : Word.ofString word = .long name value) :
    word = longText name value := by
  rcases ofString_cases h with ⟨cs, hcs, hw⟩ | ⟨c, hw⟩ | hw
  · rw [← String.toList_inj, hcs]
    rcases longWord_cases hw.symm with ⟨rfl, rfl⟩ | ⟨text, rfl, rfl⟩
    · rw [longText, String.toList_append]
      rfl
    · rw [longText, String.toList_append, String.toList_append, String.toList_append, List.append_assoc]
      rfl
  · cases hw
  · cases hw

namespace Reading

/-- The words that have been read: those of the items in the draft, and those of an option that still waits. -/
inductive After : Reading → List String → Prop where
  | settled {items draft} : Gives items draft → After ⟨draft, none⟩ (items.flatMap Item.words)
  | open {items draft p} : Gives items draft → After ⟨draft, some (p, none)⟩ (items.flatMap Item.words ++ ["--" ++ p.name])
  | waiting {items draft p text} : Gives items draft → Word.ofString text = .plain text →
      After ⟨draft, some (p, some text)⟩ (items.flatMap Item.words ++ ["--" ++ p.name, text])

variable {r r' : Reading} {words : List String} {d : Draft} {items : List Item} {item : Item} {word text : String}
  {p : Parameter}

theorem flatMap_concat (items : List Item) (item : Item) :
    (items ++ [item]).flatMap Item.words = items.flatMap Item.words ++ item.words := by
  rw [List.flatMap_append, List.flatMap_singleton]

theorem After.settle (h : r.After words) (hs : r.settle = .ok d) :
    ∃ items, Gives items d ∧ words = items.flatMap Item.words := by
  cases h with
  | settled hg =>
    obtain rfl := Except.ok.inj hs
    exact ⟨_, hg, rfl⟩
  | «open» hg => cases hs
  | waiting hg hplain => exact ⟨_, hg.store hs (fun _ => hplain), (flatMap_concat _ (.option _ _ false)).symm⟩

theorem takeParameter_eq_ok_iff {value : Option String} : r.takeParameter p value = .ok r' ↔ ∃ d, r.settle = .ok d ∧
    ((value = none ∧ r' = ⟨d, some (p, none)⟩) ∨
      ∃ text d', value = some text ∧ d.store p text = .ok d' ∧ r' = ⟨d', none⟩) := by
  unfold takeParameter
  cases hs : r.settle with
  | error e => simp
  | ok d =>
    cases value with
    | none => simp [eq_comm]
    | some text => cases hd : d.store p text <;> simp [hd, eq_comm]

theorem takeFlag_eq_ok_iff {f : Flag} {long : Bool} : r.takeFlag f long = .ok r' ↔ f = .debug ∧
    ∃ d, r.settle = .ok d ∧ d.debug = false ∧ r' = ⟨{ d with debug := true }, none⟩ := by
  unfold takeFlag
  cases hs : r.settle with
  | error e => simp
  | ok d =>
    cases f with
    | help => simp
    | version => simp
    | debug =>
      cases hd : d.debug with
      | true => simp [hd]
      | false => simp only [hd, Except.ok_bind, Except.ok_mapError, Except.pure_eq_ok, Except.ok.injEq,
          Bool.false_eq_true, if_false, true_and, exists_eq_left', eq_comm]

theorem After.takeParameter {value : Option String} (h : r.After words) (ht : r.takeParameter p value = .ok r') :
    r'.After (words ++ [longText p.name value]) := by
  obtain ⟨d, hs, hr⟩ := takeParameter_eq_ok_iff.mp ht
  obtain ⟨items, hg, rfl⟩ := h.settle hs
  rcases hr with ⟨rfl, rfl⟩ | ⟨text, d', rfl, hd, rfl⟩
  · exact .open hg
  · have hgives : Gives (items ++ [.option p text true]) d' := hg.store hd Bool.noConfusion
    have hafter := After.settled hgives
    rwa [flatMap_concat] at hafter

theorem After.takeDebug (h : r.After words) {long : Bool} {f : Flag} (ht : r.takeFlag f long = .ok r') :
    f = .debug ∧ r'.After (words ++ ["--debug"]) := by
  obtain ⟨rfl, d, hs, hd, rfl⟩ := takeFlag_eq_ok_iff.mp ht
  obtain ⟨items, hg, rfl⟩ := h.settle hs
  have ha : Accepted (items ++ [.debug]) :=
    accepted_concat_iff.mpr ⟨hg.toAccepted, trivial, hg.debug_eq_false_iff.mp hd⟩
  have hafter := After.settled (hg.concat_debug ha)
  rw [flatMap_concat] at hafter
  exact ⟨rfl, hafter⟩

theorem eq_name_of_flag {name : String} {f : Flag} (h : Flag.ofName? name = some f) : name = f.name := by
  have := List.find?_some h
  exact (of_decide_eq_true this).symm

theorem After.takeLong {name : String} {value : Option String} (h : r.After words)
    (ht : r.takeLong name value = .ok r') : r'.After (words ++ [longText name value]) := by
  unfold Reading.takeLong at ht
  split at ht
  · rename_i p hp
    rw [eq_name_of_ofName? hp]
    exact h.takeParameter (Except.mapError_eq_ok.mp ht)
  · rename_i f hf
    cases value with
    | some text => cases ht
    | none =>
      obtain ⟨rfl, hafter⟩ := h.takeDebug ht
      rw [eq_name_of_flag hf]
      exact hafter
  · cases ht

theorem takeShort_ne_ok {letter : Char} (h : r.After words) : r.takeShort letter ≠ .ok r' := by
  intro ht
  unfold takeShort at ht
  split at ht
  · exact absurd (h.takeDebug ht).1 (by decide)
  · split at ht
    · exact absurd (h.takeDebug ht).1 (by decide)
    · cases ht

theorem After.take (h : r.After words) (ht : r.take word = .ok r') : r'.After (words ++ [word]) := by
  unfold Reading.take at ht
  cases hw : Word.ofString word with
  | long name value =>
    rw [hw] at ht
    rw [eq_of_ofString_long hw]
    exact h.takeLong ht
  | short letter =>
    rw [hw] at ht
    exact absurd ht (takeShort_ne_ok h)
  | plain text =>
    obtain rfl := eq_of_ofString_plain hw
    simp only [hw, takePlain] at ht
    cases h with
    | settled hg => cases ht
    | waiting hg hplain => cases ht
    | @«open» items draft p hg =>
      obtain rfl := Except.ok.inj ht
      have hafter : After ⟨draft, some (p, some text)⟩ _ := .waiting hg hw
      rwa [List.append_cons] at hafter

theorem After.takeAll {rest : List String} (h : r.After words) (ht : r.takeAll rest = .ok r') :
    r'.After (words ++ rest) ∨ ∃ front, rest = front ++ ["--"] ∧ r'.After (words ++ front) := by
  induction rest generalizing r words with
  | nil =>
    obtain rfl := Except.ok.inj ht
    exact Or.inl (by rwa [List.append_nil])
  | cons word rest ih =>
    unfold Reading.takeAll at ht
    split at ht
    · rename_i hword
      cases rest with
      | nil =>
        obtain rfl := Except.ok.inj ht
        exact Or.inr ⟨[], by rw [hword, List.nil_append], by rwa [List.append_nil]⟩
      | cons next rest => cases ht
    · cases hr : r.take word with
      | error e => simp [hr] at ht
      | ok r'' =>
        simp only [hr] at ht
        rcases ih (h.take hr) ht with hafter | ⟨front, rfl, hafter⟩
        · exact Or.inl (by rwa [List.append_cons])
        · exact Or.inr ⟨word :: front, rfl, by rwa [List.append_cons]⟩

theorem takeAll_cons {rest : List String} (hword : word ≠ "--") (ht : r.take word = .ok r') :
    r.takeAll (word :: rest) = r'.takeAll rest := by
  simp only [Reading.takeAll, if_neg hword, ht]

theorem take_option (ht : r.takeParameter p none = .ok r') : r.take ("--" ++ p.name) = .ok r' := by
  simp [take, takeLong, ht]

theorem take_joined (ht : r.takeParameter p (some text) = .ok r') :
    r.take ("--" ++ p.name ++ "=" ++ text) = .ok r' := by
  simp [take, takeLong, ht]

theorem takeAll_item (hs : r.settle = .ok d) (hg : Gives items d) (ha : Accepted (items ++ [item])) :
    ∃ (r' : Reading) (d' : Draft), (∀ rest, r.takeAll (item.words ++ rest) = r'.takeAll rest) ∧ r'.settle = .ok d' ∧
      Gives (items ++ [item]) d' := by
  cases item with
  | debug =>
    have hd := hg.debug_eq_false_iff.mpr (accepted_concat_iff.mp ha).2.2
    refine ⟨⟨{ d with debug := true }, none⟩, _, fun rest => takeAll_cons (by decide) ?_, rfl, hg.concat_debug ha⟩
    have hflag : r.takeFlag .debug true = .ok _ := takeFlag_eq_ok_iff.mpr ⟨rfl, d, hs, hd, rfl⟩
    exact hflag
  | option p text joined =>
    obtain ⟨d', hd', hg'⟩ := hg.exists_store ha
    cases joined with
    | true =>
      have hword := ne_dashes_of_ofString (ofString_joined p text) (by cases p <;> decide)
      refine ⟨⟨d', none⟩, d', fun rest => takeAll_cons hword (take_joined ?_), rfl, hg'⟩
      exact takeParameter_eq_ok_iff.mpr ⟨d, hs, Or.inr ⟨text, d', rfl, hd', rfl⟩⟩
    | false =>
      have hword := ne_dashes_of_ofString (ofString_option p) (by cases p <;> decide)
      have hplain := (accepted_concat_iff.mp ha).2.1.2 rfl
      have htext : text ≠ "--" := by
        rintro rfl
        revert hplain
        decide
      have hopen : r.takeParameter p none = .ok _ := takeParameter_eq_ok_iff.mpr ⟨d, hs, Or.inl ⟨rfl, rfl⟩⟩
      refine ⟨⟨d, some (p, some text)⟩, d', fun rest => ?_, hd', hg'⟩
      refine (takeAll_cons hword (take_option hopen)).trans (takeAll_cons htext ?_)
      rw [take, hplain]
      rfl

theorem takeAll_items (ha : Accepted items) : ∃ (r : Reading) (d : Draft),
    (∀ rest, start.takeAll (items.flatMap Item.words ++ rest) = r.takeAll rest) ∧ r.settle = .ok d ∧ Gives items d := by
  induction items using List.reverseRecOn with
  | nil => exact ⟨start, .empty, fun rest => rfl, rfl, gives_nil⟩
  | append_singleton items item ih =>
    obtain ⟨r, d, hread, hs, hg⟩ := ih (accepted_concat_iff.mp ha).1
    obtain ⟨r', d', hread', hs', hg'⟩ := takeAll_item hs hg ha
    refine ⟨r', d', fun rest => ?_, hs', hg'⟩
    rw [flatMap_concat, List.append_assoc, hread, hread']

end Reading

theorem Accepted.gives {items : List Item} (ha : Accepted items) : ∃ d, Gives items d := by
  obtain ⟨_, d, _, _, hg⟩ := Reading.takeAll_items ha
  exact ⟨d, hg⟩

theorem readWords_eq_ok_iff_takeAll {words : List String} {d : Draft} :
    readWords words = .ok d ↔ ∃ r, Reading.start.takeAll words = .ok r ∧ r.settle = .ok d := by
  unfold readWords
  cases hr : Reading.start.takeAll words with
  | error e => simp
  | ok r => cases hs : r.settle <;> simp [hs]

/-- Words are accepted if they are those of items, and the items say what is read. -/
theorem readWords_eq_ok_iff {words : List String} {d : Draft} :
    readWords words = .ok d ↔ ∃ items, Gives items d ∧ Spell items words := by
  rw [readWords_eq_ok_iff_takeAll]
  constructor
  · rintro ⟨r, hr, hs⟩
    rcases (Reading.After.settled gives_nil).takeAll hr with hafter | ⟨front, rfl, hafter⟩
    · obtain ⟨items, hg, hwords⟩ := hafter.settle hs
      exact ⟨items, hg, Or.inl hwords⟩
    · obtain ⟨items, hg, hwords⟩ := hafter.settle hs
      exact ⟨items, hg, Or.inr (congrArg (· ++ ["--"]) hwords)⟩
  · rintro ⟨items, hg, hspell⟩
    obtain ⟨r, d', hread, hs, hg'⟩ := Reading.takeAll_items hg.toAccepted
    have hd : d = d' := by
      refine Draft.ext_get (fun p => Option.ext fun x => ?_) (Bool.eq_iff_iff.mpr ?_)
      · exact (hg.get_iff p x).trans (hg'.get_iff p x).symm
      · exact hg.debug_iff.trans hg'.debug_iff.symm
    subst hd
    rcases hspell with rfl | rfl
    · have := hread []
      rw [List.append_nil] at this
      exact ⟨r, this, hs⟩
    · exact ⟨r, hread ["--"], hs⟩

end PagingGate.CommandLine
