import Mathlib.Data.List.TakeWhile
import PagingGate.Proofs.Toml.Grammar

set_option autoImplicit false

namespace PagingGate.Toml

variable {ws a b t u rest value : List Char} {key : String} {keys : List String} {path : KeyPath}

section
variable {p : Char → Bool} {run : List Char}

theorem takeWhile_run (h : ∀ c ∈ run, p c = true) (hr : ∀ c ∈ rest.head?, p c = false) :
    (run ++ rest).takeWhile p = run := by
  rw [List.takeWhile_append_of_pos h]
  cases rest with
  | nil => rw [List.takeWhile_nil, List.append_nil]
  | cons c rest => rw [List.takeWhile_cons_of_neg (by simp [hr c rfl]), List.append_nil]

theorem dropWhile_run (h : ∀ c ∈ run, p c = true) (hr : ∀ c ∈ rest.head?, p c = false) :
    (run ++ rest).dropWhile p = rest := by
  rw [List.dropWhile_append_of_pos h]
  cases rest with
  | nil => rfl
  | cons c rest => rw [List.dropWhile_cons_of_neg (by simp [hr c rfl])]

end

def NoSpace (cs : List Char) : Prop := ∀ c ∈ cs.head?, isSpace c = false

theorem IsSpaces.nil : IsSpaces [] := fun _ h => absurd h List.not_mem_nil

theorem IsSpaces.blank : IsSpaces [' '] := List.forall_mem_singleton.mpr rfl

theorem skipSpace_of_noSpace {cs : List Char} (hw : IsSpaces ws) (h : NoSpace cs) : skipSpace (ws ++ cs) = cs :=
  dropWhile_run hw h

theorem skipSpace_eq_self {cs : List Char} (h : NoSpace cs) : skipSpace cs = cs :=
  skipSpace_of_noSpace .nil h

theorem expect_skipSpace {c : Char} (hw : IsSpaces ws) (hc : isSpace c = false) (cs : List Char) :
    expect c (skipSpace (ws ++ c :: cs)) = some cs := by
  rw [skipSpace_of_noSpace hw (by simpa [NoSpace] using hc), expect, if_pos rfl]

theorem expect_eq_none {c : Char} {cs : List Char} (h : cs.head? ≠ some c) : expect c cs = none := by
  cases cs with
  | nil => rfl
  | cons d cs => exact if_neg (by simpa using h)

theorem head?_spaces_ne {c : Char} {cs : List Char} (hw : IsSpaces ws) (hc : isSpace c = false) (h : cs.head? ≠ some c) :
    (ws ++ cs).head? ≠ some c := by
  cases ws with
  | nil => exact h
  | cons d ws =>
    have hd : isSpace d = true := hw d List.mem_cons_self
    rw [List.cons_append, List.head?_cons]
    rintro heq
    rw [Option.some.inj heq, hc] at hd
    cases hd

def StartsKey (cs : List Char) : Prop := ∃ c ∈ cs.head?, isKeyChar c = true ∨ c = '"' ∨ c = '\''

theorem StartsKey.append {cs : List Char} (h : StartsKey cs) (u : List Char) : StartsKey (cs ++ u) := by
  obtain ⟨c, hc, hstart⟩ := h
  obtain ⟨tail, rfl⟩ := List.head?_eq_some_iff.mp hc
  exact ⟨c, rfl, hstart⟩

theorem StartsKey.exists_cons {cs : List Char} (h : StartsKey cs) : ∃ c tail, cs = c :: tail ∧
    ∀ d, isKeyChar d = false → d ≠ '"' → d ≠ '\'' → c ≠ d := by
  obtain ⟨c, hc, hstart⟩ := h
  obtain ⟨tail, rfl⟩ := List.head?_eq_some_iff.mp hc
  refine ⟨c, tail, rfl, ?_⟩
  rintro d hkey hquote hmark rfl
  rcases hstart with h | h | h
  · rw [hkey] at h
    cases h
  · exact hquote h
  · exact hmark h

theorem isSpace_eq_false {c : Char} (hblank : c ≠ ' ') (htab : c ≠ '\t') : isSpace c = false := by
  rw [isSpace, Bool.or_eq_false_iff, decide_eq_false_iff_not, decide_eq_false_iff_not]
  exact ⟨hblank, htab⟩

theorem StartsKey.noSpace {cs : List Char} (h : StartsKey cs) : NoSpace cs := by
  obtain ⟨c, tail, rfl, hne⟩ := h.exists_cons
  simpa [NoSpace] using
    isSpace_eq_false (hne ' ' (by decide) (by decide) (by decide)) (hne '\t' (by decide) (by decide) (by decide))

theorem StartsKey.head?_ne {cs : List Char} (h : StartsKey cs) {d : Char} (hkey : isKeyChar d = false) (hquote : d ≠ '"')
    (hmark : d ≠ '\'') : cs.head? ≠ some d := by
  obtain ⟨c, tail, rfl, hne⟩ := h.exists_cons
  simpa using hne d hkey hquote hmark

theorem SpellsPart.startsKey (h : SpellsPart key t) : StartsKey t := by
  cases h with
  | bare hne hchars =>
    obtain ⟨c, cs, hkey⟩ := List.exists_cons_of_ne_nil hne
    rw [hkey] at hchars ⊢
    exact ⟨c, rfl, .inl (hchars c List.mem_cons_self)⟩
  | literal _ => exact ⟨'\'', rfl, .inr (.inr rfl)⟩
  | basic _ => exact ⟨'"', rfl, .inr (.inl rfl)⟩

theorem SpellsParts.startsKey (h : SpellsParts keys t) : StartsKey t := by
  cases h with
  | one hp => exact hp.startsKey
  | more hp _ _ _ => exact hp.startsKey.append _

theorem SpellsPair.startsKey (h : SpellsPair path value t) : StartsKey t := by
  obtain ⟨hkey, _, _⟩ := h
  exact hkey.startsKey.append _

theorem readLine_literal {cs : List Char} (h : ∀ c ∈ cs, isPlain c = true ∧ c ≠ '\'') (rest : List Char) :
    readLine .literal (cs ++ '\'' :: rest) = some (cs, rest) := by
  induction cs with
  | nil =>
    have hmark : '\'' = Quote.literal.mark := rfl
    rw [List.nil_append, readLine, if_pos hmark]
  | cons c cs ih =>
    rw [List.forall_mem_cons] at h
    have hquote : ¬ c = Quote.literal.mark := h.1.2
    rw [List.cons_append, readLine, if_neg hquote, if_neg (by simp), if_pos h.1.1, ih h.2]
    rfl

theorem readCode_of_hex {c : Char} {hex : List Char} {n : Nat} (hn : hex.length = n)
    (hc : Text.hexNumber? hex = some c.toNat) (rest : List Char) : readCode n (hex ++ rest) = some (c, rest) := by
  have hchar : charOfNat? c.toNat = some c := by
    have hvalid : c.toNat.isValidChar := c.valid
    rw [charOfNat?, if_pos hvalid, Char.ofNat_toNat]
  rw [readCode, if_neg (by rw [List.length_append]; omega), ← hn, List.take_left, List.drop_left, hc]
  exact congrArg (Option.map (·, rest)) hchar

theorem readLine_escape {c : Char} {cs : List Char} (he : readEscape t = some (c, u))
    (hu : readLine .escaped u = some (cs, rest)) : readLine .escaped ('\\' :: t) = some (c :: cs, rest) := by
  rw [readLine, if_neg (by decide), if_pos ⟨rfl, rfl⟩]
  split
  · rename_i d v hv
    obtain ⟨rfl, rfl⟩ := Prod.mk.inj (Option.some.inj (hv.symm.trans he))
    rw [hu]
    rfl
  · rename_i hv
    rw [hv] at he
    cases he

theorem readLine_escaped {cs : List Char} (h : SpellsChars cs t) (rest : List Char) :
    readLine .escaped (t ++ '"' :: rest) = some (cs, rest) := by
  induction h with
  | nil =>
    have hmark : '"' = Quote.escaped.mark := rfl
    rw [List.nil_append, readLine, if_pos hmark]
  | @plain c _ _ hc hquote hback _ ih =>
    have hmark : ¬ c = Quote.escaped.mark := hquote
    rw [List.cons_append, readLine, if_neg hmark, if_neg (fun h => hback h.1), if_pos hc, ih]
    rfl
  | @short letter c _ _ hl _ ih =>
    refine readLine_escape ?_ ih
    unfold readEscape
    split
    · rename_i h
      cases h
    · rename_i h
      rw [(List.cons.inj h).1] at hl
      cases hl
    · rename_i h
      rw [(List.cons.inj h).1] at hl
      cases hl
    · rename_i h
      obtain ⟨rfl, rfl⟩ := List.cons.inj h
      rw [hl]
      rfl
  | code hlen hc _ ih =>
    rw [List.cons_append, List.cons_append, List.append_assoc]
    exact readLine_escape (readCode_of_hex hlen hc _) ih
  | longCode hlen hc _ ih =>
    rw [List.cons_append, List.cons_append, List.append_assoc]
    exact readLine_escape (readCode_of_hex hlen hc _) ih

/-- What follows a key does not belong to it. -/
structure KeyEnds (rest : List Char) : Prop where
  noChar : ∀ c ∈ rest.head?, isKeyChar c = false
  noPoint : (skipSpace rest).head? ≠ some '.'

theorem readPart_spelled (h : SpellsPart key t) (hr : ∀ c ∈ rest.head?, isKeyChar c = false) :
    readPart (t ++ rest) = some (key, rest) := by
  cases h with
  | bare hne hchars =>
    obtain ⟨c, cs, hkey⟩ := List.exists_cons_of_ne_nil hne
    have hcs : ∀ d ∈ cs, isKeyChar d = true := fun d hd => hchars d (by rw [hkey]; exact List.mem_cons_of_mem c hd)
    have hc : isKeyChar c = true := hchars c (by rw [hkey]; exact List.mem_cons_self)
    have hquote : c ≠ '"' := by
      rintro rfl
      cases hc
    have hmark : c ≠ '\'' := by
      rintro rfl
      cases hc
    rw [hkey, List.cons_append, readPart]
    · rw [if_pos hc, takeWhile_run hcs hr, dropWhile_run hcs hr, ← hkey, String.ofList_toList]
    · exact hquote
    · exact hmark
  | literal hchars =>
    rw [List.cons_append, List.append_assoc, List.singleton_append, readPart, readLine_literal hchars]
    simp
  | basic hchars =>
    rw [List.cons_append, List.append_assoc, List.singleton_append, readPart, readLine_escaped hchars]
    simp

theorem noKeyChar_spaces (hw : IsSpaces ws) {c : Char} (hc : isKeyChar c = false) (cs : List Char) :
    ∀ d ∈ (ws ++ c :: cs).head?, isKeyChar d = false := by
  cases ws with
  | nil => simpa using hc
  | cons d ws =>
    have hd : isSpace d = true := hw d List.mem_cons_self
    rw [isSpace, Bool.or_eq_true, decide_eq_true_eq, decide_eq_true_eq] at hd
    rcases hd with rfl | rfl <;> simp [isKeyChar]

theorem keyEnds_spaces (hw : IsSpaces ws) {c : Char} (hkey : isKeyChar c = false) (hspace : isSpace c = false)
    (hpoint : c ≠ '.') (cs : List Char) : KeyEnds (ws ++ c :: cs) where
  noChar := noKeyChar_spaces hw hkey cs
  noPoint := by
    rw [skipSpace_of_noSpace hw (by simpa [NoSpace] using hspace)]
    simpa using hpoint

theorem readParts_spelled (h : SpellsParts keys t) (hw : IsSpaces ws) (hr : KeyEnds rest) :
    readParts (ws ++ (t ++ rest)) = some (keys, skipSpace rest) := by
  induction h generalizing ws with
  | one hp =>
    rw [readParts, skipSpace_of_noSpace hw (hp.startsKey.append rest).noSpace, readPart_spelled hp hr.noChar]
    dsimp only
    rw [expect_eq_none hr.noPoint]
  | @more _ t a b _ u hp ha hb _ ih =>
    have htail : t ++ (a ++ '.' :: (b ++ u)) ++ rest = t ++ (a ++ '.' :: (b ++ (u ++ rest))) := by
      simp only [List.append_assoc, List.cons_append]
    rw [htail, readParts, skipSpace_of_noSpace hw (hp.startsKey.append _).noSpace,
      readPart_spelled hp (noKeyChar_spaces ha (by decide) _)]
    dsimp only
    rw [expect_skipSpace ha (by decide)]
    dsimp only
    rw [ih hb]
    rfl

theorem ofParts?_append (parents : List String) (key : String) :
    KeyPath.ofParts? (parents ++ [key]) = some ⟨parents, key⟩ := by
  induction parents with
  | nil => rfl
  | cons part parents ih =>
    cases parents with
    | nil => rfl
    | cons next parents =>
      rw [List.cons_append, List.cons_append, KeyPath.ofParts?, ← List.cons_append, ih]
      · rfl
      · simp

theorem readKeyPath_spelled (h : SpellsParts path.parts t) (hlen : path.parts.length ≤ maxKeyParts) (hw : IsSpaces ws)
    (hr : KeyEnds rest) : readKeyPath (ws ++ (t ++ rest)) = some (path, skipSpace rest) := by
  rw [readKeyPath, readParts_spelled h hw hr]
  dsimp only
  rw [if_pos hlen, KeyPath.parts, ofParts?_append]
  rfl

theorem readAssignment_spelled (r : Reader Value) (h : SpellsPair path value t) (hlen : path.parts.length ≤ maxKeyParts)
    (hw : IsSpaces ws) (hv : NoSpace (value ++ rest)) : r.readAssignment (ws ++ (t ++ rest)) =
      (r.read (value ++ rest)).map fun (v, rest) => (⟨path, v⟩, rest) := by
  obtain ⟨hkey, ha, hb⟩ := h
  rename_i t a b
  have htail : t ++ (a ++ '=' :: (b ++ value)) ++ rest = t ++ (a ++ '=' :: (b ++ (value ++ rest))) := by
    simp only [List.append_assoc, List.cons_append]
  have hends : KeyEnds (a ++ '=' :: (b ++ (value ++ rest))) :=
    keyEnds_spaces ha (by decide) (by decide) (by decide) _
  rw [Reader.readAssignment, htail, readKeyPath_spelled hkey hlen hw hends]
  simp only [expect_skipSpace ha (by decide : isSpace '=' = false), skipSpace_of_noSpace hb hv]

end PagingGate.Toml
