import PagingGate.Proofs.Toml.Keys
import PagingGate.Proofs.Toml.Statements

set_option autoImplicit false

namespace PagingGate.Toml

variable {ws a b t u rest token : List Char} {key : String} {path : KeyPath}

section
variable {α β γ : Type} {f : β → Option γ} {key : α → β} {l : List α}

theorem mapM_cons_option (f : α → Option β) (x : α) (l : List α) :
    (x :: l).mapM f = (f x).bind fun y => (l.mapM f).map (y :: ·) := by
  rw [List.mapM_cons]
  simp [Option.map_eq_bind]

theorem mapM_map_eq_some {g : α → γ} (h : ∀ x ∈ l, f (key x) = some (g x)) : (l.map key).mapM f = some (l.map g) := by
  induction l with
  | nil => rfl
  | cons x l ih =>
    rw [List.forall_mem_cons] at h
    rw [List.map_cons, mapM_cons_option, h.1, ih h.2]
    rfl

theorem exists_of_mapM_map {l' : List γ} (h : (l.map key).mapM f = some l') : ∀ x ∈ l, ∃ y, f (key x) = some y := by
  induction l generalizing l' with
  | nil => exact fun _ hx => absurd hx List.not_mem_nil
  | cons x l ih =>
    rw [List.map_cons, mapM_cons_option] at h
    obtain ⟨y, hy, htail⟩ := Option.bind_eq_some_iff.mp h
    obtain ⟨ys, hys, _⟩ := Option.map_eq_some_iff.mp htail
    exact List.forall_mem_cons.mpr ⟨⟨y, hy⟩, ih hys⟩

end

/-- What follows a token does not belong to it, not even as a time behind a date. -/
def TokenEnds (rest : List Char) : Prop := ∀ c ∈ (skipSpace rest).head?, isScalarChar c = false

theorem TokenEnds.head (h : TokenEnds rest) : ∀ c ∈ rest.head?, isScalarChar c = false := by
  cases rest with
  | nil => simp
  | cons c rest =>
    by_cases hc : isSpace c = true
    · rw [isSpace, Bool.or_eq_true, decide_eq_true_eq, decide_eq_true_eq] at hc
      rcases hc with rfl | rfl <;> simp [isScalarChar]
    · rw [TokenEnds, skipSpace_eq_self (by simpa [NoSpace] using hc)] at h
      exact h

theorem TokenEnds.timeBehind? (h : TokenEnds rest) (date : List Char) : timeBehind? date rest = none := by
  unfold Toml.timeBehind?
  split
  · rename_i c rest
    refine if_neg fun hd => ?_
    rw [Bool.and_eq_true] at hd
    have hscalar : isScalarChar c = true := by
      simp [isScalarChar, Char.isAlphanum, hd.2]
    have hspace : isSpace c = false := by
      rw [isSpace, Bool.or_eq_false_iff, decide_eq_false_iff_not, decide_eq_false_iff_not]
      refine ⟨?_, ?_⟩ <;> rintro rfl <;> revert hscalar <;> decide
    have hends : TokenEnds ([' '] ++ c :: rest) := h
    rw [TokenEnds, skipSpace_of_noSpace .blank (by simpa [NoSpace] using hspace)] at hends
    rw [hends c rfl] at hscalar
    cases hscalar
  · rfl

theorem not_special_of_isScalarChar {c : Char} (h : isScalarChar c = true) :
    c ≠ '"' ∧ c ≠ '\'' ∧ c ≠ '[' ∧ c ≠ '\x7b' ∧ isSpace c = false := by
  have hne : ∀ d : Char, isScalarChar d = false → c ≠ d := by
    rintro d hd rfl
    rw [hd] at h
    cases h
  refine ⟨hne _ (by decide), hne _ (by decide), hne _ (by decide), hne _ (by decide), ?_⟩
  rw [isSpace, Bool.or_eq_false_iff, decide_eq_false_iff_not, decide_eq_false_iff_not]
  exact ⟨hne _ (by decide), hne _ (by decide)⟩

theorem IsToken.exists_cons (ht : IsToken token) : ∃ c cs, token = c :: cs ∧ isScalarChar c = true := by
  obtain ⟨hne, hchars⟩ := ht
  obtain ⟨c, cs, rfl⟩ := List.exists_cons_of_ne_nil hne
  exact ⟨c, cs, rfl, hchars c List.mem_cons_self⟩

theorem noSpace_token (ht : IsToken token) (rest : List Char) : NoSpace (token ++ rest) := by
  obtain ⟨c, cs, rfl, hc⟩ := ht.exists_cons
  simpa [NoSpace] using (not_special_of_isScalarChar hc).2.2.2.2

theorem readScalar_token (ht : IsToken token) (hr : TokenEnds rest) :
    readScalar (token ++ rest) = (scalar? token).map (·, rest) := by
  simp only [readScalar, takeWhile_run ht.2 hr.head, dropWhile_run ht.2 hr.head, hr.timeBehind?]

theorem readFlat_token (ht : IsToken token) (hr : TokenEnds rest) :
    readFlat (token ++ rest) = (scalar? token).map (·, rest) := by
  rw [← readScalar_token ht hr]
  obtain ⟨c, cs, rfl, hc⟩ := ht.exists_cons
  obtain ⟨hquote, hmark, -⟩ := not_special_of_isScalarChar hc
  rw [List.cons_append, readFlat]
  · exact fun _ h => hquote (List.cons.inj h).1
  · exact fun _ h => hmark (List.cons.inj h).1

theorem readToken (n : Nat) (ht : IsToken token) (hr : TokenEnds rest) :
    (Reader.value n).read (token ++ rest) = (scalar? token).map (·, rest) := by
  rw [← readFlat_token ht hr]
  cases n with
  | zero => rfl
  | succ n =>
    obtain ⟨c, cs, rfl, hc⟩ := ht.exists_cons
    obtain ⟨-, -, hbracket, hbrace, -⟩ := not_special_of_isScalarChar hc
    change (Reader.value n).readNested (c :: (cs ++ rest)) = _
    rw [Reader.readNested]
    · rfl
    · exact fun _ h => hbracket (List.cons.inj h).1
    · exact fun _ h => hbrace (List.cons.inj h).1

def readMembers (members : List (String × List Char)) : Option Table :=
  members.mapM fun m => (scalar? m.2).map (m.1, ·)

theorem tokenEnds_spaces (hw : IsSpaces ws) {c : Char} (hspace : isSpace c = false) (hc : isScalarChar c = false)
    (cs : List Char) : TokenEnds (ws ++ c :: cs) := by
  rw [TokenEnds, skipSpace_of_noSpace hw (by simpa [NoSpace] using hspace)]
  simpa using hc

theorem readAssignment_member (n : Nat) (ht : IsToken token) (h : SpellsPair ⟨[], key⟩ token t) (hw : IsSpaces ws)
    (hr : TokenEnds rest) : (Reader.value n).readAssignment (ws ++ (t ++ rest)) =
      (scalar? token).map fun v => (plain (key, v), rest) := by
  have hlen : (KeyPath.parts ⟨[], key⟩).length ≤ maxKeyParts := by simp [KeyPath.parts, maxKeyParts]
  rw [readAssignment_spelled _ h hlen hw (noSpace_token ht rest), readToken n ht hr]
  cases scalar? token <;> rfl

theorem readMembers_cons (key : String) (token : List Char) (ms : List (String × List Char)) :
    readMembers ((key, token) :: ms) =
      (scalar? token).bind fun v => (readMembers ms).map fun members => (key, v) :: members := by
  rw [readMembers, mapM_cons_option]
  cases scalar? token <;> rfl

theorem members_spelled (n : Nat) {members : List (String × List Char)} (h : SpellsMembers members t) (rest : List Char) :
    (Reader.value n).members (t ++ rest) = (readMembers members).map fun ms => (ms.map plain, rest) := by
  induction h with
  | @last key token a t b ht ha hp hb =>
    have hends : TokenEnds (b ++ '\x7d' :: rest) := tokenEnds_spaces hb (by decide) (by decide) rest
    have htail : a ++ (t ++ (b ++ ['\x7d'])) ++ rest = a ++ (t ++ (b ++ '\x7d' :: rest)) := by
      simp only [List.append_assoc, List.cons_append, List.nil_append]
    rw [htail, Reader.members, readAssignment_member n ht hp ha hends, readMembers_cons]
    cases scalar? token with
    | none => rfl
    | some v =>
      dsimp only [Option.map_some]
      rw [skipSpace_of_noSpace hb (by simp [NoSpace, isSpace])]
      rfl
  | @more key token a t b ms u ht ha hp hb _ ih =>
    have hends : TokenEnds (b ++ ',' :: (u ++ rest)) := tokenEnds_spaces hb (by decide) (by decide) _
    have htail : a ++ (t ++ (b ++ ',' :: u)) ++ rest = a ++ (t ++ (b ++ ',' :: (u ++ rest))) := by
      simp only [List.append_assoc, List.cons_append]
    rw [htail, Reader.members, readAssignment_member n ht hp ha hends, readMembers_cons]
    cases scalar? token with
    | none => rfl
    | some v =>
      dsimp only [Option.map_some]
      rw [expect_skipSpace hb (by decide)]
      dsimp only
      rw [ih]
      cases readMembers ms <;> rfl

theorem noBrace_members {members : List (String × List Char)} (h : SpellsMembers members t) (rest : List Char) :
    (skipSpace (t ++ rest)).head? ≠ some '\x7d' := by
  have hpair : ∀ {a u : List Char}, IsSpaces a → StartsKey u → (skipSpace (a ++ u)).head? ≠ some '\x7d' := by
    intro a u ha hu
    rw [skipSpace_of_noSpace ha hu.noSpace]
    exact hu.head?_ne (by decide) (by decide) (by decide)
  cases h with
  | last _ ha hp _ =>
    rw [List.append_assoc, List.append_assoc]
    exact hpair ha (hp.startsKey.append _)
  | more _ ha hp _ _ =>
    rw [List.append_assoc, List.append_assoc]
    exact hpair ha (hp.startsKey.append _)

theorem braces_spelled (n : Nat) {members : List (String × List Char)} (h : SpellsBraces members t) (rest : List Char) :
    (Reader.value (n + 1)).read (t ++ rest) =
      ((readMembers members).bind fun ms => Table.assignAll [] (ms.map plain)).map fun ms => (.table .inline ms, rest) := by
  have hread : ∀ u, (Reader.value (n + 1)).read ('\x7b' :: u) = (Reader.value n).readBraces u := fun u => rfl
  cases h with
  | @empty ws hw =>
    have htail : '\x7b' :: (ws ++ ['\x7d']) ++ rest = '\x7b' :: (ws ++ '\x7d' :: rest) := by
      simp only [List.append_assoc, List.cons_append, List.nil_append]
    rw [htail, hread, Reader.readBraces, expect_skipSpace hw (by decide)]
    rfl
  | @members _ t hm =>
    rw [List.cons_append, hread, Reader.readBraces, expect_eq_none (noBrace_members hm rest), members_spelled n hm]
    cases readMembers members with
    | none => rfl
    | some ms => cases h : Table.assignAll [] (ms.map plain) <;> simp [h]

def Row.read? : Row → Option Statement
  | .header path => some (.header .table path)
  | .pair path token => (scalar? token).map fun v => .assignment ⟨path, v⟩
  | .braces path members =>
    ((readMembers members).bind fun ms => Table.assignAll [] (ms.map plain)).map fun ms => .assignment ⟨path, .table .inline ms⟩

def Row.keyPath : Row → KeyPath
  | .header path | .pair path _ | .braces path _ => path

theorem readStatement_pair {p : KeyPath} {value : List Char} (h : SpellsPair p value t) (rest : List Char) :
    readStatement (t ++ rest) =
      ((Reader.value maxLevels).readAssignment (t ++ rest)).map fun (a, rest) => (.assignment a, rest) := by
  obtain ⟨c, cs, htail, hne⟩ := (h.startsKey.append rest).exists_cons
  have hbracket : c ≠ '[' := hne _ (by decide) (by decide) (by decide)
  rw [htail, readStatement]
  · exact fun _ h => absurd (List.cons.inj h).1 hbracket
  · exact fun _ h => absurd (List.cons.inj h).1 hbracket

theorem readStatement_header (ha : IsSpaces a) (hp : SpellsParts path.parts t) (hlen : path.parts.length ≤ maxKeyParts)
    (hb : IsSpaces b) (rest : List Char) :
    readStatement ('[' :: (a ++ (t ++ (b ++ ']' :: rest)))) = some (.header .table path, rest) := by
  have hends : KeyEnds (b ++ ']' :: rest) := keyEnds_spaces hb (by decide) (by decide) (by decide) rest
  have hsingle : (a ++ (t ++ (b ++ ']' :: rest))).head? ≠ some '[' :=
    head?_spaces_ne ha (by decide) ((hp.startsKey.append _).head?_ne (by decide) (by decide) (by decide))
  rw [readStatement]
  · rw [readHeader, readKeyPath_spelled hp hlen ha hends]
    dsimp only
    rw [expect_skipSpace hb (by decide)]
    rfl
  · intro u hu
    rw [hu] at hsingle
    exact hsingle rfl

theorem row_spelled {row : Row} (h : SpellsRow row t) (hlen : row.keyPath.parts.length ≤ maxKeyParts) (hr : TokenEnds rest) :
    readStatement (t ++ rest) = row.read?.map (·, rest) := by
  have hread : ∀ {value}, SpellsPair row.keyPath value t → NoSpace (value ++ rest) → readStatement (t ++ rest) =
      ((Reader.value maxLevels).read (value ++ rest)).map fun read => (.assignment ⟨row.keyPath, read.1⟩, read.2) := by
    intro value hp hv
    have hpair := readAssignment_spelled (Reader.value maxLevels) hp hlen IsSpaces.nil hv
    rw [List.nil_append] at hpair
    rw [readStatement_pair hp, hpair]
    cases (Reader.value maxLevels).read (value ++ rest) <;> rfl
  cases h with
  | @header path a t b ha hp hb =>
    have htail : '[' :: (a ++ (t ++ (b ++ [']']))) ++ rest = '[' :: (a ++ (t ++ (b ++ ']' :: rest))) := by
      simp only [List.append_assoc, List.cons_append, List.nil_append]
    rw [htail, readStatement_header ha hp hlen hb]
    rfl
  | @pair path token t ht hp =>
    rw [hread hp (noSpace_token ht rest), readToken maxLevels ht hr, Row.read?]
    cases scalar? token <;> rfl
  | @braces path members value t hb hp =>
    have hv : NoSpace (value ++ rest) := by
      cases hb <;> simp [NoSpace, isSpace]
    rw [hread hp hv, maxLevels, braces_spelled 78 hb, Row.read?]
    cases (readMembers members).bind fun ms => Table.assignAll [] (ms.map plain) <;> rfl

def EndsLine (rest : List Char) : Prop := ∀ c ∈ rest.head?, c = '\n' ∨ c = '\r'

@[simp] theorem EndsLine.nil : EndsLine [] := by simp [EndsLine]

theorem IsBreak.endsLine {br : List Char} (h : IsBreak br) (u : List Char) : EndsLine (br ++ u) := by
  cases h <;> simp [EndsLine]

theorem EndsLine.head {p : Char → Bool} (h : EndsLine rest) (hn : p '\n' = false) (hr : p '\r' = false) :
    ∀ c ∈ rest.head?, p c = false := by
  intro c hc
  rcases h c hc with rfl | rfl
  · exact hn
  · exact hr

theorem endOfLine?_break {br : List Char} (h : IsBreak br) (u : List Char) : endOfLine? (br ++ u) = some u := by
  cases h <;> rfl

theorem finishLine?_remark {remark : List Char} (h : IsRemark remark) (hr : EndsLine rest) :
    finishLine? (remark ++ rest) = endOfLine? rest := by
  cases h with
  | none hw =>
    rw [finishLine?, skipSpace_of_noSpace hw (hr.head (by decide) (by decide))]
    split
    · rename_i u
      rcases hr '#' rfl with h | h <;> cases h
    · rfl
  | @comment ws cs hw hcs =>
    have htail : ws ++ '#' :: cs ++ rest = ws ++ '#' :: (cs ++ rest) := by
      simp only [List.append_assoc, List.cons_append]
    rw [htail, finishLine?, skipSpace_of_noSpace hw (by simp [NoSpace, isSpace])]
    exact congrArg endOfLine? (dropWhile_run hcs (hr.head (by decide) (by decide)))

theorem tokenEnds_remark {remark : List Char} (h : IsRemark remark) (hr : EndsLine rest) : TokenEnds (remark ++ rest) := by
  cases h with
  | none hw =>
    rw [TokenEnds, skipSpace_of_noSpace hw (hr.head (by decide) (by decide))]
    exact hr.head (by decide) (by decide)
  | @comment ws cs hw _ =>
    have htail : ws ++ '#' :: cs ++ rest = ws ++ '#' :: (cs ++ rest) := by
      simp only [List.append_assoc, List.cons_append]
    rw [htail]
    exact tokenEnds_spaces hw (by decide) (by decide) _

theorem skipGap_blank {c : Char} (h : isSpace c = true ∨ c = '\n') (cs : List Char) : skipGap (c :: cs) = skipGap cs := by
  have hor : (isSpace c || decide (c = '\n')) = true := by simpa using h
  rw [skipGap]
  · rw [if_pos hor]
  · rintro u rfl
    rcases h with h | h <;> cases h

theorem skipGap_spaces (hw : IsSpaces ws) (cs : List Char) : skipGap (ws ++ cs) = skipGap cs := by
  induction ws with
  | nil => rfl
  | cons c ws ih =>
    rw [List.cons_append, skipGap_blank (.inl (hw c List.mem_cons_self))]
    exact ih fun d hd => hw d (List.mem_cons_of_mem c hd)

theorem skipGap_break {br : List Char} (hb : IsBreak br) (cs : List Char) : skipGap (br ++ cs) = skipGap cs := by
  cases hb with
  | lineFeed => exact skipGap_blank (.inr rfl) cs
  | both =>
    rw [List.cons_append, List.cons_append, List.nil_append, skipGap]

theorem skipGap_remark {remark : List Char} (h : IsRemark remark) (hr : EndsLine rest) :
    skipGap (remark ++ rest) = skipGap rest := by
  cases h with
  | none hw => exact skipGap_spaces hw rest
  | @comment ws cs hw hcs =>
    rw [List.append_assoc, skipGap_spaces hw, List.cons_append, skipGap]
    · rw [if_neg (by decide), if_pos rfl, dropWhile_run hcs (hr.head (by decide) (by decide))]
    · exact fun _ h => absurd h (by decide)

theorem skipGap_self {c : Char} (hspace : isSpace c = false) (hn : c ≠ '\n') (hr : c ≠ '\r') (hc : c ≠ '#')
    (cs : List Char) : skipGap (c :: cs) = c :: cs := by
  rw [skipGap]
  · rw [if_neg (by simp [hspace, hn]), if_neg hc]
  · exact fun _ h => absurd h hr

/-- A row stands where the gap in front of it ends. -/
theorem row_start {row : Row} (h : SpellsRow row t) (rest : List Char) :
    ∃ c cs, t ++ rest = c :: cs ∧ skipGap (t ++ rest) = c :: cs := by
  have hkey : StartsKey t → ∃ c cs, t ++ rest = c :: cs ∧ skipGap (t ++ rest) = c :: cs := by
    intro hstart
    obtain ⟨c, cs, htail, hne⟩ := (hstart.append rest).exists_cons
    have hspace := isSpace_eq_false (hne ' ' (by decide) (by decide) (by decide)) (hne '\t' (by decide) (by decide) (by decide))
    rw [htail]
    exact ⟨c, cs, rfl, skipGap_self hspace (hne _ (by decide) (by decide) (by decide))
      (hne _ (by decide) (by decide) (by decide)) (hne _ (by decide) (by decide) (by decide)) cs⟩
  cases h with
  | header _ _ _ => exact ⟨'[', _, rfl, skipGap_self (by decide) (by decide) (by decide) (by decide) _⟩
  | pair _ hp => exact hkey hp.startsKey
  | braces _ hp => exact hkey hp.startsKey

theorem readStatements_of_gap {cs cs' : List Char} (h : skipGap cs = skipGap cs') : readStatements cs = readStatements cs' := by
  rw [readStatements, readStatements, h]

theorem readStatements_row {cs u : List Char} {row : Row} (hcs : skipGap cs = skipGap (t ++ rest)) (h : SpellsRow row t)
    (hlen : row.keyPath.parts.length ≤ maxKeyParts) (hr : TokenEnds rest) (hf : finishLine? rest = some u) :
    readStatements cs = row.read?.bind fun s => (readStatements u).map (s :: ·) := by
  obtain ⟨c, tail, htail, hgap⟩ := row_start h rest
  rw [readStatements_cons (hcs.trans hgap), ← htail, row_spelled h hlen hr]
  cases row.read? with
  | none => rfl
  | some s =>
    simp only [Option.map_some, Option.bind_some, hf]

/-- Each row is read as its statement, and nothing else is read. -/
theorem rows_spelled {rows : List Row} (h : SpellsRows rows t)
    (hlen : ∀ row ∈ rows, row.keyPath.parts.length ≤ maxKeyParts) :
    readStatements t = rows.mapM Row.read? := by
  induction h with
  | @lastBlank remark hremark =>
    have hgap := skipGap_remark hremark EndsLine.nil
    rw [List.append_nil] at hgap
    rw [readStatements_of_gap hgap, readStatements_nil]
    rfl
  | @last row ws t remark hw hrow hremark =>
    have hends := tokenEnds_remark hremark EndsLine.nil
    have hfinish := finishLine?_remark hremark EndsLine.nil
    rw [List.append_nil] at hends hfinish
    have hend : endOfLine? [] = some [] := rfl
    rw [hend] at hfinish
    rw [readStatements_row (skipGap_spaces hw _) hrow (hlen row List.mem_cons_self) hends hfinish, mapM_cons_option,
      readStatements_nil]
    rfl
  | blank hremark hbreak _ ih =>
    rw [readStatements_of_gap ((skipGap_remark hremark (hbreak.endsLine _)).trans (skipGap_break hbreak _)), ih hlen]
  | @row row ws t remark br rows u hw hrow hremark hbreak _ ih =>
    have hends := tokenEnds_remark hremark (hbreak.endsLine u)
    have hfinish := (finishLine?_remark hremark (hbreak.endsLine u)).trans (endOfLine?_break hbreak u)
    rw [readStatements_row (skipGap_spaces hw _) hrow (hlen row List.mem_cons_self) hends hfinish,
      ih fun row hmem => hlen row (List.mem_cons_of_mem _ hmem), mapM_cons_option]

theorem row_head?_ne {row : Row} (h : SpellsRow row t) {d : Char} (hkey : isKeyChar d = false) (hquote : d ≠ '"')
    (hmark : d ≠ '\'') (hbracket : d ≠ '[') (u : List Char) : (t ++ u).head? ≠ some d := by
  cases h with
  | header _ _ _ => exact fun h => hbracket (Option.some.inj h).symm
  | pair _ hp => exact (hp.startsKey.append u).head?_ne hkey hquote hmark
  | braces _ hp => exact (hp.startsKey.append u).head?_ne hkey hquote hmark

theorem remark_head?_ne {remark u : List Char} (h : IsRemark remark) {d : Char} (hspace : isSpace d = false) (hd : d ≠ '#')
    (hu : u.head? ≠ some d) : (remark ++ u).head? ≠ some d := by
  cases h with
  | none hw => exact head?_spaces_ne hw hspace hu
  | comment hw _ =>
    rw [List.append_assoc]
    exact head?_spaces_ne hw hspace fun h => hd (Option.some.inj h).symm

theorem noMark_rows {rows : List Row} (h : SpellsRows rows t) : t.head? ≠ some '\ufeff' := by
  cases h with
  | lastBlank hremark =>
    have := remark_head?_ne (u := []) hremark (d := '\ufeff') (by decide) (by decide) (by simp)
    rwa [List.append_nil] at this
  | last hw hrow _ =>
    exact head?_spaces_ne hw (by decide) (row_head?_ne hrow (by decide) (by decide) (by decide) (by decide) _)
  | blank hremark hbreak _ =>
    refine remark_head?_ne hremark (by decide) (by decide) ?_
    cases hbreak <;> simp
  | row hw hrow _ _ _ =>
    exact head?_spaces_ne hw (by decide) (row_head?_ne hrow (by decide) (by decide) (by decide) (by decide) _)

theorem document_spelled {rows : List Row} (h : SpellsDocument rows t)
    (hlen : ∀ row ∈ rows, row.keyPath.parts.length ≤ maxKeyParts) :
    readStatements (skipMark t) = rows.mapM Row.read? := by
  cases h with
  | plain h =>
    have hskip : skipMark t = t := by
      unfold skipMark
      split
      · exact absurd rfl (noMark_rows h)
      · rfl
    rw [hskip, rows_spelled h hlen]
  | marked h => exact rows_spelled h hlen

end PagingGate.Toml
