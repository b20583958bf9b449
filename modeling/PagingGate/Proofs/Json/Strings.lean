import PagingGate.Proofs.Json.Cut

set_option autoImplicit false

namespace PagingGate.Json

open Text (hexNumber? hexValue?)

variable {s : List Piece} {cs rest : List Char}

@[simp] theorem unquoted_nil : unquoted [] = ['"'] := rfl

@[simp] theorem unquoted_cons (x : Piece) (s : List Piece) : unquoted (x :: s) = x.text ++ unquoted s := by
  rw [unquoted, unquoted, List.flatMap_cons, List.append_assoc]

theorem quoted_append (s : List Piece) (cs : List Char) : quoted s ++ cs = '"' :: (unquoted s ++ cs) := rfl

@[simp] theorem shortEscape?_u : shortEscape? 'u' = none := rfl

theorem ne_u_of_shortEscape? {letter c : Char} (h : shortEscape? letter = some c) : letter ≠ 'u' := by
  rintro rfl
  simp at h

theorem readUnit_of_hexNumber? {a b c d : Char} {code : Nat} (h : hexNumber? [a, b, c, d] = some code)
    (rest : List Char) : readUnit (a :: b :: c :: d :: rest) = .ok (code, rest) := by
  simp only [readUnit, h]

theorem readUnit_eq_ok {t rest : List Char} {code : Nat} (h : readUnit t = .ok (code, rest)) :
    ∃ a b c d, t = a :: b :: c :: d :: rest ∧ hexNumber? [a, b, c, d] = some code := by
  unfold readUnit at h
  split at h
  · rename_i a b c d tail
    cases hn : hexNumber? [a, b, c, d] with
    | none => simp [hn] at h
    | some n =>
      simp only [hn, Except.ok.injEq, Prod.mk.injEq] at h
      obtain ⟨rfl, rfl⟩ := h
      exact ⟨a, b, c, d, rfl, hn⟩
  · split at h <;> simp at h

theorem skipEscape_short {letter c : Char} (h : shortEscape? letter = some c) (rest : List Char) :
    skipEscape (letter :: rest) = .ok rest := by
  unfold skipEscape
  split
  · rename_i heq
    simp at heq
  · rename_i heq
    exact absurd (List.cons.inj heq).1 (ne_u_of_shortEscape? h)
  · rename_i heq
    obtain ⟨rfl, rfl⟩ := List.cons.inj heq
    simp [h]

theorem skipEscape_eq_ok {t rest : List Char} (h : skipEscape t = .ok rest) :
    ∃ x : Piece, x.text ++ rest = '\\' :: t := by
  unfold skipEscape at h
  split at h
  · simp at h
  · rename_i tail
    obtain ⟨⟨code, _⟩, hu, h⟩ := Except.bind_eq_ok.mp h
    obtain rfl := Except.ok.inj h
    obtain ⟨a, b, c, d, rfl, hn⟩ := readUnit_eq_ok hu
    exact ⟨.unit a b c d code hn, rfl⟩
  · rename_i letter tail _
    cases hs : shortEscape? letter with
    | none => simp [hs] at h
    | some c =>
      simp only [hs, Option.isSome_some, if_true, Except.ok.injEq] at h
      subst h
      exact ⟨.short letter c hs, rfl⟩

theorem skipString_escape (t : List Char) : skipString ('\\' :: t) =
    match skipEscape t with
    | .error e => .error e
    | .ok rest => skipString rest := by
  rw [skipString, if_neg (by decide), if_pos rfl]
  split <;> simp_all

theorem skipString_piece (x : Piece) (rest : List Char) : skipString (x.text ++ rest) = skipString rest := by
  cases x with
  | plain c ok =>
    obtain ⟨hq, hb, hc⟩ := ok
    rw [Piece.text, List.singleton_append, skipString, if_neg hq, if_neg hb, if_neg (by omega)]
  | short letter c ok =>
    rw [Piece.text, List.cons_append, List.singleton_append, skipString_escape, skipEscape_short ok]
  | unit a b c d code ok =>
    have hskip : skipEscape ('u' :: a :: b :: c :: d :: rest) = .ok rest := by
      simp [skipEscape, readUnit_of_hexNumber? ok]
    rw [Piece.text, List.cons_append, skipString_escape]
    simp only [List.cons_append, List.nil_append, hskip]

theorem skipString_unquoted (s : List Piece) (rest : List Char) :
    skipString (unquoted s ++ rest) = .ok rest := by
  induction s with
  | nil => simp [skipString]
  | cons x s ih => simp [skipString_piece, ih]

theorem skipString_eq_ok {t rest : List Char} (h : skipString t = .ok rest) :
    ∃ s, t = unquoted s ++ rest := by
  fun_induction skipString t with
  | case1 => simp at h
  | case2 cs =>
    rw [Except.ok.injEq] at h
    exact ⟨[], by rw [h]; rfl⟩
  | case3 => simp at h
  | case4 cs rest' he _ ih =>
    obtain ⟨x, hx⟩ := skipEscape_eq_ok he
    obtain ⟨s, rfl⟩ := ih h
    exact ⟨x :: s, by rw [unquoted_cons, List.append_assoc, hx]⟩
  | case5 => simp at h
  | case6 c cs hq hb hc ih =>
    obtain ⟨s, rfl⟩ := ih h
    exact ⟨.plain c ⟨hq, hb, Nat.not_lt.mp hc⟩ :: s, by rw [unquoted_cons]; rfl⟩

theorem readString_plain {c : Char} (ok : c ≠ '"' ∧ c ≠ '\\' ∧ 32 ≤ c.toNat) (t : List Char) :
    readString (c :: t) = (readString t).map fun (cs, rest) => (c :: cs, rest) := by
  obtain ⟨hq, hb, hc⟩ := ok
  rw [readString, if_neg hq, if_neg hb, if_neg (by omega)]

theorem readString_escape (t : List Char) : readString ('\\' :: t) =
    match readEscape t with
    | .error e => .error e
    | .ok (c, rest) => (readString rest).map fun (cs, rest) => (c :: cs, rest) := by
  rw [readString, if_neg (by decide), if_pos rfl]
  split <;> simp_all

theorem readEscape_short {letter c : Char} (h : shortEscape? letter = some c) (rest : List Char) :
    readEscape (letter :: rest) = .ok (c, rest) := by
  unfold readEscape
  split
  · rename_i heq
    simp at heq
  · rename_i heq
    exact absurd (List.cons.inj heq).1 (ne_u_of_shortEscape? h)
  · rename_i heq
    obtain ⟨rfl, rfl⟩ := List.cons.inj heq
    simp [h]

theorem readEscape_unit {t rest : List Char} {code : Nat} (h : readUnit t = .ok (code, rest))
    (hlow : isLowSurrogate code = false) : readEscape ('u' :: t) =
      if isHighSurrogate code = true then readLowSurrogate code rest else .ok (Char.ofNat code, rest) := by
  simp [readEscape, h, hlow]

theorem readLowSurrogate_pair {high low : Nat} {t rest : List Char} (h : readUnit t = .ok (low, rest))
    (hlow : isLowSurrogate low = true) :
    readLowSurrogate high ('\\' :: 'u' :: t) = .ok (surrogatePair high low, rest) := by
  simp [readLowSurrogate, h, hlow]

theorem isLowSurrogate_of_isHighSurrogate {code : Nat} (h : isHighSurrogate code = true) :
    isLowSurrogate code = false := by
  simp only [isHighSurrogate, Bool.and_eq_true, decide_eq_true_eq] at h
  simp only [isLowSurrogate, Bool.and_eq_false_iff, decide_eq_false_iff_not]
  omega

theorem readString_unquoted (h : Unescapes s cs) (rest : List Char) :
    readString (unquoted s ++ rest) = .ok (cs, rest) := by
  induction h with
  | nil => simp [readString]
  | @plain c ok _ _ _ ih =>
    rw [unquoted_cons, List.append_assoc, Piece.text, List.singleton_append, readString_plain ok, ih]
    rfl
  | @short letter c ok _ _ _ ih =>
    rw [unquoted_cons, List.append_assoc, Piece.text, List.cons_append, List.singleton_append,
      readString_escape, readEscape_short ok]
    simp only [ih]
    rfl
  | @unit a b c d code ok _ _ hlow hhigh _ ih =>
    rw [unquoted_cons, List.append_assoc, Piece.text, List.cons_append, readString_escape]
    simp only [List.cons_append, List.nil_append, readEscape_unit (readUnit_of_hexNumber? ok _) hlow, hhigh,
      Bool.false_eq_true, if_false, ih]
    rfl
  | @pair a b c d high ok a' b' c' d' low ok' _ _ hhigh hlow _ ih =>
    rw [unquoted_cons, unquoted_cons, List.append_assoc, List.append_assoc, Piece.text, List.cons_append,
      readString_escape]
    simp only [Piece.text, List.cons_append, List.nil_append,
      readEscape_unit (readUnit_of_hexNumber? ok _) (isLowSurrogate_of_isHighSurrogate hhigh), hhigh, if_true,
      readLowSurrogate_pair (readUnit_of_hexNumber? ok' _) hlow, ih]
    rfl

theorem readLowSurrogate_eq_ok {high : Nat} {t rest : List Char} {c : Char}
    (h : readLowSurrogate high t = .ok (c, rest)) : ∃ t' low, t = '\\' :: 'u' :: t' ∧
      readUnit t' = .ok (low, rest) ∧ isLowSurrogate low = true ∧ c = surrogatePair high low := by
  unfold readLowSurrogate at h
  split at h
  · simp at h
  · simp at h
  · rename_i tail
    obtain ⟨⟨low, _⟩, hu, h⟩ := Except.bind_eq_ok.mp h
    dsimp only at h
    split at h
    · rename_i hlow
      obtain ⟨rfl, rfl⟩ := Prod.mk.inj (Except.ok.inj h)
      exact ⟨tail, low, rfl, hu, hlow, rfl⟩
    · simp at h
  · simp at h

/-- An escape is one piece, or two that are the halves of a character. -/
theorem readEscape_eq_ok {t rest : List Char} {c : Char} (h : readEscape t = .ok (c, rest)) :
    ∃ xs : List Piece, '\\' :: t = xs.flatMap Piece.text ++ rest ∧
      ∀ s cs, Unescapes s cs → Unescapes (xs ++ s) (c :: cs) := by
  unfold readEscape at h
  split at h
  · simp at h
  · rename_i tail
    obtain ⟨⟨code, _⟩, hu, hcode⟩ := Except.bind_eq_ok.mp h
    obtain ⟨a, b, c, d, rfl, hn⟩ := readUnit_eq_ok hu
    dsimp only at hcode
    split at hcode
    · simp at hcode
    · rename_i hlow
      split at hcode
      · rename_i hhigh
        obtain ⟨t', low, rfl, hu', hlow', hc⟩ := readLowSurrogate_eq_ok hcode
        obtain ⟨a', b', c', d', rfl, hn'⟩ := readUnit_eq_ok hu'
        rw [hc]
        exact ⟨[.unit a b c d code hn, .unit a' b' c' d' low hn'], by simp [Piece.text],
          fun s cs hs => .pair hhigh hlow' hs⟩
      · rename_i hhigh
        obtain ⟨rfl, rfl⟩ := Prod.mk.inj (Except.ok.inj hcode)
        exact ⟨[.unit a b c d code hn], by simp [Piece.text],
          fun s cs hs => .unit (by simpa using hlow) (by simpa using hhigh) hs⟩
  · rename_i letter tail _
    cases hs : shortEscape? letter with
    | none => simp [hs] at h
    | some c' =>
      simp only [hs, Except.ok.injEq, Prod.mk.injEq] at h
      obtain ⟨rfl, rfl⟩ := h
      exact ⟨[.short letter c' hs], by simp [Piece.text], fun s cs hs => .short hs⟩

theorem readString_eq_ok {t cs rest : List Char} (h : readString t = .ok (cs, rest)) :
    ∃ s, t = unquoted s ++ rest ∧ Unescapes s cs := by
  fun_induction readString t generalizing cs rest with
  | case1 => simp at h
  | case2 t =>
    simp only [Except.ok.injEq, Prod.mk.injEq] at h
    obtain ⟨rfl, rfl⟩ := h
    exact ⟨[], rfl, .nil⟩
  | case3 => simp at h
  | case4 t c rest' he _ ih =>
    obtain ⟨xs, hx, hxs⟩ := readEscape_eq_ok he
    obtain ⟨_, hr, h⟩ := Except.map_eq_ok.mp h
    obtain ⟨rfl, rfl⟩ := Prod.mk.inj h
    obtain ⟨s, rfl, hs⟩ := ih hr
    refine ⟨xs ++ s, ?_, hxs s _ hs⟩
    rw [hx, unquoted, unquoted, List.flatMap_append, List.append_assoc, List.append_assoc,
      List.append_assoc]
  | case5 => simp at h
  | case6 c t hq hb hc ih =>
    obtain ⟨_, hr, h⟩ := Except.map_eq_ok.mp h
    obtain ⟨rfl, rfl⟩ := Prod.mk.inj h
    obtain ⟨s, rfl, hs⟩ := ih hr
    exact ⟨.plain c ⟨hq, hb, Nat.not_lt.mp hc⟩ :: s, by rw [unquoted_cons]; rfl, .plain hs⟩

theorem utf8Size_of_hexValue? {c : Char} (h : (hexValue? c).isSome = true) : c.utf8Size = 1 := by
  have hsmall : c.toNat ≤ 127 := by
    unfold hexValue? at h
    split at h
    · rename_i hd
      rw [Char.isDigit, Bool.and_eq_true, decide_eq_true_eq, decide_eq_true_eq] at hd
      have hle : c.toNat ≤ 57 := hd.2
      omega
    · split at h
      · rename_i hl
        have hle : c.toNat ≤ 102 := hl.2
        omega
      · split at h
        · rename_i hu
          have hle : c.toNat ≤ 70 := hu.2
          omega
        · simp at h
  exact Char.utf8Size_eq_one_iff.mpr hsmall

theorem byteLength_of_utf8Size {cs : List Char} (h : ∀ c ∈ cs, c.utf8Size = 1) :
    byteLength cs = cs.length := by
  have hfold : ∀ n, cs.foldl (fun n c => n + c.utf8Size) n = n + cs.length := by
    induction cs with
    | nil => simp
    | cons c cs ih =>
      intro n
      rw [List.foldl_cons, ih (fun d hd => h d (List.mem_cons_of_mem c hd)), h c List.mem_cons_self,
        List.length_cons]
      omega
  exact (hfold 0).trans (Nat.zero_add _)

theorem hexValue?_of_hexNumber? {cs : List Char} {code : Nat} (h : hexNumber? cs = some code) :
    ∀ c ∈ cs, (hexValue? c).isSome = true := by
  unfold hexNumber? at h
  generalize 0 = n at h
  induction cs generalizing n with
  | nil => simp
  | cons c cs ih =>
    rw [List.foldlM_cons, Option.bind_eq_bind, Option.bind_eq_some_iff] at h
    obtain ⟨next, hc, hrest⟩ := h
    obtain ⟨value, hvalue, _⟩ := Option.map_eq_some_iff.mp hc
    intro d hd
    rcases List.mem_cons.mp hd with rfl | hd
    · rw [hvalue, Option.isSome_some]
    · exact ih next hrest d hd

theorem readUnit_cut {a b c d : Char} {code : Nat} (h : hexNumber? [a, b, c, d] = some code)
    {p t : List Char} (hp : [a, b, c, d] = p ++ t) (ht : t ≠ []) : readUnit p = .error .endOfString := by
  have hshort : p.length < 4 := by
    have hlen := congrArg List.length hp
    have hpos := List.length_pos_iff.mpr ht
    simp only [List.length_cons, List.length_nil, List.length_append] at hlen
    omega
  have hbytes : byteLength p = p.length := byteLength_of_utf8Size fun x hx =>
    utf8Size_of_hexValue? (hexValue?_of_hexNumber? h x (by rw [hp]; exact List.mem_append_left t hx))
  unfold readUnit
  split
  · simp only [List.length_cons] at hshort
    omega
  · rw [if_neg (by omega)]

theorem unit_cut {a b c d : Char} {code : Nat} (ok : hexNumber? [a, b, c, d] = some code) {p t : List Char}
    (hp : (Piece.unit a b c d code ok).text = p ++ t) (ht : t ≠ []) :
    p = [] ∨ p = ['\\'] ∨ ∃ p', p = '\\' :: 'u' :: p' ∧ readUnit p' = .error .endOfString := by
  rw [Piece.text] at hp
  rcases List.cons_eq_append_iff.mp hp with ⟨rfl, _⟩ | ⟨p1, rfl, hp1⟩
  · exact .inl rfl
  · rcases List.cons_eq_append_iff.mp hp1 with ⟨rfl, _⟩ | ⟨p2, rfl, hp2⟩
    · exact .inr (.inl rfl)
    · exact .inr (.inr ⟨p2, rfl, readUnit_cut ok hp2 ht⟩)

theorem short_cut {letter c : Char} (ok : shortEscape? letter = some c) {p t : List Char}
    (hp : (Piece.short letter c ok).text = p ++ t) (ht : t ≠ []) : p = [] ∨ p = ['\\'] := by
  rw [Piece.text] at hp
  rcases List.cons_eq_append_iff.mp hp with ⟨rfl, _⟩ | ⟨p1, rfl, hp1⟩
  · exact .inl rfl
  · rcases List.cons_eq_append_iff.mp hp1 with ⟨rfl, _⟩ | ⟨p2, rfl, hp2⟩
    · exact .inr rfl
    · exact absurd (List.append_eq_nil_iff.mp hp2.symm).2 ht

theorem plain_cut {c : Char} (ok : c ≠ '"' ∧ c ≠ '\\' ∧ 32 ≤ c.toNat) {p t : List Char}
    (hp : (Piece.plain c ok).text = p ++ t) (ht : t ≠ []) : p = [] := by
  rw [Piece.text] at hp
  rcases List.singleton_eq_append_iff.mp hp with ⟨h, _⟩ | ⟨_, h⟩
  · exact h
  · exact absurd h ht

@[simp] theorem skipString_nil : skipString [] = .error .endOfString := by
  rw [skipString]

theorem skipString_piece_cut (x : Piece) {p t : List Char} (hp : x.text = p ++ t) (ht : t ≠ []) :
    skipString p = .error .endOfString := by
  cases x with
  | plain c ok => simp [plain_cut ok hp ht]
  | short letter c ok =>
    rcases short_cut ok hp ht with rfl | rfl
    · exact skipString_nil
    · rw [skipString_escape]
      rfl
  | unit a b c d code ok =>
    rcases unit_cut ok hp ht with rfl | rfl | ⟨p', rfl, hu⟩
    · exact skipString_nil
    · rw [skipString_escape]
      rfl
    · rw [skipString_escape, skipEscape, hu]
      rfl

theorem skipString_cut {p t : List Char} (hp : unquoted s = p ++ t) (ht : t ≠ []) :
    skipString p = .error .endOfString := by
  induction s generalizing p with
  | nil =>
    rcases List.singleton_eq_append_iff.mp hp with ⟨rfl, _⟩ | ⟨_, h⟩
    · exact skipString_nil
    · exact absurd h ht
  | cons x s ih =>
    rw [unquoted_cons] at hp
    rcases cut_cases hp with ⟨t', ht', hx, _⟩ | ⟨p', rfl, hp'⟩
    · exact skipString_piece_cut x hx ht'
    · rw [skipString_piece]
      exact ih hp'

@[simp] theorem readString_nil : readString [] = .error .endOfString := by
  rw [readString]

theorem readString_piece_cut (x : Piece) {p t : List Char} (hp : x.text = p ++ t) (ht : t ≠ []) :
    readString p = .error .endOfString := by
  cases x with
  | plain c ok => simp [plain_cut ok hp ht]
  | short letter c ok =>
    rcases short_cut ok hp ht with rfl | rfl
    · exact readString_nil
    · rw [readString_escape]
      rfl
  | unit a b c d code ok =>
    rcases unit_cut ok hp ht with rfl | rfl | ⟨p', rfl, hu⟩
    · exact readString_nil
    · rw [readString_escape]
      rfl
    · rw [readString_escape, readEscape, hu]
      rfl

theorem readString_cut (h : Unescapes s cs) {p t : List Char} (hp : unquoted s = p ++ t) (ht : t ≠ []) :
    readString p = .error .endOfString := by
  induction h generalizing p with
  | nil =>
    rcases List.singleton_eq_append_iff.mp hp with ⟨rfl, _⟩ | ⟨_, h⟩
    · exact readString_nil
    · exact absurd h ht
  | @plain c ok s cs _ ih =>
    rw [unquoted_cons] at hp
    rcases cut_cases hp with ⟨t', ht', hx, _⟩ | ⟨p', rfl, hp'⟩
    · exact readString_piece_cut _ hx ht'
    · rw [Piece.text, List.singleton_append, readString_plain ok, ih hp']
      rfl
  | @short letter c ok s cs _ ih =>
    rw [unquoted_cons] at hp
    rcases cut_cases hp with ⟨t', ht', hx, _⟩ | ⟨p', rfl, hp'⟩
    · exact readString_piece_cut _ hx ht'
    · rw [Piece.text, List.cons_append, List.singleton_append, readString_escape, readEscape_short ok]
      simp only [ih hp']
      rfl
  | @unit a b c d code ok s cs hlow hhigh _ ih =>
    rw [unquoted_cons] at hp
    rcases cut_cases hp with ⟨t', ht', hx, _⟩ | ⟨p', rfl, hp'⟩
    · exact readString_piece_cut _ hx ht'
    · rw [Piece.text, List.cons_append, readString_escape]
      simp only [List.cons_append, List.nil_append, readEscape_unit (readUnit_of_hexNumber? ok _) hlow, hhigh,
        Bool.false_eq_true, if_false, ih hp']
      rfl
  | @pair a b c d high ok a' b' c' d' low ok' s cs hhigh hlow _ ih =>
    rw [unquoted_cons] at hp
    rcases cut_cases hp with ⟨t', ht', hx, _⟩ | ⟨p', rfl, hp'⟩
    · exact readString_piece_cut _ hx ht'
    · rw [Piece.text, List.cons_append, readString_escape]
      simp only [List.cons_append, List.nil_append,
        readEscape_unit (readUnit_of_hexNumber? ok _) (isLowSurrogate_of_isHighSurrogate hhigh), hhigh, if_true]
      rw [unquoted_cons] at hp'
      rcases cut_cases hp' with ⟨t', ht', hx, _⟩ | ⟨p'', rfl, hp''⟩
      · rcases unit_cut ok' hx ht' with rfl | rfl | ⟨p'', rfl, hu⟩
        · rfl
        · rfl
        · simp only [readLowSurrogate, hu]
          rfl
      · simp only [Piece.text, List.cons_append, List.nil_append,
          readLowSurrogate_pair (readUnit_of_hexNumber? ok' _) hlow, ih hp'']
        rfl

end PagingGate.Json
