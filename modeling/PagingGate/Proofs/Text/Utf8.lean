import Mathlib.Data.List.Basic
import Mathlib.Data.List.TakeWhile
import PagingGate.Text.Utf8

set_option autoImplicit false

namespace PagingGate.Text

theorem lead?_two {b : UInt8} (h : 0xC2 ≤ b.toNat) (h' : b.toNat ≤ 0xDF) :
    lead? b = some ⟨1, 0x80, 0xBF, b.toNat - 0xC0⟩ := by
  simp only [lead?, UInt8.lt_iff_toNat_lt, UInt8.reduceToNat]
  rw [if_neg (by omega), if_pos (by omega)]

theorem lead?_three {b : UInt8} (h : 0xE0 ≤ b.toNat) (h' : b.toNat ≤ 0xEF) :
    lead? b = some ⟨2, if b.toNat = 0xE0 then 0xA0 else 0x80, if b.toNat = 0xED then 0x9F else 0xBF,
      b.toNat - 0xE0⟩ := by
  simp only [lead?, UInt8.lt_iff_toNat_lt, ← UInt8.toNat_inj, UInt8.reduceToNat]
  rw [if_neg (by omega), if_neg (by omega)]
  by_cases h0 : b.toNat = 0xE0
  · simp [h0]
  · by_cases hd : b.toNat = 0xED
    · simp [hd]
    · rw [if_neg h0, if_neg hd, if_pos (by omega), if_neg h0, if_neg hd]

theorem lead?_four {b : UInt8} (h : 0xF0 ≤ b.toNat) (h' : b.toNat ≤ 0xF4) :
    lead? b = some ⟨3, if b.toNat = 0xF0 then 0x90 else 0x80, if b.toNat = 0xF4 then 0x8F else 0xBF,
      b.toNat - 0xF0⟩ := by
  simp only [lead?, UInt8.lt_iff_toNat_lt, ← UInt8.toNat_inj, UInt8.reduceToNat]
  rw [if_neg (by omega), if_neg (by omega), if_neg (by omega), if_neg (by omega), if_neg (by omega)]
  by_cases h0 : b.toNat = 0xF0
  · simp [h0]
  · by_cases h4 : b.toNat = 0xF4
    · simp [h4]
    · rw [if_neg h0, if_pos (by omega), if_neg h0, if_neg h4]

theorem lead?_range {b : UInt8} {l : Lead} (h : lead? b = some l) :
    0xC2 ≤ b.toNat ∧ b.toNat ≤ 0xF4 := by
  simp only [lead?, UInt8.lt_iff_toNat_lt, ← UInt8.toNat_inj, UInt8.reduceToNat] at h
  by_cases hlow : b.toNat < 0xC2
  · simp [hlow] at h
  · refine ⟨by omega, ?_⟩
    by_cases hhigh : 0xF4 < b.toNat
    · rw [if_neg hlow, if_neg (by omega), if_neg (by omega), if_neg (by omega), if_neg (by omega),
        if_neg (by omega), if_neg (by omega), if_neg (by omega)] at h
      simp at h
    · omega

theorem lead?_count {b : UInt8} {l : Lead} (h : lead? b = some l) : 0 < l.count := by
  obtain ⟨hb, hb'⟩ := lead?_range h
  rcases Nat.lt_or_ge b.toNat 0xE0 with h2 | h2
  · rw [lead?_two hb (by omega), Option.some.injEq] at h
    simp [← h]
  · rcases Nat.lt_or_ge b.toNat 0xF0 with h3 | h3
    · rw [lead?_three h2 (by omega), Option.some.injEq] at h
      simp [← h]
    · rw [lead?_four h3 hb', Option.some.injEq] at h
      simp [← h]

theorem isContinuation_iff (b : UInt8) : isContinuation b = true ↔ 0x80 ≤ b.toNat ∧ b.toNat ≤ 0xBF := by
  simp [isContinuation, UInt8.le_iff_toNat_le]

theorem pieces_cons_ascii {b : UInt8} (h : b.toNat < 0x80) (rest : List UInt8) :
    pieces (b :: rest) = some (Char.ofNat b.toNat) :: pieces rest := by
  rw [pieces, if_pos (by simpa [UInt8.lt_iff_toNat_lt] using h)]

theorem pieces_cons_lead {b : UInt8} {l : Lead} (h : lead? b = some l) (rest : List UInt8) :
    pieces (b :: rest) = l.char? (l.following rest) :: pieces (rest.drop (l.following rest).length) := by
  have hb := (lead?_range h).1
  rw [pieces, if_neg (by simp only [UInt8.lt_iff_toNat_lt, UInt8.reduceToNat]; omega), h]

theorem following_append {l : Lead} {b : UInt8} {bs : List UInt8} (hlow : l.low ≤ b) (hhigh : b ≤ l.high)
    (hlen : bs.length = l.count - 1) (hbs : ∀ c ∈ bs, isContinuation c = true) (rest : List UInt8) :
    l.following (b :: bs ++ rest) = b :: bs := by
  rw [List.cons_append, Lead.following.eq_def]
  simp only [if_pos (And.intro hlow hhigh), ← hlen, List.take_left]
  rw [List.takeWhile_eq_self_iff.mpr hbs]

/-- A first byte with as many bytes behind it as it asks for gives the character of its code. -/
theorem pieces_sequence (bs : List UInt8) {b c : UInt8} {l : Lead} (h : lead? b = some l)
    (hlow : l.low ≤ c) (hhigh : c ≤ l.high) (hlen : bs.length + 1 = l.count)
    (hbs : ∀ d ∈ bs, isContinuation d = true) (rest : List UInt8) :
    pieces (b :: c :: bs ++ rest) = some (Char.ofNat (l.code (c :: bs))) :: pieces rest := by
  have hf : l.following (c :: bs ++ rest) = c :: bs := following_append hlow hhigh (by omega) hbs rest
  have hd : (c :: bs ++ rest).drop (c :: bs).length = rest := List.drop_left
  rw [List.cons_append, pieces_cons_lead h, hf, hd, Lead.char?, List.length_cons, if_pos hlen]

theorem following_of_char? {l : Lead} {rest : List UInt8} {c : Char} (hcount : 0 < l.count)
    (h : l.char? (l.following rest) = some c) :
    ∃ b bs, rest = b :: bs ++ rest.drop (l.following rest).length ∧
      l.low ≤ b ∧ b ≤ l.high ∧ bs.length + 1 = l.count ∧ (∀ d ∈ bs, isContinuation d = true) ∧
      c = Char.ofNat (l.code (b :: bs)) := by
  simp only [Lead.char?, Option.ite_none_right_eq_some, Option.some.injEq] at h
  obtain ⟨hlen, hc⟩ := h
  cases rest with
  | nil => simp [Lead.following] at hlen; omega
  | cons b tail =>
    simp only [Lead.following] at hlen hc ⊢
    split at hlen
    · rename_i hb
      rw [if_pos hb] at hc ⊢
      refine ⟨b, _, ?_, hb.1, hb.2, hlen, fun d hd => ?_, hc.symm⟩
      · have hp : (tail.take (l.count - 1)).takeWhile isContinuation <+: tail :=
          (List.takeWhile_prefix _).trans (List.take_prefix _ _)
        rw [List.length_cons, List.drop_succ_cons, List.cons_append,
          List.prefix_iff_eq_append.mp hp]
      · exact (List.all_eq_true.mp (List.all_takeWhile)) d hd
    · simp at hlen; omega

theorem pieces_two {b c : UInt8} (hb : 0xC2 ≤ b.toNat ∧ b.toNat ≤ 0xDF)
    (hc : 0x80 ≤ c.toNat ∧ c.toNat ≤ 0xBF) (rest : List UInt8) :
    pieces (b :: c :: rest) =
      some (Char.ofNat ((b.toNat - 0xC0) * 64 + c.toNat % 64)) :: pieces rest := by
  have hlow : (0x80 : UInt8) ≤ c := UInt8.le_iff_toNat_le.mpr hc.1
  have hhigh : c ≤ (0xBF : UInt8) := UInt8.le_iff_toNat_le.mpr hc.2
  exact pieces_sequence [] (lead?_two hb.1 hb.2) hlow hhigh rfl (by simp) rest

theorem pieces_three {b c d : UInt8} (hb : 0xE0 ≤ b.toNat ∧ b.toNat ≤ 0xEF)
    (hc : (if b.toNat = 0xE0 then 0xA0 else 0x80) ≤ c.toNat ∧
      c.toNat ≤ if b.toNat = 0xED then 0x9F else 0xBF)
    (hd : 0x80 ≤ d.toNat ∧ d.toNat ≤ 0xBF) (rest : List UInt8) :
    pieces (b :: c :: d :: rest) =
      some (Char.ofNat (((b.toNat - 0xE0) * 64 + c.toNat % 64) * 64 + d.toNat % 64)) :: pieces rest := by
  have hlow : (if b.toNat = 0xE0 then 0xA0 else 0x80 : UInt8) ≤ c := by
    rw [UInt8.le_iff_toNat_le, apply_ite UInt8.toNat]
    exact hc.1
  have hhigh : c ≤ (if b.toNat = 0xED then 0x9F else 0xBF : UInt8) := by
    rw [UInt8.le_iff_toNat_le, apply_ite UInt8.toNat]
    exact hc.2
  exact pieces_sequence [d] (lead?_three hb.1 hb.2) hlow hhigh rfl
    (by simpa using (isContinuation_iff d).mpr hd) rest

theorem pieces_four {b c d e : UInt8} (hb : 0xF0 ≤ b.toNat ∧ b.toNat ≤ 0xF4)
    (hc : (if b.toNat = 0xF0 then 0x90 else 0x80) ≤ c.toNat ∧
      c.toNat ≤ if b.toNat = 0xF4 then 0x8F else 0xBF)
    (hd : 0x80 ≤ d.toNat ∧ d.toNat ≤ 0xBF) (he : 0x80 ≤ e.toNat ∧ e.toNat ≤ 0xBF)
    (rest : List UInt8) :
    pieces (b :: c :: d :: e :: rest) =
      some (Char.ofNat ((((b.toNat - 0xF0) * 64 + c.toNat % 64) * 64 + d.toNat % 64) * 64 +
        e.toNat % 64)) :: pieces rest := by
  have hlow : (if b.toNat = 0xF0 then 0x90 else 0x80 : UInt8) ≤ c := by
    rw [UInt8.le_iff_toNat_le, apply_ite UInt8.toNat]
    exact hc.1
  have hhigh : c ≤ (if b.toNat = 0xF4 then 0x8F else 0xBF : UInt8) := by
    rw [UInt8.le_iff_toNat_le, apply_ite UInt8.toNat]
    exact hc.2
  exact pieces_sequence [d, e] (lead?_four hb.1 hb.2) hlow hhigh rfl
    (by simpa using ⟨(isContinuation_iff d).mpr hd, (isContinuation_iff e).mpr he⟩) rest

theorem pieces_encode (c : Char) (rest : List UInt8) :
    pieces (String.utf8EncodeChar c ++ rest) = some c :: pieces rest := by
  have hv : c.val.toNat < 0xD800 ∨ 0xDFFF < c.val.toNat ∧ c.val.toNat < 0x110000 := c.valid
  have hchar : Char.ofNat c.val.toNat = c := Char.ofNat_toNat c
  have hbyte : ∀ n < 256, (UInt8.ofNat n).toNat = n := fun n hn => UInt8.toNat_ofNat_of_lt hn
  simp only [String.utf8EncodeChar]
  generalize c.val.toNat = v at *
  have hlast := hbyte (v % 64 + 128) (by omega)
  have hmid := hbyte (v / 64 % 64 + 128) (by omega)
  have hnext := hbyte (v / 4096 % 64 + 128) (by omega)
  split
  · have hb := hbyte v (by omega)
    rw [List.cons_append, List.nil_append, pieces_cons_ascii (by omega), hb, hchar]
  · split
    · have hb := hbyte (v / 64 % 32 + 192) (by omega)
      rw [List.cons_append, List.cons_append, List.nil_append,
        pieces_two (by omega) (by omega), hb, hlast, ← hchar]
      congr 3
      omega
    · split
      · have hb := hbyte (v / 4096 % 16 + 224) (by omega)
        rw [List.cons_append, List.cons_append, List.cons_append, List.nil_append,
          pieces_three (by omega) (by split <;> split <;> omega) (by omega), hb, hmid, hlast, ← hchar]
        congr 3
        omega
      · have hb := hbyte (v / 262144 % 8 + 240) (by omega)
        rw [List.cons_append, List.cons_append, List.cons_append, List.cons_append, List.nil_append,
          pieces_four (by omega) (by split <;> split <;> omega) (by omega) (by omega), hb, hnext, hmid,
          hlast, ← hchar]
        congr 3
        omega

theorem toNat_ofNat_of_valid {n : Nat} (h : n < 0xD800 ∨ 0xDFFF < n ∧ n < 0x110000) :
    (Char.ofNat n).val.toNat = n := by
  rw [Char.ofNat, dif_pos h]
  rfl

theorem encode_two {b c : UInt8} (hb : 0xC2 ≤ b.toNat ∧ b.toNat ≤ 0xDF)
    (hc : 0x80 ≤ c.toNat ∧ c.toNat ≤ 0xBF) :
    String.utf8EncodeChar (Char.ofNat ((b.toNat - 0xC0) * 64 + c.toNat % 64)) = [b, c] := by
  simp only [String.utf8EncodeChar]
  rw [toNat_ofNat_of_valid (by omega), if_neg (by omega), if_pos (by omega)]
  simp only [List.cons.injEq, ← UInt8.toNat_inj, UInt8.toNat_ofNat', and_true]
  omega

theorem encode_three {b c d : UInt8} (hb : 0xE0 ≤ b.toNat ∧ b.toNat ≤ 0xEF)
    (hc : (if b.toNat = 0xE0 then 0xA0 else 0x80) ≤ c.toNat ∧
      c.toNat ≤ if b.toNat = 0xED then 0x9F else 0xBF)
    (hd : 0x80 ≤ d.toNat ∧ d.toNat ≤ 0xBF) :
    String.utf8EncodeChar
      (Char.ofNat (((b.toNat - 0xE0) * 64 + c.toNat % 64) * 64 + d.toNat % 64)) = [b, c, d] := by
  have hc' : 0x80 ≤ c.toNat ∧ c.toNat ≤ 0xBF ∧ (b.toNat = 0xE0 → 0xA0 ≤ c.toNat) ∧
      (b.toNat = 0xED → c.toNat ≤ 0x9F) := by
    revert hc
    split <;> split <;> omega
  simp only [String.utf8EncodeChar]
  rw [toNat_ofNat_of_valid (by omega), if_neg (by omega), if_neg (by omega), if_pos (by omega)]
  simp only [List.cons.injEq, ← UInt8.toNat_inj, UInt8.toNat_ofNat', and_true]
  omega

theorem encode_four {b c d e : UInt8} (hb : 0xF0 ≤ b.toNat ∧ b.toNat ≤ 0xF4)
    (hc : (if b.toNat = 0xF0 then 0x90 else 0x80) ≤ c.toNat ∧
      c.toNat ≤ if b.toNat = 0xF4 then 0x8F else 0xBF)
    (hd : 0x80 ≤ d.toNat ∧ d.toNat ≤ 0xBF) (he : 0x80 ≤ e.toNat ∧ e.toNat ≤ 0xBF) :
    String.utf8EncodeChar (Char.ofNat ((((b.toNat - 0xF0) * 64 + c.toNat % 64) * 64 + d.toNat % 64) * 64 +
      e.toNat % 64)) = [b, c, d, e] := by
  have hc' : 0x80 ≤ c.toNat ∧ c.toNat ≤ 0xBF ∧ (b.toNat = 0xF0 → 0x90 ≤ c.toNat) ∧
      (b.toNat = 0xF4 → c.toNat ≤ 0x8F) := by
    revert hc
    split <;> split <;> omega
  simp only [String.utf8EncodeChar]
  rw [toNat_ofNat_of_valid (by omega), if_neg (by omega), if_neg (by omega), if_neg (by omega)]
  simp only [List.cons.injEq, ← UInt8.toNat_inj, UInt8.toNat_ofNat', and_true]
  omega

theorem encode_code {b c : UInt8} {l : Lead} {bs : List UInt8} (h : lead? b = some l)
    (hlow : l.low ≤ c) (hhigh : c ≤ l.high) (hlen : bs.length + 1 = l.count)
    (hbs : ∀ d ∈ bs, isContinuation d = true) :
    String.utf8EncodeChar (Char.ofNat (l.code (c :: bs))) = b :: c :: bs := by
  obtain ⟨hb, hb'⟩ := lead?_range h
  rw [UInt8.le_iff_toNat_le] at hlow hhigh
  rcases Nat.lt_or_ge b.toNat 0xE0 with h2 | h2
  · rw [lead?_two hb (by omega), Option.some.injEq] at h
    subst h
    obtain rfl : bs = [] := List.eq_nil_of_length_eq_zero (by simpa using hlen)
    exact encode_two ⟨hb, by omega⟩ ⟨hlow, hhigh⟩
  · rcases Nat.lt_or_ge b.toNat 0xF0 with h3 | h3
    · rw [lead?_three h2 (by omega), Option.some.injEq] at h
      subst h
      obtain ⟨d, rfl⟩ : ∃ d, bs = [d] := List.length_eq_one_iff.mp (by simpa using hlen)
      rw [apply_ite UInt8.toNat] at hlow hhigh
      exact encode_three ⟨h2, by omega⟩ ⟨hlow, hhigh⟩ ((isContinuation_iff d).mp (hbs d (by simp)))
    · rw [lead?_four h3 hb', Option.some.injEq] at h
      subst h
      obtain ⟨d, e, rfl⟩ : ∃ d e, bs = [d, e] := List.length_eq_two.mp (by simpa using hlen)
      rw [apply_ite UInt8.toNat] at hlow hhigh
      exact encode_four ⟨h3, hb'⟩ ⟨hlow, hhigh⟩ ((isContinuation_iff d).mp (hbs d (by simp)))
        ((isContinuation_iff e).mp (hbs e (by simp)))

/-- Bytes that start with a piece that is not broken start with the encoding of its character. -/
theorem pieces_head {bytes : List UInt8} {c : Char} {ps : List (Option Char)}
    (h : pieces bytes = some c :: ps) :
    ∃ rest, bytes = String.utf8EncodeChar c ++ rest ∧ pieces rest = ps := by
  cases bytes with
  | nil => simp [pieces] at h
  | cons b rest =>
    by_cases hb : b.toNat < 0x80
    · rw [pieces_cons_ascii hb, List.cons.injEq, Option.some.injEq] at h
      refine ⟨rest, ?_, h.2⟩
      rw [← h.1, String.utf8EncodeChar]
      simp only [toNat_ofNat_of_valid (n := b.toNat) (by omega), if_pos (show b.toNat ≤ 127 by omega)]
      simp
    · cases hl : lead? b with
      | none =>
        rw [pieces, if_neg (by simpa [UInt8.lt_iff_toNat_lt] using hb), hl] at h
        simp at h
      | some l =>
        rw [pieces_cons_lead hl, List.cons.injEq] at h
        obtain ⟨d, bs, hrest, hlow, hhigh, hlen, hbs, rfl⟩ := following_of_char? (lead?_count hl) h.1
        refine ⟨_, ?_, h.2⟩
        rw [encode_code hl hlow hhigh hlen hbs, List.cons_append, ← hrest]

theorem decode?_cons {bytes : List UInt8} {c : Char} {cs : List Char} :
    decode? bytes = some (c :: cs) ↔
      ∃ rest, bytes = String.utf8EncodeChar c ++ rest ∧ decode? rest = some cs := by
  constructor
  · intro h
    cases hp : pieces bytes with
    | nil => simp [decode?, hp] at h
    | cons p ps =>
      simp only [decode?, hp, List.mapM_cons, id_eq, bind, pure, Option.bind_eq_some_iff,
        Option.some.injEq, List.cons.injEq] at h
      obtain ⟨d, rfl, ds, hds, rfl, rfl⟩ := h
      obtain ⟨rest, hrest, rfl⟩ := pieces_head hp
      exact ⟨rest, hrest, hds⟩
  · rintro ⟨rest, rfl, h⟩
    rw [decode?] at h ⊢
    rw [pieces_encode, List.mapM_cons, h]
    rfl

theorem decode?_eq_nil {bytes : List UInt8} (h : decode? bytes = some []) : bytes = [] := by
  cases bytes with
  | nil => rfl
  | cons b rest =>
    rw [decode?, pieces] at h
    split at h
    · simp [Option.bind_eq_some_iff] at h
    · split at h <;> simp [Option.bind_eq_some_iff] at h

theorem decode?_eq_some_iff {bytes : List UInt8} {cs : List Char} :
    decode? bytes = some cs ↔ bytes = encode cs := by
  induction cs generalizing bytes with
  | nil =>
    constructor
    · exact decode?_eq_nil
    · rintro rfl
      simp [decode?, encode, pieces]
  | cons c cs ih =>
    rw [decode?_cons, encode, List.flatMap_cons, ← encode]
    simp only [ih, exists_eq_right]

end PagingGate.Text
