import Mathlib.Data.List.Infix
import PagingGate.Report

set_option autoImplicit false

/-!
# Strategies by their words

A label is put into lower case in full Unicode before it is searched. The answer is that of a search in the label
itself that looks at the letters of ASCII only: no other character is lowered to a letter of the words, except that a
dotted capital I becomes an `i` with a dot behind it, and no word ends in `i`.
-/

namespace PagingGate

namespace Text

def CaseRun.IsAscii (r : CaseRun) : Prop := r.first = 0x41 ∧ r.last = 0x5A ∧ r.step = 1 ∧ r.shift = 32

/-- The Kelvin sign, which is lowered to `k`. -/
def CaseRun.IsKelvin (r : CaseRun) : Prop := r.first = 0x212A ∧ r.last = 0x212A ∧ r.shift = 0x6B - 0x212A

def CaseRun.IsHigh (r : CaseRun) : Prop := 0x80 ≤ r.first ∧ 0x80 ≤ r.first + r.shift

instance (r : CaseRun) : Decidable r.IsAscii := inferInstanceAs (Decidable (_ ∧ _))
instance (r : CaseRun) : Decidable r.IsKelvin := inferInstanceAs (Decidable (_ ∧ _))
instance (r : CaseRun) : Decidable r.IsHigh := inferInstanceAs (Decidable (_ ∧ _))

theorem caseRuns_cases : ∀ r ∈ caseRuns, r.IsAscii ∨ r.IsKelvin ∨ r.IsHigh := by decide +kernel

theorem exists_asciiRun : ∃ r ∈ caseRuns, r.IsAscii := ⟨_, List.Mem.head _, by decide⟩

theorem CaseRun.covers_iff {r : CaseRun} {n : Nat} :
    r.covers n = true ↔ r.first ≤ n ∧ n ≤ r.last ∧ (n - r.first) % r.step = 0 := by
  simp [covers, and_assoc]

theorem CaseRun.beyond_ascii {r : CaseRun} {n : Nat} (hr : r.IsKelvin ∨ r.IsHigh) (h : r.covers n = true) :
    0x80 ≤ n ∧ (((n : Int) + r.shift).toNat = 0x6B ∨ 0x80 ≤ ((n : Int) + r.shift).toNat) := by
  obtain ⟨hl, hh, _⟩ := CaseRun.covers_iff.mp h
  rcases hr with ⟨hfirst, hlast, hshift⟩ | ⟨hfirst, hshift⟩
  · omega
  · omega

theorem toNat_toLower_of_capital {c : Char} (hl : 0x41 ≤ c.toNat) (hh : c.toNat ≤ 0x5A) :
    c.toLower.toNat = c.toNat + 32 := by
  have hcapital : c.val ≥ 'A'.val ∧ c.val ≤ 'Z'.val := ⟨hl, hh⟩
  refine (congrArg Char.toNat (dif_pos hcapital)).trans ?_
  change (c.val + ('a'.val - 'A'.val)).toNat = c.val.toNat + 32
  have hsmall : c.val.toNat ≤ 0x5A := hh
  have hshift : ('a'.val - 'A'.val : UInt32).toNat = 32 := rfl
  rw [UInt32.toNat_add, hshift]
  omega

theorem toLower_of_not_capital {c : Char} (h : ¬ (0x41 ≤ c.toNat ∧ c.toNat ≤ 0x5A)) : c.toLower = c :=
  dif_neg (c := c.val ≥ 'A'.val ∧ c.val ≤ 'Z'.val) h

/-- The small letters that only their own capitals are lowered to. -/
structure IsPlain (a : Char) : Prop where
  low : 0x61 ≤ a.toNat
  high : a.toNat ≤ 0x7A
  notKelvin : a.toNat ≠ 0x6B

instance (a : Char) : Decidable (IsPlain a) :=
  decidable_of_iff (0x61 ≤ a.toNat ∧ a.toNat ≤ 0x7A ∧ a.toNat ≠ 0x6B)
    ⟨fun ⟨hl, hh, hk⟩ => ⟨hl, hh, hk⟩, fun ⟨hl, hh, hk⟩ => ⟨hl, hh, hk⟩⟩

theorem IsPlain.ne {a c : Char} (ha : IsPlain a) (hc : c.toNat < 0x61 ∨ 0x7A < c.toNat ∨ c.toNat = 0x6B) :
    a ≠ c := by
  rintro rfl
  have := ha.low
  have := ha.high
  have := ha.notKelvin
  omega

theorem toNat_ofNat_eq (n : Nat) : (Char.ofNat n).toNat = n ∨ (Char.ofNat n).toNat = 0 := by
  by_cases h : n.isValidChar
  · exact Or.inl (congrArg Char.toNat (dif_pos h))
  · exact Or.inr (congrArg Char.toNat (dif_neg h))

/-- Where a character is lowered to a single one, plain letters do not tell that from lowering in ASCII. -/
theorem lowerChar_single {c : Char} (hdotted : c ≠ '\u0130') :
    ∃ d, lowerChar c = [d] ∧ ∀ a, IsPlain a → (a = d ↔ a = c.toLower) := by
  unfold lowerChar
  rw [if_neg hdotted]
  cases hfind : caseRuns.find? (·.covers c.toNat) with
  | none =>
    refine ⟨c, rfl, fun a _ => ?_⟩
    obtain ⟨r, hr, hfirst, hlast, hstep, _⟩ := exists_asciiRun
    have hcovers := List.find?_eq_none.mp hfind r hr
    rw [CaseRun.covers_iff, hfirst, hlast, hstep, Nat.mod_one] at hcovers
    rw [toLower_of_not_capital fun ⟨hl, hh⟩ => hcovers ⟨hl, hh, rfl⟩]
  | some r =>
    refine ⟨_, rfl, fun a ha => ?_⟩
    have hcovers := @List.find?_some _ (fun r : CaseRun => r.covers c.toNat) _ _ hfind
    rcases caseRuns_cases r (List.mem_of_find?_eq_some hfind) with ⟨hfirst, hlast, _, hshift⟩ | hbeyond
    · obtain ⟨hl, hh, _⟩ := CaseRun.covers_iff.mp hcovers
      rw [hfirst] at hl
      rw [hlast] at hh
      have himage : ((c.toNat : Int) + r.shift).toNat = c.toLower.toNat := by
        rw [toNat_toLower_of_capital hl hh, hshift]
        omega
      rw [himage, Char.ofNat_toNat]
    · obtain ⟨hc, himage⟩ := CaseRun.beyond_ascii hbeyond hcovers
      have hvalid := toNat_ofNat_eq ((c.toNat : Int) + r.shift).toNat
      have hleft : a ≠ Char.ofNat ((c.toNat : Int) + r.shift).toNat := ha.ne (by omega)
      have hright : a ≠ c.toLower := by
        rw [toLower_of_not_capital (by omega)]
        exact ha.ne (by omega)
      exact iff_of_false hleft hright

theorem lowerSigma_high (before after : List Char) : 0x7A < (lowerSigma before after).toNat := by
  unfold lowerSigma
  split <;> decide

structure IsPlainWord (word : List Char) : Prop where
  letters : ∀ a ∈ word, IsPlain a
  ending : word.getLast? ≠ some 'i'

theorem IsPlainWord.tail {a : Char} {word : List Char} (h : IsPlainWord (a :: word)) : IsPlainWord word where
  letters b hb := h.letters b (List.mem_cons_of_mem a hb)
  ending := by
    cases word with
    | nil => exact fun h => (nomatch h)
    | cons b word =>
      have hend := h.ending
      rwa [List.getLast?_cons_cons] at hend

theorem IsPlainWord.not_cons_prefix {word : List Char} (h : IsPlainWord word) (h0 : word ≠ []) {c : Char}
    (hc : c.toNat < 0x61 ∨ 0x7A < c.toNat) (cs : List Char) : ¬ word <+: c :: cs := by
  obtain ⟨a, word, rfl⟩ := List.exists_cons_of_ne_nil h0
  rw [List.cons_prefix_cons]
  rintro ⟨rfl, _⟩
  exact (h.letters _ List.mem_cons_self).ne (by omega) rfl

/-- An `i` with a dot behind it does not begin a word, since the `i` is not its end. -/
theorem IsPlainWord.not_dotted_prefix {word : List Char} (h : IsPlainWord word) (h0 : word ≠ []) (cs : List Char) :
    ¬ word <+: 'i' :: '\u0307' :: cs := by
  obtain ⟨a, word, rfl⟩ := List.exists_cons_of_ne_nil h0
  rw [List.cons_prefix_cons]
  rintro ⟨rfl, hword⟩
  have hne : word ≠ [] := by
    rintro rfl
    exact h.ending rfl
  exact h.tail.not_cons_prefix hne (by decide) cs hword

/-- The induction runs over the text. What has been passed only decides the form of a sigma, which is in no word. -/
theorem prefix_lowerFrom_iff {word : List Char} (h : IsPlainWord word) (before cs : List Char) :
    word <+: lowerFrom before cs ↔ word <+: cs.map Char.toLower := by
  induction cs generalizing word before with
  | nil => rfl
  | cons c cs ih =>
    by_cases h0 : word = []
    · rw [h0]
      exact iff_of_true List.nil_prefix List.nil_prefix
    rw [lowerFrom, List.map_cons]
    by_cases hsigma : c = 'Σ'
    · subst hsigma
      rw [if_pos rfl, List.singleton_append]
      exact iff_of_false (h.not_cons_prefix h0 (Or.inr (lowerSigma_high before cs)) _)
        (h.not_cons_prefix h0 (by decide) _)
    rw [if_neg hsigma]
    by_cases hdotted : c = '\u0130'
    · subst hdotted
      exact iff_of_false (h.not_dotted_prefix h0 _) (h.not_cons_prefix h0 (by decide) _)
    · obtain ⟨d, hd, hplain⟩ := lowerChar_single hdotted
      obtain ⟨a, word, rfl⟩ := List.exists_cons_of_ne_nil h0
      rw [hd, List.singleton_append, List.cons_prefix_cons, List.cons_prefix_cons,
        hplain a (h.letters a List.mem_cons_self), ih h.tail]

theorem infix_lowerFrom_iff {word : List Char} (h : IsPlainWord word) (before cs : List Char) :
    word <:+: lowerFrom before cs ↔ word <:+: cs.map Char.toLower := by
  induction cs generalizing before with
  | nil => rfl
  | cons c cs ih =>
    by_cases h0 : word = []
    · rw [h0]
      exact iff_of_true List.nil_infix List.nil_infix
    have hprefix := prefix_lowerFrom_iff h before (c :: cs)
    rw [List.map_cons, List.infix_cons_iff, ← List.map_cons, ← hprefix, ← ih (c :: before), lowerFrom]
    by_cases hsigma : c = 'Σ'
    · rw [if_pos hsigma, List.singleton_append, List.infix_cons_iff]
    rw [if_neg hsigma]
    by_cases hdotted : c = '\u0130'
    · subst hdotted
      have hdot : ¬ word <+: '\u0307' :: lowerFrom ('\u0130' :: before) cs := h.not_cons_prefix h0 (by decide) _
      change word <:+: 'i' :: '\u0307' :: lowerFrom _ cs ↔ word <+: 'i' :: '\u0307' :: lowerFrom _ cs ∨ _
      rw [List.infix_cons_iff, List.infix_cons_iff, or_iff_right hdot]
    · obtain ⟨d, hd, _⟩ := lowerChar_single hdotted
      rw [hd, List.singleton_append, List.infix_cons_iff]

end Text

theorem holds_iff {word cs : List Char} : holds word cs = true ↔ word <:+: cs := by
  induction cs with
  | nil => rw [holds, List.isEmpty_iff, List.infix_nil]
  | cons c cs ih => rw [holds, Bool.or_eq_true, List.isPrefixOf_iff_prefix, ih, List.infix_cons_iff]

theorem Strategy.isPlainWord (s : Strategy) : Text.IsPlainWord s.word := by
  have hletters : s.word.all (fun a => decide (Text.IsPlain a)) = true := by
    cases s <;> decide
  refine ⟨fun a ha => of_decide_eq_true (List.all_eq_true.mp hletters a ha), ?_⟩
  cases s <;> decide

theorem Strategy.namedIn_cases (text : List Char) :
    (namedIn text = some .fixed ↔ fixed.word <:+: text) ∧
    (namedIn text = some .adaptive ↔ ¬ fixed.word <:+: text ∧ adaptive.word <:+: text) ∧
    (namedIn text = none ↔ ¬ fixed.word <:+: text ∧ ¬ adaptive.word <:+: text) := by
  unfold namedIn
  by_cases hf : fixed.word <:+: text
  · rw [if_pos (holds_iff.mpr hf)]
    simp [hf]
  · rw [if_neg (fun h => hf (holds_iff.mp h))]
    by_cases ha : adaptive.word <:+: text
    · rw [if_pos (holds_iff.mpr ha)]
      simp [hf, ha]
    · rw [if_neg (fun h => ha (holds_iff.mp h))]
      simp [hf, ha]

/-- Neither the dotted capital I nor the dotless small one counts as an `i`. -/
example : (Entry.mk (some "F\u0130XED F\u0131xed aDaptIVE") none none).strategy = some .adaptive := by decide +kernel

end PagingGate
