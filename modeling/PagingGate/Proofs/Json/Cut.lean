import PagingGate.Proofs.Json.Literal

set_option autoImplicit false

/-!
# Texts that are cut off

What a reader may answer where the text of a value ends too early. A number that is only passed over counts as
malformed behind a sign, a point or a mark; elsewhere the end of the text itself is the error.
-/

namespace PagingGate.Json

theorem cut_cases {α : Type} {p s a b : List α} (h : a ++ b = p ++ s) :
    (∃ s', s' ≠ [] ∧ a = p ++ s' ∧ s = s' ++ b) ∨ ∃ p', p = a ++ p' ∧ b = p' ++ s := by
  rcases List.append_eq_append_iff.mp h with ⟨p', hp, hb⟩ | ⟨s', ha, hs⟩
  · exact .inr ⟨p', hp, hb⟩
  · by_cases h0 : s' = []
    · subst h0
      exact .inr ⟨[], by simpa using ha.symm, by simpa using hs.symm⟩
    · exact .inl ⟨s', h0, ha, hs⟩

theorem cut_in_or_beyond {α : Type} {p s a b : List α} (h : a ++ b = p ++ s) :
    (∃ s', a = p ++ s') ∨ ∃ p', p' ≠ [] ∧ p = a ++ p' ∧ b = p' ++ s := by
  rcases List.append_eq_append_iff.mp h with ⟨p', hp, hb⟩ | ⟨s', ha, _⟩
  · by_cases h0 : p' = []
    · exact .inl ⟨[], by rw [hp, h0, List.append_nil, List.append_nil]⟩
    · exact .inr ⟨p', h0, hp, hb⟩
  · exact .inl ⟨s', ha⟩

/-- A number cannot end behind this text. -/
def Dangles (cs : List Char) : Prop :=
  ∃ c, cs.getLast? = some c ∧ (IsMark c ∨ c = '.' ∨ c = '+' ∨ c = '-')

/-- The cut leaves a dangling front of a number, and the whole fits as well with any other number there. -/
def CutInNumber (Fits : List Char → Prop) (p s : List Char) : Prop :=
  ∃ (n : Literal) (q front back x : List Char), p = q ++ front ∧ s = back ++ x ∧ n.text = front ++ back ∧
    Dangles front ∧ ∀ m : Literal, Fits (q ++ (m.text ++ x))

def Broken (Fits : List Char → Prop) (p s : List Char) (e : Error) : Prop :=
  e.kind = .ended ∨ e = .numberOutOfRange ∨ (e = .invalidNumber ∧ CutInNumber Fits p s)

/-- What becomes of a value that is cut to `p`. A number may be complete as far as it goes. -/
def Interrupted {α : Type} (v : Value) (Fits : List Char → Prop) (p s : List Char)
    (result : Except Error (α × List Char)) : Prop :=
  (∃ e, result = .error e ∧ Broken Fits p s e) ∨ ∃ n a, v = .number n ∧ result = .ok (a, [])

section
variable {Fits G : List Char → Prop} {p s a b : List Char} {e : Error}

theorem Broken.of_ended (h : e.kind = .ended) : Broken Fits p s e := .inl h

theorem Broken.within (h : Broken Fits p s e) (hfit : ∀ t, Fits t → G (a ++ (t ++ b))) :
    Broken G (a ++ p) (s ++ b) e := by
  rcases h with h | h | ⟨he, n, q, front, back, x, rfl, rfl, hn, hd, hall⟩
  · exact .inl h
  · exact .inr (.inl h)
  · refine .inr (.inr ⟨he, n, a ++ q, front, back, x ++ b, ?_, ?_, hn, hd, fun m => ?_⟩)
    · rw [List.append_assoc]
    · rw [List.append_assoc]
    · simpa only [List.append_assoc] using hfit _ (hall m)

theorem Broken.behind (h : Broken Fits p s e) (hfit : ∀ t, Fits t → G (a ++ t)) : Broken G (a ++ p) s e := by
  have hwithin : Broken G (a ++ p) (s ++ []) e := h.within fun t ht => by
    rw [List.append_nil]
    exact hfit t ht
  rwa [List.append_nil] at hwithin

theorem Broken.mono (h : Broken Fits p s e) (hfit : ∀ t, Fits t → G t) : Broken G p s e :=
  h.behind (a := []) hfit

end

namespace Literal

/-- The front of a number is nothing, a shorter number, or no number. -/
theorem cut (n : Literal) {p s : List Char} (h : n.text = p ++ s) :
    p = [] ∨ (∃ m : Literal, p = m.text) ∨ ∃ front, p = n.sign ++ front ∧ Breaks front [] ∧
      (n.negative = false → startsWithDigit front = true) := by
  rcases cut_cases h with ⟨s', hs', hsign, _⟩ | ⟨front, hp, hfront⟩
  · refine .inl ?_
    rw [sign] at hsign
    split at hsign
    · rcases List.singleton_eq_append_iff.mp hsign with ⟨hp, _⟩ | ⟨_, h0⟩
      · exact hp
      · exact absurd h0 hs'
    · exact (List.append_eq_nil_iff.mp hsign.symm).1
  rcases unsigned_breaksOff n hfront with ⟨m, hneg, hm⟩ | hb
  · exact .inr (.inl ⟨m, by rw [hp, text, sign, sign, hneg, hm]⟩)
  by_cases h0 : p = []
  · exact .inl h0
  refine .inr (.inr ⟨front, hp, hb, fun hn => ?_⟩)
  have hsign : n.sign = [] := by rw [sign, hn]; rfl
  rw [hsign, List.nil_append] at hp
  obtain ⟨c, tail, rfl⟩ := List.exists_cons_of_ne_nil (hp ▸ h0)
  have hstart := n.startsWithDigit_unsigned []
  rw [hfront] at hstart
  exact hstart

theorem dangles (n : Literal) {front : List Char} (h : Breaks front [])
    (hstart : n.negative = false → startsWithDigit front = true) : Dangles (n.sign ++ front) := by
  cases h with
  | start =>
    cases hn : n.negative with
    | true => exact ⟨'-', by simp [sign, hn]⟩
    | false => simp [startsWithDigit] at hstart; simp [hstart] at hn
  | zero hz => simp [startsWithDigit] at hz
  | point n _ _ _ => exact ⟨'.', by simp [← List.append_assoc], .inr (.inl rfl)⟩
  | @mark _ n m sign _ hm hsign _ _ =>
    rcases hsign with rfl | rfl | rfl
    · exact ⟨m, by simp [← List.append_assoc], .inl hm⟩
    · exact ⟨'+', by simp [← List.append_assoc, List.getLast?_append], by simp⟩
    · exact ⟨'-', by simp [← List.append_assoc, List.getLast?_append], by simp⟩

end Literal
end PagingGate.Json
