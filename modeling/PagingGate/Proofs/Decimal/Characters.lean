import PagingGate.Json.Text
import PagingGate.Summary

set_option autoImplicit false

namespace PagingGate

def isNumberChar (c : Char) : Bool := c.isDigit || "+-.,einfNaul".toList.contains c

namespace Decimal

theorem isNumberChar_of_isDigit {c : Char} (h : c.isDigit = true) : isNumberChar c = true := by
  rw [isNumberChar, h, Bool.true_or]

theorem all_toDigits (n : Nat) : (Nat.toDigits 10 n).all isNumberChar = true := by
  rw [List.all_eq_true]
  intro c hc
  exact isNumberChar_of_isDigit (Nat.isDigit_of_mem_toDigits (by decide) (by decide) hc)

theorem all_replicate_zero (n : Nat) : (List.replicate n '0').all isNumberChar = true := by
  rw [List.all_eq_true]
  intro c hc
  rw [List.eq_of_mem_replicate hc]
  rfl

theorem all_take {cs : List Char} (h : cs.all isNumberChar = true) (n : Nat) :
    (cs.take n).all isNumberChar = true := by
  rw [List.all_eq_true] at *
  exact fun c hc => h c (List.mem_of_mem_take hc)

theorem all_drop {cs : List Char} (h : cs.all isNumberChar = true) (n : Nat) :
    (cs.drop n).all isNumberChar = true := by
  rw [List.all_eq_true] at *
  exact fun c hc => h c (List.mem_of_mem_drop hc)

theorem all_placed (places n : Nat) : (placed places n).all isNumberChar = true := by
  have hp : (padded places n).all isNumberChar = true := by
    rw [padded, List.all_append, all_replicate_zero, all_toDigits]
    rfl
  unfold placed
  split
  · exact all_take hp _
  · rw [List.all_append, List.all_cons, all_take hp, all_drop hp]
    decide

theorem all_fixed (places : Nat) (x : Float) : (fixed places x).all isNumberChar = true := by
  unfold fixed
  split
  · decide
  · split <;> decide
  · simp only
    split
    · rw [List.all_cons, all_placed]
      decide
    · exact all_placed _ _

theorem all_positionalText {digits : List Char} (h : digits.all isNumberChar = true) (k : Int) :
    (positionalText digits k).all isNumberChar = true := by
  unfold positionalText
  split
  · rw [List.all_append, List.all_append, h, all_replicate_zero]
    decide
  · simp only
    split
    · rw [List.all_append, List.all_cons, all_take h, all_drop h]
      decide
    · rw [List.all_append, List.all_append, h, all_replicate_zero]
      decide

theorem all_scientificText {digits : List Char} (h : digits.all isNumberChar = true) (e : Int) :
    (scientificText digits e).all isNumberChar = true := by
  unfold scientificText
  simp only
  rw [List.all_append, Bool.and_eq_true]
  constructor
  · split
    · rfl
    · exact h
    · rename_i d rest _
      rw [List.all_cons] at h
      rw [List.all_cons, List.all_cons, Bool.and_left_comm, h]
      decide
  · have hs : isNumberChar (if 0 ≤ e then '+' else '-') = true := by
      split <;> decide
    rw [List.all_cons, List.all_cons, hs, all_toDigits]
    decide

theorem all_text (l : Layout) (d : Nat) (k : Int) : (l.text d k).all isNumberChar = true := by
  unfold Layout.text
  simp only
  split
  · exact all_positionalText (all_toDigits d) k
  · exact all_scientificText (all_toDigits d) _

theorem all_finiteText (l : Layout) (negative : Bool) (m : Nat) (e : Int) :
    (l.finiteText negative m e).all isNumberChar = true := by
  have hsign : isNumberChar '-' = true := by decide
  unfold Layout.finiteText
  generalize ht : (if m = 0 then "0.0".toList else _) = text
  have htext : text.all isNumberChar = true := by
    rw [← ht]
    split
    · decide
    · rcases shortest m e with ⟨d, k⟩
      exact all_text l d k
  simp only
  split
  · rw [List.all_cons, hsign, htext]
    rfl
  · exact htext

end Decimal

theorem Json.all_numberText (x : Float) : (numberText x).all isNumberChar = true := by
  unfold numberText
  split
  · exact Decimal.all_finiteText _ _ _ _
  · decide

theorem all_groupDigits {digits : List Char} (h : digits.all isNumberChar = true) :
    (groupDigits digits).all isNumberChar = true := by
  induction digits with
  | nil => rfl
  | cons c cs ih =>
    rw [List.all_cons, Bool.and_eq_true] at h
    unfold groupDigits
    split
    · rw [List.all_cons, List.all_cons, h.1, ih h.2]
      decide
    · rw [List.all_cons, h.1, ih h.2]
      rfl

theorem all_groupThousands (x : Float) : (groupThousands x).all isNumberChar = true := by
  have hf := Decimal.all_fixed 0 x
  unfold groupThousands
  split
  · rename_i digits hd
    rw [hd, List.all_cons, Bool.and_eq_true] at hf
    rw [List.all_cons]
    split
    · rw [all_groupDigits hf.2]
      decide
    · rw [hf.2]
      decide
  · split
    · exact all_groupDigits hf
    · exact hf

theorem not_mem_of_all {cs : List Char} (h : cs.all isNumberChar = true) {c : Char}
    (hc : isNumberChar c = false) : c ∉ cs := by
  intro hm
  rw [List.all_eq_true.mp h c hm] at hc
  exact Bool.noConfusion hc

@[simp] theorem newline_not_mem_percentText (x : Float) : '\n' ∉ percentText x := by
  simp [percentText, not_mem_of_all (Decimal.all_fixed 2 x) (c := '\n') (by decide)]

@[simp] theorem newline_not_mem_groupThousands (x : Float) : '\n' ∉ groupThousands x :=
  not_mem_of_all (all_groupThousands x) (by decide)

@[simp] theorem Json.newline_not_mem_numberText (x : Float) : '\n' ∉ numberText x :=
  not_mem_of_all (all_numberText x) (by decide)

end PagingGate
