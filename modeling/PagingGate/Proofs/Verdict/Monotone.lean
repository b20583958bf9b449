import PagingGate.Proofs.Verdict.Boundary

set_option autoImplicit false

namespace PagingGate

open Binary64

variable {fixed a b m n p : Float}

theorem isUnderMinimum_iff : isUnderMinimum fixed a m ↔ a < m ∧ fixed < m := by
  rw [isUnderMinimum, Bool.and_eq_true, decide_eq_true_iff, decide_eq_true_iff]

theorem isUnderMinimum_of_le (hab : a ≤ b) (hmn : m ≤ n) (h : isUnderMinimum fixed b m) :
    isUnderMinimum fixed a n := by
  obtain ⟨hb, hfixed⟩ := isUnderMinimum_iff.mp h
  have ha : a < m := float_lt_of_le_of_lt hab hb
  exact isUnderMinimum_iff.mpr ⟨float_lt_of_lt_of_le ha hmn, float_lt_of_lt_of_le hfixed hmn⟩

theorem deltaPercent_of_zero (h : value? fixed = some (number 0)) (a : Float) : deltaPercent fixed a = 1 / 0 :=
  if_pos ((beq_iff h value?_zero).mpr rfl)

theorem value?_deltaPercent_of_infinite {s : Float.Model.UnpackedFloat.Sign} (h : value? fixed = some (infinite s))
    (a : Float) : value? (deltaPercent fixed a) = none := by
  have hne : ¬ (fixed == 0) = true := by
    rw [beq_iff h value?_zero]
    exact infinite_ne_number s 0
  have hquotient : value? ((a - fixed) / fixed) = none := by
    rcases value?_sub_of_infinite a h with hnone | ⟨t, hinfinite⟩
    · exact @value?_div_of_infinite _ _ s s (Or.inl hnone) h
    · exact value?_div_of_infinite (Or.inr hinfinite) h
  rw [deltaPercent, if_neg hne]
  exact value?_mul_of_none hquotient 100

theorem monotone_sub (f : ℚ) : Monotone (fun q : ℚ => q - f) :=
  fun _ _ h => sub_le_sub_right h f

theorem deltaPercent_le_of_number {f : ℚ} (hf : value? fixed = some (number f)) (h0 : 0 < f) (hab : a ≤ b) :
    deltaPercent fixed a ≤ deltaPercent fixed b := by
  obtain ⟨u, v, hu, hv, huv⟩ := values_of_le hab
  rw [le_iff (value?_deltaPercent_of_number hf hu h0) (value?_deltaPercent_of_number hf hv h0)]
  exact lift_mono monotone_mul_hundred (lift_mono (monotone_div h0) (lift_mono (monotone_sub f) huv))

theorem deltaPercent_within (h0 : 0 ≤ fixed) (hab : a ≤ b) (h : deltaPercent fixed b ≤ p) :
    deltaPercent fixed a ≤ p := by
  obtain ⟨z, v, hz, hv, hzv⟩ := values_of_le h0
  obtain rfl := Option.some.inj (hz.symm.trans value?_zero)
  rcases eq_infinite_or_number v with ⟨s, rfl⟩ | ⟨f, rfl⟩
  · cases s with
    | negative => exact absurd hzv (not_le.mpr (bot_lt_number 0))
    | positive =>
      obtain ⟨d, _, hd, _, _⟩ := values_of_le h
      rw [value?_deltaPercent_of_infinite (s := .positive) hv b] at hd
      cases hd
  · rcases (number_le_number.mp hzv).eq_or_lt with rfl | hpos
    · rw [deltaPercent_of_zero hv] at h ⊢
      exact h
    · exact float_le_trans (deltaPercent_le_of_number hv hpos hab) h

/-- A verdict that passes still passes with less adaptive allocation and under looser thresholds. The
allocation of fixed paging may be zero of either sign or infinite, and the delta may overflow. -/
theorem judge_passes_of_le {s t : Thresholds} (h0 : 0 ≤ fixed) (hab : a ≤ b)
    (hpercent : s.maxPercent ≤ t.maxPercent) (hbytes : s.minBytes ≤ t.minBytes)
    (h : (judge fixed b s).status = .pass) : (judge fixed a t).status = .pass := by
  rcases judge_passes_iff.mp h with hunder | hdelta
  · exact judge_passes_iff.mpr (Or.inl (isUnderMinimum_of_le hab hbytes hunder))
  · have hwithin : deltaPercent fixed a ≤ s.maxPercent := deltaPercent_within h0 hab hdelta
    exact judge_passes_iff.mpr (Or.inr (float_le_trans hwithin hpercent))

theorem judge_passes_over_negative_zero :
    0 ≤ (-0 : Float) ∧ (-1 / 0 : Float) ≤ 5 ∧ (0 : Float) ≤ 1 / 0 ∧ (10 : Float) ≤ 10 ∧
      (judge (-0) 5 ⟨0, 10⟩).status = .pass ∧ (judge (-0) (-1 / 0) ⟨1 / 0, 10⟩).status = .pass := by
  have h0 : 0 ≤ (-0 : Float) := by decide
  have hab : (-1 / 0 : Float) ≤ 5 := by decide
  have hpercent : (0 : Float) ≤ 1 / 0 := by decide
  have hbytes : (10 : Float) ≤ 10 := by decide
  have h : (judge (-0) 5 ⟨0, 10⟩).status = .pass := by decide
  have hless := @judge_passes_of_le (-0) (-1 / 0) 5 ⟨0, 10⟩ ⟨1 / 0, 10⟩ h0 hab hpercent hbytes h
  exact ⟨h0, hab, hpercent, hbytes, h, hless⟩

end PagingGate
