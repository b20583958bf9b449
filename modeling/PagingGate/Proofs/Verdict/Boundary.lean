import PagingGate.Proofs.Binary64.Scientific
import PagingGate.Verdict

set_option autoImplicit false

/-!
# Deltas at the threshold

A delta is computed in three steps, and each is rounded. The verdict compares the rounded delta with the
threshold, so it may fail a delta that is equal to it. Up to 100 percent this depends on the threshold alone.
-/

namespace PagingGate

open Binary64

/-- The increase of `a` over `f` in percent. -/
def exactDelta (f a : ℚ) : ℚ := (a - f) / f * 100

/-- The same increase, with every step rounded to nearest. -/
def roundedDelta (f a : ℚ) : Extended := lift (· * 100) (lift (· / f) (nearest (a - f)))

/-- A percentage that is no larger after a division by 100 and a multiplication by 100. -/
def Thresholds.IsStable (t : Thresholds) : Prop := t.maxPercent / 100 * 100 ≤ t.maxPercent

instance (t : Thresholds) : Decidable t.IsStable :=
  inferInstanceAs (Decidable (t.maxPercent / 100 * 100 ≤ t.maxPercent))

theorem value?_hundred : value? 100 = some (number 100) := value?_ofNat (by decide)

variable {fixed adaptive : Float} {t : Thresholds}

theorem value?_deltaPercent_of_number {f : ℚ} {a : Extended} (hf : value? fixed = some (number f))
    (ha : value? adaptive = some a) (h0 : 0 < f) :
    value? (deltaPercent fixed adaptive) = some (lift (· * 100) (lift (· / f) (lift (· - f) a))) := by
  have hne : ¬ (fixed == 0) = true := by
    rw [beq_iff hf value?_zero]
    intro h
    exact h0.ne' (number_injective h)
  rw [deltaPercent, if_neg hne]
  have hdifference := value?_sub_of_number ha hf
  exact value?_mul_of_pos (value?_div_of_pos hdifference hf h0) value?_hundred (by norm_num)

theorem value?_deltaPercent (hf : fixed.isFinite) (ha : adaptive.isFinite) (h0 : 0 < rational fixed) :
    value? (deltaPercent fixed adaptive) = some (roundedDelta (rational fixed) (rational adaptive)) := by
  have hdelta := value?_deltaPercent_of_number (value?_of_isFinite hf) (value?_of_isFinite ha) h0
  rwa [lift_number] at hdelta

theorem value?_stable (hp : t.maxPercent.isFinite) : value? (t.maxPercent / 100 * 100) =
    some (lift (· * 100) (nearest (rational t.maxPercent / 100))) := by
  have hquotient := value?_div_of_pos (value?_of_isFinite hp) value?_hundred (by norm_num)
  exact value?_mul_of_pos hquotient value?_hundred (by norm_num)

theorem isStable_iff (hp : t.maxPercent.isFinite) :
    t.IsStable ↔ lift (· * 100) (nearest (rational t.maxPercent / 100)) ≤ number (rational t.maxPercent) :=
  le_iff (value?_stable hp) (value?_of_isFinite hp)

theorem judge_passes_iff : (judge fixed adaptive t).status = .pass ↔
    isUnderMinimum fixed adaptive t.minBytes ∨ deltaPercent fixed adaptive ≤ t.maxPercent := by
  unfold judge
  dsimp only
  by_cases hu : isUnderMinimum fixed adaptive t.minBytes = true
  · rw [hu]
    exact ⟨fun _ => Or.inl rfl, fun _ => rfl⟩
  · rw [Bool.not_eq_true] at hu
    rw [hu, Bool.false_or]
    by_cases hd : deltaPercent fixed adaptive ≤ t.maxPercent
    · rw [if_pos (decide_eq_true hd)]
      exact ⟨fun _ => Or.inr hd, fun _ => rfl⟩
    · rw [if_neg (by rwa [decide_eq_true_iff])]
      exact ⟨fun h => (nomatch h), fun h => absurd (h.resolve_left (by decide)) hd⟩

theorem judge_status_eq_pass_iff (hf : fixed.isFinite) (ha : adaptive.isFinite) (h0 : 0 < rational fixed)
    (hp : t.maxPercent.isFinite) : (judge fixed adaptive t).status = .pass ↔
      isUnderMinimum fixed adaptive t.minBytes ∨
        roundedDelta (rational fixed) (rational adaptive) ≤ number (rational t.maxPercent) := by
  rw [judge_passes_iff, le_iff (value?_deltaPercent hf ha h0) (value?_of_isFinite hp)]

theorem monotone_mul_hundred : Monotone (fun q : ℚ => q * 100) :=
  fun _ _ h => mul_le_mul_of_nonneg_right h (by norm_num)

theorem monotone_div {f : ℚ} (hf : 0 < f) : Monotone (fun q : ℚ => q / f) :=
  fun _ _ h => div_le_div_of_nonneg_right h hf.le

/-- Measurements within a factor of two of each other have an exact difference. -/
theorem roundedDelta_of_le (h0 : 0 < rational fixed)
    (hl : rational fixed ≤ rational adaptive) (hh : rational adaptive ≤ 2 * rational fixed) :
    roundedDelta (rational fixed) (rational adaptive) =
      lift (· * 100) (nearest ((rational adaptive - rational fixed) / rational fixed)) := by
  have hpoint := (isPoint_rational adaptive).sub (isPoint_rational fixed) (by linarith) hh
  have habs : |rational adaptive - rational fixed| < limit := by
    have hlt := abs_rational_lt_limit fixed
    rw [abs_of_pos h0] at hlt
    rw [abs_of_nonneg (by linarith)]
    linarith
  rw [roundedDelta, nearest_of_isPoint hpoint habs, lift_number]

theorem roundedDelta_nonpos {f a : ℚ} (h0 : 0 < f) (h : a ≤ f) : roundedDelta f a ≤ number 0 := by
  have hsub : nearest (a - f) ≤ number 0 := by
    rw [← nearest_zero]
    exact nearest_mono (by linarith)
  have hdiv : lift (· / f) (nearest (a - f)) ≤ number 0 := by
    have := lift_mono (monotone_div h0) hsub
    rwa [lift_number, zero_div, nearest_zero] at this
  have hmul := lift_mono monotone_mul_hundred hdiv
  rwa [lift_number, zero_mul, nearest_zero] at hmul

theorem exactDelta_le_iff {f a p : ℚ} : exactDelta f a ≤ p ↔ (a - f) / f ≤ p / 100 := by
  rw [exactDelta, le_div_iff₀ (by norm_num)]

theorem le_two_mul_of_exactDelta_le {f a : ℚ} (h0 : 0 < f) (h : exactDelta f a ≤ 100) : a ≤ 2 * f := by
  rw [exactDelta_le_iff, div_self (by norm_num), div_le_one h0] at h
  linarith

/-- Under a stable threshold, deltas within the threshold stay within it when they are rounded. -/
theorem roundedDelta_le (h0 : 0 < rational fixed) (hp : t.maxPercent.isFinite)
    (hl : 0 ≤ rational t.maxPercent) (hh : rational t.maxPercent ≤ 100) (hs : t.IsStable)
    (h : exactDelta (rational fixed) (rational adaptive) ≤ rational t.maxPercent) :
    roundedDelta (rational fixed) (rational adaptive) ≤ number (rational t.maxPercent) := by
  rcases le_total (rational adaptive) (rational fixed) with hle | hle
  · exact (roundedDelta_nonpos h0 hle).trans (number_le_number.mpr hl)
  · rw [roundedDelta_of_le h0 hle (le_two_mul_of_exactDelta_le h0 (h.trans hh))]
    have hquotient := nearest_mono (exactDelta_le_iff.mp h)
    exact (lift_mono monotone_mul_hundred hquotient).trans ((isStable_iff hp).mp hs)

theorem nearest_rational (x : Float) : nearest (rational x) = number (rational x) :=
  nearest_of_isPoint (isPoint_rational x) (abs_rational_lt_limit x)

theorem rounded_lt_limit {q : ℚ} (h0 : 0 ≤ q) (h1 : q ≤ 1) : |rounded q| < limit := by
  have hone : rounded 1 = 1 := rounded_of_isPoint ⟨1, 0, by norm_num, by norm_num, by decide⟩
  have hle := rounded_mono h1
  rw [hone] at hle
  have hlimit : (1 : ℚ) < limit := one_lt_zpow₀ one_lt_two (by decide)
  rw [abs_of_nonneg (rounded_nonneg h0)]
  exact lt_of_le_of_lt hle hlimit

/-- The quotient is off by half a unit of its last place at most, and a product that is no larger than a number
stays so when it is rounded. -/
theorem roundedDelta_le_of_margin (h0 : 0 < rational fixed) (hl : 0 ≤ rational t.maxPercent)
    (hh : rational t.maxPercent ≤ 100)
    (h : exactDelta (rational fixed) (rational adaptive) +
      50 * 2 ^ grid ((rational adaptive - rational fixed) / rational fixed) ≤ rational t.maxPercent) :
    roundedDelta (rational fixed) (rational adaptive) ≤ number (rational t.maxPercent) := by
  rcases le_total (rational adaptive) (rational fixed) with hle | hle
  · exact (roundedDelta_nonpos h0 hle).trans (number_le_number.mpr hl)
  · have hwithin : exactDelta (rational fixed) (rational adaptive) ≤ 100 := by
      have := two_zpow_pos (grid ((rational adaptive - rational fixed) / rational fixed))
      linarith
    have htwice := le_two_mul_of_exactDelta_le h0 hwithin
    rw [roundedDelta_of_le h0 hle htwice]
    rw [exactDelta] at h
    have hlow : 0 ≤ (rational adaptive - rational fixed) / rational fixed := div_nonneg (by linarith) h0.le
    have hhigh : (rational adaptive - rational fixed) / rational fixed ≤ 1 := by
      rw [div_le_one h0]
      linarith
    generalize (rational adaptive - rational fixed) / rational fixed = q at h hlow hhigh ⊢
    have herror := (abs_le.mp (abs_onGrid_sub (grid q) q)).2
    rw [nearest, capped_of_abs_lt (rounded_lt_limit hlow hhigh), lift_number, ← nearest_rational]
    refine nearest_mono ?_
    rw [rounded]
    linarith

theorem roundedDelta_of_eq (h0 : 0 < rational fixed) (hl : 0 ≤ rational t.maxPercent) (hh : rational t.maxPercent ≤ 100)
    (h : exactDelta (rational fixed) (rational adaptive) = rational t.maxPercent) :
    roundedDelta (rational fixed) (rational adaptive) =
      lift (· * 100) (nearest (rational t.maxPercent / 100)) := by
  have hquotient : (rational adaptive - rational fixed) / rational fixed = rational t.maxPercent / 100 := by
    rw [← h, exactDelta, mul_div_cancel_right₀ _ (by norm_num)]
  have hle : rational fixed ≤ rational adaptive := by
    have hdifference : rational adaptive - rational fixed = rational t.maxPercent / 100 * rational fixed :=
      (div_eq_iff h0.ne').mp hquotient
    have : 0 ≤ rational t.maxPercent / 100 * rational fixed := by positivity
    linarith
  rw [roundedDelta_of_le h0 hle (le_two_mul_of_exactDelta_le h0 (h.le.trans hh)), hquotient]

/-- A verdict on finite measurements fails a delta within the threshold only where the rounded delta is not.
Under a threshold between 0 and 100 percent that happens only if the threshold is not stable and the delta is
within half a unit of the last place from it. A delta equal to a threshold that is not stable always fails. -/
theorem judge_status_of_finite (hf : fixed.isFinite) (ha : adaptive.isFinite) (h0 : 0 < rational fixed)
    (hp : t.maxPercent.isFinite) :
    ((judge fixed adaptive t).status = .pass ↔ isUnderMinimum fixed adaptive t.minBytes ∨
      roundedDelta (rational fixed) (rational adaptive) ≤ number (rational t.maxPercent)) ∧
    (0 ≤ rational t.maxPercent → rational t.maxPercent ≤ 100 →
      (exactDelta (rational fixed) (rational adaptive) +
          50 * 2 ^ grid ((rational adaptive - rational fixed) / rational fixed) ≤ rational t.maxPercent →
        (judge fixed adaptive t).status = .pass) ∧
      (t.IsStable → exactDelta (rational fixed) (rational adaptive) ≤ rational t.maxPercent →
        (judge fixed adaptive t).status = .pass) ∧
      (exactDelta (rational fixed) (rational adaptive) = rational t.maxPercent →
        ((judge fixed adaptive t).status = .pass ↔
          isUnderMinimum fixed adaptive t.minBytes ∨ t.IsStable))) := by
  have hiff := judge_status_eq_pass_iff hf ha h0 hp
  refine ⟨hiff, fun hl hh => ⟨fun h => ?_, fun hs h => ?_, fun h => ?_⟩⟩
  · exact hiff.mpr (Or.inr (roundedDelta_le_of_margin h0 hl hh h))
  · exact hiff.mpr (Or.inr (roundedDelta_le h0 hp hl hh hs h))
  · rw [hiff, roundedDelta_of_eq h0 hl hh h, isStable_iff hp]

theorem judge_status_at_twenty_percent :
    0 < rational 10000 ∧ exactDelta (rational 10000) (rational 12000) = rational Thresholds.default.maxPercent ∧
      (judge 10000 12000 .default).status = .pass := by
  have hf : rational 10000 = 10000 := @rational_ofNat 10000 (by decide)
  have ha : rational 12000 = 12000 := @rational_ofNat 12000 (by decide)
  have hp : rational Thresholds.default.maxPercent = 20 := @rational_ofNat 20 (by decide)
  have h0 : 0 < rational 10000 := by
    rw [hf]
    norm_num
  have hdelta : exactDelta (rational 10000) (rational 12000) = rational Thresholds.default.maxPercent := by
    rw [hf, ha, hp, exactDelta]
    norm_num
  have hstatus := @judge_status_of_finite 10000 12000 .default (@isFinite_ofNat 10000 (by decide))
    (@isFinite_ofNat 12000 (by decide)) h0 (@isFinite_ofNat 20 (by decide))
  obtain ⟨_, hwithin, _⟩ := hstatus.2 (by rw [hp]; norm_num) (by rw [hp]; norm_num)
  exact ⟨h0, hdelta, hwithin (by decide) hdelta.le⟩

theorem judge_status_at_seven_percent : ¬ ∀ (fixed adaptive : Float) (t : Thresholds), fixed.isFinite →
    adaptive.isFinite → t.maxPercent.isFinite → t.minBytes.isFinite → 0 < rational fixed →
      exactDelta (rational fixed) (rational adaptive) ≤ rational t.maxPercent →
        (judge fixed adaptive t).status = .pass := by
  intro h
  have hf : rational 100 = 100 := @rational_ofNat 100 (by decide)
  have ha : rational 107 = 107 := @rational_ofNat 107 (by decide)
  have hp : rational 7 = 7 := @rational_ofNat 7 (by decide)
  have hdelta : exactDelta (rational 100) (rational 107) ≤ rational 7 := by
    rw [hf, ha, hp, exactDelta]
    norm_num
  have hpass := h 100 107 ⟨7, 0⟩ (@isFinite_ofNat 100 (by decide)) (@isFinite_ofNat 107 (by decide))
    (@isFinite_ofNat 7 (by decide)) rfl (by rw [hf]; norm_num) hdelta
  exact absurd hpass (by decide)

end PagingGate
