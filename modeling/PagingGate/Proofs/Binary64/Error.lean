import PagingGate.Proofs.Binary64.Value

set_option autoImplicit false

namespace PagingGate.Binary64

def roundoff : ℚ := 1 / 2 ^ 53

def underflow : ℚ := 2 ^ (-1075 : ℤ)

theorem roundoff_pos : 0 < roundoff := by
  unfold roundoff
  positivity

theorem underflow_pos : 0 < underflow := two_zpow_pos _

theorem abs_rounded_sub_le_grid (q : ℚ) : |rounded q - q| ≤ 2 ^ grid q / 2 := abs_onGrid_sub _ _

theorem two_zpow_log_le {q : ℚ} (h : 0 < q) : (2 : ℚ) ^ Int.log 2 |q| ≤ q := by
  have hlog := Int.zpow_log_le_self one_lt_two h
  rw [Nat.cast_two] at hlog
  rwa [abs_of_pos h]

theorem half_zpow_grid_le {q : ℚ} (h : 0 < q) (hg : grid q = Int.log 2 |q| - 52) : 2 ^ grid q / 2 ≤ roundoff * q := by
  have hlog := two_zpow_log_le h
  rw [hg, zpow_sub₀ two_ne_zero, roundoff]
  norm_num
  linarith

theorem abs_rounded_sub_le_of_normal {q : ℚ} (h : 2 ^ (-1022 : ℤ) ≤ q) : |rounded q - q| ≤ roundoff * q := by
  have h0 : 0 < q := lt_of_lt_of_le (two_zpow_pos _) h
  have hlog : (-1022 : ℤ) ≤ Int.log 2 |q| := by
    rw [abs_of_pos h0, ← Int.zpow_le_iff_le_log one_lt_two h0, Nat.cast_two]
    exact h
  exact (abs_rounded_sub_le_grid q).trans (half_zpow_grid_le h0 (max_eq_left (by omega)))

theorem abs_rounded_sub_le {q : ℚ} (h : 0 < q) : |rounded q - q| ≤ roundoff * q + underflow := by
  have hpos : 0 < roundoff * q := mul_pos roundoff_pos h
  refine (abs_rounded_sub_le_grid q).trans ?_
  rcases max_choice (Int.log 2 |q| - 52) (-1074) with hg | hg
  · exact (half_zpow_grid_le h hg).trans (le_add_of_nonneg_right underflow_pos.le)
  · have hunit : (2 : ℚ) ^ grid q / 2 = underflow := by
      rw [grid, hg, underflow, show (-1075 : ℤ) = -1074 - 1 by decide, zpow_sub_one₀ two_ne_zero, div_eq_mul_inv]
    rw [hunit]
    exact le_add_of_nonneg_left hpos.le

theorem one_normal : (2 : ℚ) ^ (-1022 : ℤ) ≤ 1 := zpow_le_one_of_nonpos₀ one_le_two (by decide)

theorem rounded_pos {q : ℚ} (h : underflow < q) : 0 < rounded q := by
  have h0 : 0 < q := underflow_pos.trans h
  refine lt_of_le_of_ne (rounded_nonneg h0.le) fun hzero => ?_
  have herror := abs_rounded_sub_le_grid q
  rw [← hzero, zero_sub, abs_neg, abs_of_pos h0] at herror
  rcases max_choice (Int.log 2 |q| - 52) (-1074) with hg | hg
  · have hsmall := herror.trans (half_zpow_grid_le h0 hg)
    rw [roundoff] at hsmall
    linarith
  · rw [grid, hg, show (-1074 : ℤ) = -1075 + 1 by decide, zpow_add_one₀ two_ne_zero] at herror
    rw [underflow] at h
    linarith

section
variable {a a' b b' δ ε : ℚ}

theorem abs_mul_sub_mul_le (ha : 0 ≤ a) (hb : 0 ≤ b) (hδ : 0 ≤ δ) (h : |a' - a| ≤ δ * a) (h' : |b' - b| ≤ ε * b) :
    |a' * b' - a * b| ≤ (δ + ε + δ * ε) * (a * b) := by
  have hsplit : a' * b' - a * b = (a' - a) * (b' - b) + (a' - a) * b + a * (b' - b) := by ring
  calc |a' * b' - a * b|
      ≤ |a' - a| * |b' - b| + |a' - a| * b + a * |b' - b| := by
        rw [hsplit]
        refine (abs_add_three _ _ _).trans ?_
        rw [abs_mul, abs_mul, abs_mul, abs_of_nonneg ha, abs_of_nonneg hb]
    _ ≤ δ * a * (ε * b) + δ * a * b + a * (ε * b) := by gcongr
    _ = (δ + ε + δ * ε) * (a * b) := by ring

theorem abs_div_sub_div_le (ha : 0 ≤ a) (hb : 0 < b) (hε0 : 0 ≤ ε) (hε : ε ≤ 1 / 2) (h : |a' - a| ≤ δ * a)
    (h' : |b' - b| ≤ ε * b) : |a' / b' - a / b| ≤ (δ + ε) * (1 + 2 * ε) * (a / b) := by
  have hlow : (1 - ε) * b ≤ b' := by linarith [(abs_le.mp h').1]
  have hb' : 0 < b' := lt_of_lt_of_le (mul_pos (by linarith) hb) hlow
  have hsplit : a' / b' - a / b = ((a' - a) * b - a * (b' - b)) / (b * b') := by
    field_simp
    ring
  have hnum : |(a' - a) * b - a * (b' - b)| ≤ (δ + ε) * (a * b) := by
    calc |(a' - a) * b - a * (b' - b)|
        ≤ |a' - a| * b + a * |b' - b| := by
          refine (abs_sub _ _).trans ?_
          rw [abs_mul, abs_mul, abs_of_nonneg ha, abs_of_pos hb]
      _ ≤ δ * a * b + a * (ε * b) := by gcongr
      _ = (δ + ε) * (a * b) := by ring
  have hgain : 0 ≤ ε * (1 - 2 * ε) * b := mul_nonneg (mul_nonneg hε0 (by linarith)) hb.le
  have hgap : b ≤ (1 + 2 * ε) * b' := by
    calc b ≤ (1 + 2 * ε) * ((1 - ε) * b) := by linarith
      _ ≤ (1 + 2 * ε) * b' := by gcongr
  have hnonneg : 0 ≤ (δ + ε) * (a * b) := (abs_nonneg _).trans hnum
  rw [hsplit, abs_div, abs_of_pos (mul_pos hb hb'), div_le_iff₀ (mul_pos hb hb')]
  calc |(a' - a) * b - a * (b' - b)|
      ≤ (δ + ε) * (a * b) := hnum
    _ = (δ + ε) * (a / b) * b * b := by field_simp
    _ ≤ (δ + ε) * (a / b) * b * ((1 + 2 * ε) * b') := by
        refine mul_le_mul_of_nonneg_left hgap ?_
        have heq : (δ + ε) * (a / b) * b = (δ + ε) * (a * b) / b := by field_simp
        rw [heq]
        exact div_nonneg hnonneg hb.le
    _ = (δ + ε) * (1 + 2 * ε) * (a / b) * (b * b') := by ring

end

theorem Canonical.grid_eq {m : ℕ} {e : ℤ} (h : Canonical m e) (hm : 0 < m) : grid (m * 2 ^ e) = e := by
  have hpos := two_zpow_pos e
  refine Binary64.grid_eq (mul_pos (Nat.cast_pos.mpr hm) hpos) h.low ?_ ?_
  · exact mul_lt_mul_of_pos_right (by exact_mod_cast h.small) hpos
  · refine h.normal.imp (fun hn => ?_) id
    exact mul_le_mul_of_nonneg_right (by exact_mod_cast hn) hpos.le

theorem grid_le {q : ℚ} {e : ℤ} (h0 : 0 < q) (he : -1074 ≤ e) (h : q < 2 ^ 53 * 2 ^ e) : grid q ≤ e := by
  have hlog : Int.log 2 |q| < 53 + e := by
    rw [abs_of_pos h0, ← Int.lt_zpow_iff_log_lt one_lt_two h0, Nat.cast_two, zpow_add₀ two_ne_zero]
    exact_mod_cast h
  exact max_le (by omega) he

/-- What is computed to within eleven quarters of a unit is rounded to within three units. -/
theorem abs_rounded_sub_le_three {m : ℕ} {e : ℤ} {q : ℚ} (h : Canonical m e) (h0 : 0 < q)
    (hq : |q - m * 2 ^ e| ≤ 11 / 4 * 2 ^ e) : |rounded q - m * 2 ^ e| ≤ 3 * 2 ^ e := by
  have hpos := two_zpow_pos e
  have hsmall : (m : ℚ) + 1 ≤ 2 ^ 53 := by exact_mod_cast h.small
  have hgrid : grid q ≤ e + 1 := by
    refine grid_le h0 (by have := h.low; omega) ?_
    rw [zpow_add_one₀ two_ne_zero]
    have hhigh := (abs_le.mp hq).2
    nlinarith
  have herror := abs_rounded_sub_le_grid q
  have htotal : |rounded q - m * 2 ^ e| ≤ 2 ^ grid q / 2 + 11 / 4 * 2 ^ e :=
    (abs_sub_le _ q _).trans (add_le_add herror hq)
  rcases lt_or_ge (grid q) e with hlt | hge
  · have hhalf : (2 : ℚ) ^ grid q ≤ 2 ^ e / 2 := by
      rw [← zpow_sub_one₀ two_ne_zero e |>.trans (div_eq_mul_inv _ _).symm]
      exact zpow_le_zpow_right₀ one_le_two (by omega)
    linarith
  · -- Both are whole multiples of the unit, so that less than four units is at most three.
    obtain ⟨k, hk⟩ : ∃ k : ℤ, rounded q = k * 2 ^ e := ⟨_, mul_zpow_of_le hge _⟩
    have hdouble : (2 : ℚ) ^ grid q ≤ 2 * 2 ^ e := by
      rw [mul_comm, ← zpow_add_one₀ two_ne_zero]
      exact zpow_le_zpow_right₀ one_le_two hgrid
    have hfactor : rounded q - m * 2 ^ e = ((k - m : ℤ) : ℚ) * 2 ^ e := by
      rw [hk]
      push_cast
      ring
    rw [hfactor, abs_mul, abs_of_pos hpos] at htotal ⊢
    have hlt : |((k - m : ℤ) : ℚ)| * 2 ^ e < 4 * 2 ^ e := by linarith
    have hint : |k - m| < 4 := by exact_mod_cast lt_of_mul_lt_mul_right hlt hpos.le
    have hthree : |((k - m : ℤ) : ℚ)| ≤ 3 := by exact_mod_cast Int.lt_add_one_iff.mp hint
    exact mul_le_mul_of_nonneg_right hthree hpos.le

end PagingGate.Binary64
