import PagingGate.Decimal.Shortest
import PagingGate.Proofs.Binary64.Value

set_option autoImplicit false

namespace PagingGate.Decimal

open Binary64

theorem zpow_eq_div {b : ℕ} (hb : 0 < b) (e : ℤ) :
    (b : ℚ) ^ e = ((b ^ e.toNat : ℕ) : ℚ) / ((b ^ (-e).toNat : ℕ) : ℚ) := by
  have hb0 : (b : ℚ) ≠ 0 := (Nat.cast_pos.mpr hb).ne'
  have he : e = e.toNat - (-e).toNat := by omega
  conv_lhs => rw [he, zpow_sub₀ hb0, zpow_natCast, zpow_natCast]
  push_cast
  rfl

@[simp] theorem ten_zpow_pos (k : ℤ) : (0 : ℚ) < 10 ^ k := by positivity

namespace RoundingInterval

/-- The ends belong to a closed interval. -/
structure Contains (i : RoundingInterval) (q : ℚ) : Prop where
  low_le : (i.low : ℚ) * 2 ^ i.unit ≤ q
  le_high : q ≤ i.high * 2 ^ i.unit
  closed : (i.low : ℚ) * 2 ^ i.unit = q ∨ q = i.high * 2 ^ i.unit → i.closed = true

def width (i : RoundingInterval) : ℚ := (i.high - i.low) * 2 ^ i.unit

def scaleUp (i : RoundingInterval) (k : ℤ) : ℕ := 2 ^ i.unit.toNat * 10 ^ (-k).toNat

def scaleDown (i : RoundingInterval) (k : ℤ) : ℕ := 2 ^ (-i.unit).toNat * 10 ^ k.toNat

variable (i : RoundingInterval) (k : ℤ)

theorem scaleDown_pos : 0 < i.scaleDown k := by
  unfold scaleDown
  positivity

theorem scaleUp_div : (i.scaleUp k : ℚ) / i.scaleDown k = 2 ^ i.unit / 10 ^ k := by
  have htwo := zpow_eq_div two_pos i.unit
  have hten := zpow_eq_div (show 0 < 10 by decide) k
  push_cast at htwo hten
  rw [htwo, hten, scaleUp, scaleDown]
  push_cast
  field_simp

theorem mul_scaleUp (x : ℕ) : ((x * i.scaleUp k : ℕ) : ℚ) = x * 2 ^ i.unit / 10 ^ k * i.scaleDown k := by
  have hdown : (i.scaleDown k : ℚ) ≠ 0 := (Nat.cast_pos.mpr (i.scaleDown_pos k)).ne'
  rw [mul_div_assoc, ← i.scaleUp_div k, Nat.cast_mul, ← mul_div_assoc, div_mul_cancel₀ _ hdown]

variable {i k}

theorem scaled_lt_iff {x n : ℕ} : x * i.scaleUp k < n * i.scaleDown k ↔ (x : ℚ) * 2 ^ i.unit < n * 10 ^ k := by
  have hdown : (0 : ℚ) < i.scaleDown k := Nat.cast_pos.mpr (i.scaleDown_pos k)
  rw [← Nat.cast_lt (α := ℚ), i.mul_scaleUp k, Nat.cast_mul, mul_lt_mul_iff_left₀ hdown,
    div_lt_iff₀ (ten_zpow_pos k)]

theorem lt_scaled_iff {x n : ℕ} : n * i.scaleDown k < x * i.scaleUp k ↔ (n : ℚ) * 10 ^ k < x * 2 ^ i.unit := by
  have hdown : (0 : ℚ) < i.scaleDown k := Nat.cast_pos.mpr (i.scaleDown_pos k)
  rw [← Nat.cast_lt (α := ℚ), i.mul_scaleUp k, Nat.cast_mul, mul_lt_mul_iff_left₀ hdown,
    lt_div_iff₀ (ten_zpow_pos k)]

theorem scaled_eq_iff {x n : ℕ} : x * i.scaleUp k = n * i.scaleDown k ↔ (x : ℚ) * 2 ^ i.unit = n * 10 ^ k := by
  have hlt := @scaled_lt_iff i k x n
  have hgt := @lt_scaled_iff i k x n
  constructor
  · intro h
    exact le_antisymm (not_lt.mp (mt hgt.mpr h.le.not_gt)) (not_lt.mp (mt hlt.mpr h.ge.not_gt))
  · intro h
    exact le_antisymm (not_lt.mp (mt hgt.mp h.le.not_gt)) (not_lt.mp (mt hlt.mp h.ge.not_gt))

theorem contains_of_low {n : ℕ} (hh : n * i.scaleDown k < i.high * i.scaleUp k)
    (h : i.low * i.scaleUp k < n * i.scaleDown k ∨ i.closed = true ∧ i.low * i.scaleUp k = n * i.scaleDown k) :
    i.Contains (n * 10 ^ k) := by
  have hhigh := lt_scaled_iff.mp hh
  refine ⟨?_, hhigh.le, fun hend => ?_⟩
  · rcases h with h | ⟨_, h⟩
    · exact (scaled_lt_iff.mp h).le
    · exact (scaled_eq_iff.mp h).le
  · rcases h with h | ⟨hc, _⟩
    · exact absurd (hend.resolve_right hhigh.ne) (scaled_lt_iff.mp h).ne
    · exact hc

theorem contains_of_high {n : ℕ} (hl : i.low * i.scaleUp k < n * i.scaleDown k)
    (h : n * i.scaleDown k < i.high * i.scaleUp k ∨ i.closed = true ∧ n * i.scaleDown k = i.high * i.scaleUp k) :
    i.Contains (n * 10 ^ k) := by
  have hlow := scaled_lt_iff.mp hl
  refine ⟨hlow.le, ?_, fun hend => ?_⟩
  · rcases h with h | ⟨_, h⟩
    · exact (lt_scaled_iff.mp h).le
    · exact (scaled_eq_iff.mp h.symm).ge
  · rcases h with h | ⟨hc, _⟩
    · exact absurd (hend.resolve_left hlow.ne) (lt_scaled_iff.mp h).ne
    · exact hc

def floor (i : RoundingInterval) (k : ℤ) : ℕ := i.middle * i.scaleUp k / i.scaleDown k

def Within (i : RoundingInterval) (x y : ℕ) : Prop := x < y ∨ i.closed = true ∧ x = y

instance (i : RoundingInterval) (x y : ℕ) : Decidable (i.Within x y) :=
  inferInstanceAs (Decidable (x < y ∨ i.closed = true ∧ x = y))

theorem floor_mul_le (i : RoundingInterval) (k : ℤ) : i.floor k * i.scaleDown k ≤ i.middle * i.scaleUp k :=
  Nat.div_mul_le_self _ _

theorem lt_floor_succ_mul (i : RoundingInterval) (k : ℤ) :
    i.middle * i.scaleUp k < (i.floor k + 1) * i.scaleDown k :=
  Nat.lt_mul_of_div_lt (Nat.lt_succ_self _) (i.scaleDown_pos k)

theorem within_iff {x y : ℕ} :
    (decide (x < y) || (i.closed && decide (x = y))) = decide (i.Within x y) := by
  rw [Bool.eq_iff_iff, decide_eq_true_iff]
  simp [Within]

theorem scaleUp_pos (i : RoundingInterval) (k : ℤ) : 0 < i.scaleUp k := by
  unfold scaleUp
  positivity

/-- Either neighbour of the middle is found if it lies within the ends. -/
theorem onGrid_eq (i : RoundingInterval) (k : ℤ) : i.onGrid k =
    if i.Within (i.low * i.scaleUp k) (i.floor k * i.scaleDown k) then
      if i.Within ((i.floor k + 1) * i.scaleDown k) (i.high * i.scaleUp k) then
        some (if 2 * (i.middle * i.scaleUp k) < (2 * i.floor k + 1) * i.scaleDown k then i.floor k
          else if (2 * i.floor k + 1) * i.scaleDown k < 2 * (i.middle * i.scaleUp k) then i.floor k + 1
          else i.floor k + i.floor k % 2)
      else some (i.floor k)
    else if i.Within ((i.floor k + 1) * i.scaleDown k) (i.high * i.scaleUp k) then some (i.floor k + 1)
    else none := by
  have hdef : i.onGrid k =
      let below := decide (i.low * i.scaleUp k < i.floor k * i.scaleDown k) ||
        (i.closed && decide (i.low * i.scaleUp k = i.floor k * i.scaleDown k))
      let above := decide ((i.floor k + 1) * i.scaleDown k < i.high * i.scaleUp k) ||
        (i.closed && decide ((i.floor k + 1) * i.scaleDown k = i.high * i.scaleUp k))
      if below && above then
        some (if 2 * (i.middle * i.scaleUp k) < (2 * i.floor k + 1) * i.scaleDown k then i.floor k
          else if (2 * i.floor k + 1) * i.scaleDown k < 2 * (i.middle * i.scaleUp k) then i.floor k + 1
          else i.floor k + i.floor k % 2)
      else if below then some (i.floor k)
      else if above then some (i.floor k + 1)
      else none := rfl
  rw [hdef]
  simp only [within_iff, Bool.and_eq_true, decide_eq_true_iff]
  by_cases hb : i.Within (i.low * i.scaleUp k) (i.floor k * i.scaleDown k)
  · simp [hb]
  · simp [hb]

theorem contains_of_onGrid {n : ℕ} (hl : i.low < i.middle) (hh : i.middle < i.high) (h : i.onGrid k = some n) :
    i.Contains (n * 10 ^ k) := by
  have hlow : i.low * i.scaleUp k < (i.floor k + 1) * i.scaleDown k :=
    (Nat.mul_lt_mul_of_pos_right hl (i.scaleUp_pos k)).trans (i.lt_floor_succ_mul k)
  have hhigh : i.floor k * i.scaleDown k < i.high * i.scaleUp k :=
    (i.floor_mul_le k).trans_lt (Nat.mul_lt_mul_of_pos_right hh (i.scaleUp_pos k))
  rw [onGrid_eq] at h
  split at h
  · rename_i hb
    have hbelow := contains_of_low hhigh hb
    split at h
    · rename_i ha
      have habove := contains_of_high hlow ha
      have hn : n = i.floor k ∨ n = i.floor k + 1 := by
        rw [← Option.some.inj h]
        split_ifs <;> omega
      rcases hn with rfl | rfl
      · exact hbelow
      · exact habove
    · rwa [← Option.some.inj h]
  · split at h
    · rename_i ha
      rw [← Option.some.inj h]
      exact contains_of_high hlow ha
    · cases h

/-- Where nothing is found, the interval fits between two neighbours on the grid. -/
theorem width_le_of_onGrid (h : i.onGrid k = none) : i.width ≤ 10 ^ k := by
  rw [onGrid_eq] at h
  split at h
  · split at h <;> cases h
  · rename_i hb
    split at h
    · cases h
    · rename_i ha
      have hbelow : i.floor k * i.scaleDown k ≤ i.low * i.scaleUp k := not_lt.mp fun hlt => hb (Or.inl hlt)
      have habove : i.high * i.scaleUp k ≤ (i.floor k + 1) * i.scaleDown k := not_lt.mp fun hlt => ha (Or.inl hlt)
      have hlow := not_lt.mp (mt scaled_lt_iff.mpr hbelow.not_gt)
      have hhigh := not_lt.mp (mt lt_scaled_iff.mpr habove.not_gt)
      rw [width, sub_mul]
      push_cast at hhigh
      linarith

end RoundingInterval

section
variable {m d : ℕ} {e k : ℤ}

theorem roundingInterval_low_lt (hm : 0 < m) (e : ℤ) : (roundingInterval m e).low < (roundingInterval m e).middle := by
  change 4 * m - _ < 4 * m
  split <;> omega

theorem roundingInterval_lt_high (m : ℕ) (e : ℤ) : (roundingInterval m e).middle < (roundingInterval m e).high := by
  change 4 * m < 4 * m + 2
  omega

theorem roundingInterval_low_pos (hm : 0 < m) (e : ℤ) : 2 ≤ (roundingInterval m e).low := by
  change 2 ≤ 4 * m - _
  split <;> omega

theorem roundingInterval_high_le (hm : m < 2 ^ 53) (e : ℤ) : (roundingInterval m e).high < 2 ^ 55 := by
  change 4 * m + 2 < 2 ^ 55
  omega

theorem le_roundingInterval_width (hm : 0 < m) (e : ℤ) : 3 * 2 ^ (e - 2) ≤ (roundingInterval m e).width := by
  have hlow : (roundingInterval m e).low + 3 ≤ (roundingInterval m e).high := by
    change 4 * m - _ + 3 ≤ 4 * m + 2
    split <;> omega
  have hcast : ((roundingInterval m e).low : ℚ) + 3 ≤ (roundingInterval m e).high := by exact_mod_cast hlow
  exact mul_le_mul_of_nonneg_right (by linarith) (two_zpow_pos (e - 2)).le

theorem mem_gridExponents : k ∈ gridExponents ↔ -343 < k ∧ k ≤ 309 := by
  simp only [gridExponents, List.mem_map, List.mem_range]
  constructor
  · rintro ⟨n, hn, rfl⟩
    omega
  · rintro ⟨hl, hh⟩
    exact ⟨(309 - k).toNat, by omega, by omega⟩

theorem gridExponents_sorted : gridExponents.Pairwise (· > ·) := by
  rw [gridExponents, List.pairwise_map]
  refine List.pairwise_lt_range.imp ?_
  intro a b h
  omega

theorem ten_zpow_lt_width (hm : 0 < m) (he : -1074 ≤ e) : (10 : ℚ) ^ (-324 : ℤ) < (roundingInterval m e).width := by
  have hexp : (2 : ℚ) ^ (-1076 : ℤ) ≤ 2 ^ (e - 2) := zpow_le_zpow_right₀ one_le_two (by omega)
  have hnat : 2 ^ 1076 < 3 * 10 ^ 324 := by decide +kernel
  have hnum : (10 : ℚ) ^ (-324 : ℤ) < 3 * 2 ^ (-1076 : ℤ) := by
    rw [zpow_neg, zpow_neg, ← div_eq_mul_inv, inv_eq_one_div, div_lt_div_iff₀ (by positivity) (by positivity),
      one_mul]
    exact_mod_cast hnat
  have hwidth := le_roundingInterval_width hm e
  linarith

theorem onGrid_finest (hm : 0 < m) (he : -1074 ≤ e) : (roundingInterval m e).onGrid (-324) ≠ none := fun hnone =>
  absurd (RoundingInterval.width_le_of_onGrid hnone) (not_le.mpr (ten_zpow_lt_width hm he))

theorem mem_before_of_lt {before after : List ℤ} {j : ℤ} (hsplit : gridExponents = before ++ k :: after) (hj : k < j)
    (hj' : j ≤ 309) : j ∈ before := by
  have hk : -343 < k := (mem_gridExponents.mp (by simp [hsplit])).1
  have hmem : j ∈ gridExponents := mem_gridExponents.mpr ⟨by omega, hj'⟩
  have hsorted := gridExponents_sorted
  rw [hsplit] at hmem hsorted
  have hafter := (List.pairwise_cons.mp (List.pairwise_append.mp hsorted).2.1).1
  rcases List.mem_append.mp hmem with hmem | hmem
  · exact hmem
  · rcases List.mem_cons.mp hmem with rfl | hmem
    · exact absurd hj (lt_irrefl _)
    · exact absurd (hafter j hmem) (by omega)

/-- The first grid with a point in the interval, and what is found there. -/
theorem shortest_spec (hm : 0 < m) (he : -1074 ≤ e) : ∃ d k, shortest m e = (d, k) ∧ (roundingInterval m e).onGrid k = some d ∧
    -324 ≤ k ∧ k ≤ 309 ∧ ∀ j, k < j → j ≤ 309 → (roundingInterval m e).onGrid j = none := by
  have hfound : (gridExponents.findSome? fun k => ((roundingInterval m e).onGrid k).map (·, k)) ≠ none := by
    intro hnone
    have hfinest := List.findSome?_eq_none_iff.mp hnone (-324) (mem_gridExponents.mpr (by decide))
    exact onGrid_finest hm he (Option.map_eq_none_iff.mp hfinest)
  obtain ⟨⟨d, k⟩, hsome⟩ := Option.ne_none_iff_exists'.mp hfound
  have hshortest : shortest m e = (d, k) := by
    rw [shortest]
    simp only [hsome, Option.getD_some]
  obtain ⟨before, j, after, hsplit, hj, hnone⟩ := List.findSome?_eq_some_iff.mp hsome
  obtain ⟨d', hd, hpair⟩ := Option.map_eq_some_iff.mp hj
  obtain ⟨rfl, rfl⟩ := Prod.mk.inj hpair
  have hcoarser : ∀ i, j < i → i ≤ 309 → (roundingInterval m e).onGrid i = none := fun i hi hi' =>
    Option.map_eq_none_iff.mp (hnone i (mem_before_of_lt hsplit hi hi'))
  have hrange : -343 < j ∧ j ≤ 309 := mem_gridExponents.mp (by simp [hsplit])
  refine ⟨d', j, hshortest, hd, ?_, hrange.2, hcoarser⟩
  by_contra hlow
  exact onGrid_finest hm he (hcoarser (-324) (by omega) (by decide))

theorem two_zpow_sub_two (e : ℤ) : (2 : ℚ) ^ (e - 2) = 2 ^ e / 4 := by
  rw [zpow_sub₀ two_ne_zero]
  norm_num

theorem high_mul (m : ℕ) (e : ℤ) : ((roundingInterval m e).high : ℚ) * 2 ^ (roundingInterval m e).unit =
    (m + 1 / 2) * 2 ^ e := by
  change ((4 * m + 2 : ℕ) : ℚ) * 2 ^ (e - 2) = _
  rw [two_zpow_sub_two]
  push_cast
  ring

theorem low_mul (hm : 0 < m) (e : ℤ) : ((roundingInterval m e).low : ℚ) * 2 ^ (roundingInterval m e).unit =
    (m - if m = 2 ^ 52 ∧ -1074 < e then 1 / 4 else 1 / 2) * 2 ^ e := by
  change ((4 * m - (if m = 2 ^ 52 ∧ -1074 < e then 1 else 2) : ℕ) : ℚ) * 2 ^ (e - 2) = _
  rw [two_zpow_sub_two, Nat.cast_sub (by split <;> omega)]
  split <;> (push_cast; ring)

theorem half_above_lt_limit (h : Canonical m e) : ((m : ℚ) + 1 / 2) * 2 ^ e < limit := by
  have hsmall : (m : ℚ) + 1 ≤ 2 ^ 53 := by exact_mod_cast h.small
  calc ((m : ℚ) + 1 / 2) * 2 ^ e
      < 2 ^ 53 * 2 ^ e := mul_lt_mul_of_pos_right (by linarith) (two_zpow_pos e)
    _ ≤ 2 ^ 53 * 2 ^ (971 : ℤ) :=
      mul_le_mul_of_nonneg_left (zpow_le_zpow_right₀ one_le_two h.high) (by positivity)
    _ = limit := by
      rw [limit, ← zpow_natCast, ← zpow_add₀ two_ne_zero]
      norm_num

theorem limit_lt_ten_zpow : limit < 10 ^ (309 : ℤ) := by
  have hnat : 2 ^ 1024 < 10 ^ 309 := by decide +kernel
  rw [limit]
  exact_mod_cast hnat

section
variable (hc : (roundingInterval m e).Contains (d * 10 ^ k))
include hc

theorem digits_pos (hm : 0 < m) : 0 < d := by
  by_contra h0
  have hlow0 : (0 : ℚ) < (roundingInterval m e).low := by
    exact_mod_cast (by decide : 0 < 2).trans_le (roundingInterval_low_pos hm e)
  have hle := hc.low_le
  rw [Nat.eq_zero_of_not_pos h0, Nat.cast_zero, zero_mul] at hle
  exact absurd hle (not_le.mpr (mul_pos hlow0 (two_zpow_pos _)))

theorem exponent_le (h : Canonical m e) (hd : 0 < d) : k ≤ 308 := by
  by_contra hk
  have hd1 : (1 : ℚ) ≤ d := by exact_mod_cast hd
  have hpow : (10 : ℚ) ^ (309 : ℤ) ≤ 10 ^ k := zpow_le_zpow_right₀ (by norm_num) (by omega)
  have hone : (10 : ℚ) ^ k ≤ d * 10 ^ k := le_mul_of_one_le_left (ten_zpow_pos k).le hd1
  have hle := hc.le_high
  rw [high_mul] at hle
  have hlimit := half_above_lt_limit h
  have hten := limit_lt_ten_zpow
  linarith

/-- Where the next grid has no point in the interval, the digits are at most ten times as many as it is wide. -/
theorem digits_lt (hm : 0 < m) (hsmall : m < 2 ^ 53) (hnone : (roundingInterval m e).onGrid (k + 1) = none) :
    d < 2 ^ 57 := by
  have hwidth : 3 * 2 ^ (e - 2) ≤ (10 : ℚ) ^ (k + 1) :=
    (le_roundingInterval_width hm e).trans (RoundingInterval.width_le_of_onGrid hnone)
  have hdigits : (d : ℚ) * 10 ^ k ≤ 2 ^ 55 * 2 ^ (e - 2) := by
    have hhigh55 : ((roundingInterval m e).high : ℚ) ≤ 2 ^ 55 := by
      exact_mod_cast (roundingInterval_high_le hsmall e).le
    exact hc.le_high.trans (mul_le_mul_of_nonneg_right hhigh55 (two_zpow_pos _).le)
  rw [zpow_add_one₀ (by norm_num)] at hwidth
  have hscaled : (d : ℚ) * 10 ^ k ≤ 2 ^ 55 * 10 / 3 * 10 ^ k := by linarith
  have hbound : (d : ℚ) ≤ 2 ^ 55 * 10 / 3 := le_of_mul_le_mul_right hscaled (ten_zpow_pos k)
  have hlt : (d : ℚ) < 2 ^ 57 := by linarith
  exact_mod_cast hlt

end

theorem shortest_contains (hm : 0 < m) (h : Canonical m e) : ∃ d k, shortest m e = (d, k) ∧
    (roundingInterval m e).Contains (d * 10 ^ k) ∧ 0 < d ∧ d < 2 ^ 57 ∧ -324 ≤ k ∧ k ≤ 308 := by
  obtain ⟨d, k, hs, hgrid, hlow, hhigh, hcoarser⟩ := shortest_spec hm h.low
  have hc := RoundingInterval.contains_of_onGrid (roundingInterval_low_lt hm e) (roundingInterval_lt_high m e) hgrid
  have hd := digits_pos hc hm
  have hk := exponent_le hc h hd
  exact ⟨d, k, hs, hc, hd, digits_lt hc hm h.small (hcoarser (k + 1) (by omega) (by omega)), hlow, hk⟩

theorem closed_iff (m : ℕ) (e : ℤ) : (roundingInterval m e).closed = true ↔ m % 2 = 0 := decide_eq_true_iff

section
variable {q : ℚ} (hm : 0 < m) (h : Canonical m e) (hq : (roundingInterval m e).Contains q)
include hm hq

theorem pos_of_contains : 0 < q := by
  have hm1 : (1 : ℚ) ≤ m := by exact_mod_cast hm
  have hl := hq.low_le
  rw [low_mul hm] at hl
  refine lt_of_lt_of_le (mul_pos ?_ (two_zpow_pos e)) hl
  split <;> linarith

theorem half_below_le : ((m : ℚ) - 1 / 2) * 2 ^ e ≤ q := by
  have hpos := two_zpow_pos e
  have hl := hq.low_le
  rw [low_mul hm] at hl
  split at hl <;> linarith

theorem abs_sub_le_of_contains : |q - m * 2 ^ e| ≤ 2 ^ e / 2 := by
  have hlow := half_below_le hm hq
  have hhigh := hq.le_high
  rw [high_mul] at hhigh
  rw [abs_le]
  constructor <;> linarith

/-- An end of the interval belongs to it only if the mantissa is even, as ties demand. -/
theorem even_of_tie (htie : ((m : ℤ) : ℚ) - 1 / 2 = q / 2 ^ e ∨ q / 2 ^ e = ((m : ℤ) : ℚ) + 1 / 2) : m % 2 = 0 := by
  have hpos := two_zpow_pos e
  have hl := hq.low_le
  have hclosed := hq.closed
  rw [low_mul hm] at hl hclosed
  rw [high_mul] at hclosed
  rw [← closed_iff m e]
  simp only [Int.cast_natCast] at htie
  rcases htie with htie | htie
  · rw [eq_div_iff hpos.ne'] at htie
    refine hclosed (Or.inl ?_)
    split at hl
    · linarith
    · rename_i hif
      rw [if_neg hif]
      exact htie
  · rw [div_eq_iff hpos.ne'] at htie
    exact hclosed (Or.inr htie)

include h

theorem eq_two_pow_of_contains (hlt : q < 2 ^ 52 * 2 ^ e) (he : -1074 < e) : m = 2 ^ 52 := by
  have hnormal := h.normal.resolve_right he.ne'
  by_contra hne
  have hl := hq.low_le
  rw [low_mul hm, if_neg (fun hif => hne hif.1)] at hl
  have hlarge : (2 : ℚ) ^ 52 + 1 ≤ m := by exact_mod_cast (show 2 ^ 52 + 1 ≤ m by omega)
  have hle : (2 : ℚ) ^ 52 * 2 ^ e ≤ (m - 1 / 2) * 2 ^ e :=
    mul_le_mul_of_nonneg_right (by linarith) (two_zpow_pos e).le
  linarith

theorem rounded_of_contains_below (hlt : q < 2 ^ 52 * 2 ^ e) (he : -1074 < e) : rounded q = m * 2 ^ e := by
  have hmin := eq_two_pow_of_contains hm h hq hlt he
  have hm52 : (m : ℚ) = 2 ^ 52 := by exact_mod_cast hmin
  have hfine : (2 : ℚ) ^ e = 2 * 2 ^ (e - 1) := by
    rw [zpow_sub_one₀ two_ne_zero]
    ring
  have hpos := two_zpow_pos (e - 1)
  have hl := hq.low_le
  rw [low_mul hm, if_pos ⟨hmin, he⟩, hm52, hfine] at hl
  rw [hfine] at hlt
  have hgrid : grid q = e - 1 :=
    grid_eq (pos_of_contains hm hq) (by omega) (by linarith) (Or.inl (by linarith))
  have hnear : nearestEven (q / 2 ^ (e - 1)) = 2 ^ 53 := by
    refine nearestEven_eq ?_ ?_ fun _ => by norm_num
    · rw [le_div_iff₀ hpos]
      push_cast
      linarith
    · rw [div_le_iff₀ hpos]
      push_cast
      linarith
  rw [rounded, hgrid, onGrid, hnear, hm52, hfine]
  push_cast
  ring

theorem rounded_of_contains_above (hlow : 2 ^ 52 * 2 ^ e ≤ q ∨ e = -1074) : rounded q = m * 2 ^ e := by
  have hpos := two_zpow_pos e
  have hsmall : (m : ℚ) + 1 ≤ 2 ^ 53 := by exact_mod_cast h.small
  have hh := hq.le_high
  rw [high_mul] at hh
  have habove : q < 2 ^ 53 * 2 ^ e := hh.trans_lt (mul_lt_mul_of_pos_right (by linarith) hpos)
  have hnear : nearestEven (q / 2 ^ e) = m := by
    refine nearestEven_eq ?_ ?_ fun htie => ?_
    · rw [le_div_iff₀ hpos]
      exact half_below_le hm hq
    · rw [div_le_iff₀ hpos]
      exact hh
    · have heven := even_of_tie hm hq htie
      omega
  rw [rounded, grid_eq (pos_of_contains hm hq) h.low habove hlow, onGrid, hnear, Int.cast_natCast]

/-- The numbers in the interval of a binary64 number are rounded to it. -/
theorem rounded_of_contains : rounded q = m * 2 ^ e := by
  rcases h.low.eq_or_lt with he | he
  · exact rounded_of_contains_above hm h hq (Or.inr he.symm)
  · rcases lt_or_ge q (2 ^ 52 * 2 ^ e) with hlt | hge
    · exact rounded_of_contains_below hm h hq hlt he
    · exact rounded_of_contains_above hm h hq (Or.inl hge)

end

end

end PagingGate.Decimal
