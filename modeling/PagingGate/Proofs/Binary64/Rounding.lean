import Mathlib.Algebra.Order.Field.Power
import Mathlib.Data.Int.Log
import Mathlib.Data.Rat.Floor
import Mathlib.Tactic.FieldSimp
import Mathlib.Tactic.Linarith
import Mathlib.Tactic.Positivity
import Mathlib.Tactic.Ring

set_option autoImplicit false

/-!
# Rounding to binary64 numbers

Every rational number lies between two points of a grid whose width is the power of two for its size, down to
`2 ^ (-1074)`. Rounding takes the nearer one, of two equally near ones the one with an even multiple, and
gives an infinity from `2 ^ 1024` on.
-/

namespace PagingGate.Binary64

/-- The nearest whole number; of two equally near ones the even one. -/
def nearestEven (q : ℚ) : ℤ :=
  if q - ⌊q⌋ < 1 / 2 then ⌊q⌋ else if 1 / 2 < q - ⌊q⌋ then ⌊q⌋ + 1 else ⌊q⌋ + ⌊q⌋ % 2

theorem floor_le_nearestEven (q : ℚ) : ⌊q⌋ ≤ nearestEven q := by
  unfold nearestEven
  split
  · exact le_refl _
  · split <;> omega

theorem nearestEven_le_floor (q : ℚ) : nearestEven q ≤ ⌊q⌋ + 1 := by
  unfold nearestEven
  split
  · omega
  · split <;> omega

@[simp] theorem nearestEven_intCast (n : ℤ) : nearestEven n = n := by
  simp [nearestEven]

theorem nearestEven_eq {q : ℚ} {n : ℤ} (hl : (n : ℚ) - 1 / 2 ≤ q) (hh : q ≤ n + 1 / 2)
    (htie : (n : ℚ) - 1 / 2 = q ∨ q = n + 1 / 2 → n % 2 = 0) : nearestEven q = n := by
  unfold nearestEven
  rcases le_or_gt (n : ℚ) q with hq | hq
  · have hfloor : ⌊q⌋ = n := Int.floor_eq_iff.mpr ⟨hq, by linarith⟩
    rw [hfloor, if_neg (show ¬ 1 / 2 < q - n by linarith)]
    split
    · rfl
    · rename_i hhalf
      have := htie (Or.inr (by linarith))
      omega
  · have hfloor : ⌊q⌋ = n - 1 := Int.floor_eq_iff.mpr ⟨by push_cast; linarith, by push_cast; linarith⟩
    rw [hfloor, if_neg (by push_cast; linarith)]
    split
    · omega
    · rename_i hhalf
      push_cast at hhalf
      have := htie (Or.inl (by linarith))
      omega

theorem nearestEven_mono {p q : ℚ} (h : p ≤ q) : nearestEven p ≤ nearestEven q := by
  rcases lt_or_eq_of_le (Int.floor_le_floor h) with hf | hf
  · -- A whole number lies between them.
    have hp := nearestEven_le_floor p
    have hq := floor_le_nearestEven q
    omega
  · unfold nearestEven
    rw [hf]
    split
    · split
      · exact le_refl _
      · split <;> omega
    · rename_i hp
      have hq : ¬ q - ⌊q⌋ < 1 / 2 := by
        intro hq
        exact hp (lt_of_le_of_lt (by linarith) hq)
      rw [if_neg hq]
      split
      · rename_i hp'
        rw [if_pos (lt_of_lt_of_le hp' (by linarith))]
      · split <;> omega

theorem nearestEven_neg (q : ℚ) : nearestEven (-q) = -nearestEven q := by
  have hle := Int.floor_le q
  have hlt := Int.lt_floor_add_one q
  rcases eq_or_lt_of_le hle with he | hl
  · rw [← he, ← Int.cast_neg, nearestEven_intCast, nearestEven_intCast]
  · have hf : ⌊-q⌋ = -⌊q⌋ - 1 := by
      rw [Int.floor_eq_iff]
      push_cast
      constructor <;> linarith
    unfold nearestEven
    rw [hf]
    push_cast
    rcases lt_trichotomy (q - ⌊q⌋) (1 / 2) with hr | hr | hr
    · rw [if_neg (by linarith), if_pos (by linarith), if_pos hr]
      ring
    · rw [if_neg (by linarith), if_neg (by linarith), if_neg (by linarith), if_neg (by linarith)]
      omega
    · rw [if_pos (by linarith), if_neg (by linarith), if_pos hr]
      ring

theorem abs_nearestEven_sub (q : ℚ) : |(nearestEven q : ℚ) - q| ≤ 1 / 2 := by
  have hle := Int.floor_le q
  have hlt := Int.lt_floor_add_one q
  rw [abs_le]
  unfold nearestEven
  split
  · constructor <;> linarith
  · rename_i h
    split
    · push_cast
      constructor <;> linarith
    · rename_i h'
      have hhalf : q = ⌊q⌋ + 1 / 2 := by linarith
      rcases Int.emod_two_eq_zero_or_one ⌊q⌋ with hm | hm
      · rw [hm]
        push_cast
        constructor <;> linarith
      · rw [hm]
        push_cast
        constructor <;> linarith

@[simp] theorem two_zpow_pos (e : ℤ) : (0 : ℚ) < 2 ^ e := by positivity

/-- The nearest multiple of `2 ^ e`. -/
def onGrid (e : ℤ) (q : ℚ) : ℚ := nearestEven (q / 2 ^ e) * 2 ^ e

theorem onGrid_mono (e : ℤ) {p q : ℚ} (h : p ≤ q) : onGrid e p ≤ onGrid e q := by
  have hd : p / 2 ^ e ≤ q / 2 ^ e := div_le_div_of_nonneg_right h (two_zpow_pos e).le
  have hn : (nearestEven (p / 2 ^ e) : ℚ) ≤ nearestEven (q / 2 ^ e) :=
    Int.cast_le.mpr (nearestEven_mono hd)
  exact mul_le_mul_of_nonneg_right hn (two_zpow_pos e).le

theorem onGrid_mul (e n : ℤ) : onGrid e (n * 2 ^ e) = n * 2 ^ e := by
  rw [onGrid, mul_div_cancel_right₀ _ (two_zpow_pos e).ne', nearestEven_intCast]

theorem onGrid_neg (e : ℤ) (q : ℚ) : onGrid e (-q) = -onGrid e q := by
  rw [onGrid, onGrid, neg_div, nearestEven_neg]
  push_cast
  ring

theorem abs_onGrid_sub (e : ℤ) (q : ℚ) : |onGrid e q - q| ≤ 2 ^ e / 2 := by
  have hp := two_zpow_pos e
  have hq : onGrid e q - q = (nearestEven (q / 2 ^ e) - q / 2 ^ e) * 2 ^ e := by
    rw [onGrid]
    field_simp
  rw [hq, abs_mul, abs_of_pos hp]
  calc |(nearestEven (q / 2 ^ e) : ℚ) - q / 2 ^ e| * 2 ^ e
      ≤ 1 / 2 * 2 ^ e := mul_le_mul_of_nonneg_right (abs_nearestEven_sub _) hp.le
    _ = 2 ^ e / 2 := by ring

theorem mul_zpow_of_le {d e : ℤ} (h : d ≤ e) (n : ℤ) :
    (n : ℚ) * 2 ^ e = ((n * 2 ^ (e - d).toNat : ℤ) : ℚ) * 2 ^ d := by
  have he : e = (e - d).toNat + d := by omega
  conv_lhs => rw [he]
  rw [zpow_add₀ two_ne_zero, zpow_natCast]
  push_cast
  ring

/-- A binary64 number has 53 binary digits, unless it is very small. -/
def grid (q : ℚ) : ℤ := max (Int.log 2 |q| - 52) (-1074)

/-- The nearest binary64 number, if exponents had no upper bound. -/
def rounded (q : ℚ) : ℚ := onGrid (grid q) q

@[simp] theorem grid_neg (q : ℚ) : grid (-q) = grid q := by
  rw [grid, abs_neg, grid]

@[simp] theorem rounded_neg (q : ℚ) : rounded (-q) = -rounded q := by
  rw [rounded, grid_neg, onGrid_neg, rounded]

theorem grid_eq {q : ℚ} {e : ℤ} (h0 : 0 < q) (he : -1074 ≤ e) (hh : q < 2 ^ 53 * 2 ^ e)
    (hl : 2 ^ 52 * 2 ^ e ≤ q ∨ e = -1074) : grid q = e := by
  rw [grid, abs_of_pos h0]
  have hlt : q < (2 : ℕ) ^ (53 + e) := by
    rw [Nat.cast_two, zpow_add₀ two_ne_zero]
    exact hh
  have hlog : Int.log 2 q < 53 + e := (Int.lt_zpow_iff_log_lt one_lt_two h0).mp hlt
  rcases hl with hl | hl
  · have hle : (2 : ℕ) ^ (52 + e) ≤ q := by
      rw [Nat.cast_two, zpow_add₀ two_ne_zero]
      exact hl
    have hlog' : 52 + e ≤ Int.log 2 q := (Int.zpow_le_iff_le_log one_lt_two h0).mp hle
    omega
  · omega

theorem rounded_zero : rounded 0 = 0 := by
  have h := onGrid_mul (grid 0) 0
  rwa [Int.cast_zero, zero_mul] at h

theorem grid_mono {p q : ℚ} (hp : 0 < p) (h : p ≤ q) : grid p ≤ grid q := by
  have hlog : Int.log 2 |p| ≤ Int.log 2 |q| := by
    rw [abs_of_pos hp, abs_of_pos (lt_of_lt_of_le hp h)]
    exact Int.log_mono_right hp h
  unfold grid
  omega

theorem rounded_nonneg {q : ℚ} (h : 0 ≤ q) : 0 ≤ rounded q := by
  have hm := onGrid_mono (grid q) h
  have hz := onGrid_mul (grid q) 0
  rw [Int.cast_zero, zero_mul] at hz
  rwa [hz] at hm

/-- Where the grid changes, the power of two that divides the sizes is a point of both. -/
theorem rounded_mono_of_pos {p q : ℚ} (hp : 0 < p) (h : p ≤ q) : rounded p ≤ rounded q := by
  rcases eq_or_lt_of_le (grid_mono hp h) with he | hl
  · rw [rounded, rounded, he]
    exact onGrid_mono _ h
  · have hq : 0 < q := lt_of_lt_of_le hp h
    have hlog : grid q = Int.log 2 q - 52 := by
      unfold grid at *
      rw [abs_of_pos hp, abs_of_pos hq] at hl
      rw [abs_of_pos hq]
      omega
    have hle : Int.log 2 p - 52 ≤ grid p := by
      rw [grid, abs_of_pos hp]
      exact le_max_left _ _
    have hpow : p ≤ ((1 : ℤ) : ℚ) * 2 ^ Int.log 2 q := by
      have hsucc := Int.lt_zpow_succ_log_self one_lt_two p
      have hexp : (2 : ℚ) ^ (Int.log 2 p + 1) ≤ 2 ^ Int.log 2 q :=
        zpow_le_zpow_right₀ one_le_two (by omega)
      rw [Int.cast_one, one_mul]
      push_cast at hsucc
      linarith
    have hpow' : ((1 : ℤ) : ℚ) * 2 ^ Int.log 2 q ≤ q := by
      have hself := Int.zpow_log_le_self one_lt_two hq
      rw [Int.cast_one, one_mul]
      push_cast at hself
      exact hself
    calc rounded p
        ≤ onGrid (grid p) (((1 : ℤ) : ℚ) * 2 ^ Int.log 2 q) := onGrid_mono _ hpow
      _ = ((1 : ℤ) : ℚ) * 2 ^ Int.log 2 q := by
        rw [mul_zpow_of_le (show grid p ≤ Int.log 2 q by omega), onGrid_mul]
      _ = onGrid (grid q) (((1 : ℤ) : ℚ) * 2 ^ Int.log 2 q) := by
        rw [mul_zpow_of_le (show grid q ≤ Int.log 2 q by omega), onGrid_mul]
      _ ≤ rounded q := onGrid_mono _ hpow'

theorem rounded_mono {p q : ℚ} (h : p ≤ q) : rounded p ≤ rounded q := by
  rcases lt_trichotomy p 0 with hp | hp | hp
  · by_cases hq : q < 0
    · have hn := rounded_mono_of_pos (neg_pos.mpr hq) (neg_le_neg h)
      rw [rounded_neg, rounded_neg] at hn
      exact neg_le_neg_iff.mp hn
    · have hn := rounded_nonneg (neg_nonneg.mpr hp.le)
      rw [rounded_neg] at hn
      exact (neg_nonneg.mp hn).trans (rounded_nonneg (not_lt.mp hq))
  · rw [hp, rounded_zero]
    exact rounded_nonneg (hp ▸ h)
  · exact rounded_mono_of_pos hp h

theorem abs_rounded (q : ℚ) : |rounded q| = rounded |q| := by
  rcases le_total 0 q with h | h
  · rw [abs_of_nonneg h, abs_of_nonneg (rounded_nonneg h)]
  · have hneg := rounded_nonneg (neg_nonneg.mpr h)
    rw [rounded_neg] at hneg
    rw [abs_of_nonpos h, rounded_neg, abs_of_nonpos (neg_nonneg.mp hneg)]

theorem nearestEven_div_grid_le {q : ℚ} (h : 0 < q) : nearestEven (q / 2 ^ grid q) ≤ 2 ^ 53 := by
  have hlt : q < 2 ^ (Int.log 2 q + 1) := by
    have := Int.lt_zpow_succ_log_self one_lt_two q
    push_cast at this
    exact this
  have hexp : (2 : ℚ) ^ (Int.log 2 q + 1) ≤ 2 ^ (53 + grid q) := by
    refine zpow_le_zpow_right₀ one_le_two ?_
    rw [grid, abs_of_pos h]
    omega
  have hdiv : q / 2 ^ grid q ≤ ((2 ^ 53 : ℤ) : ℚ) := by
    rw [div_le_iff₀ (two_zpow_pos _)]
    rw [zpow_add₀ two_ne_zero 53] at hexp
    exact_mod_cast hlt.le.trans hexp
  calc nearestEven (q / 2 ^ grid q)
      ≤ nearestEven ((2 ^ 53 : ℤ) : ℚ) := nearestEven_mono hdiv
    _ = 2 ^ 53 := nearestEven_intCast _

theorem le_nearestEven_div_grid {q : ℚ} (h : 0 < q) :
    2 ^ 52 ≤ nearestEven (q / 2 ^ grid q) ∨ grid q = -1074 := by
  rcases eq_or_ne (grid q) (-1074) with hg | hg
  · exact Or.inr hg
  · left
    have hle : 2 ^ Int.log 2 q ≤ q := by
      have := Int.zpow_log_le_self one_lt_two h
      push_cast at this
      exact this
    have hexp : Int.log 2 q = 52 + grid q := by
      rw [grid, abs_of_pos h] at hg ⊢
      omega
    have hdiv : ((2 ^ 52 : ℤ) : ℚ) ≤ q / 2 ^ grid q := by
      rw [le_div_iff₀ (two_zpow_pos _)]
      rw [hexp, zpow_add₀ two_ne_zero] at hle
      exact_mod_cast hle
    calc (2 : ℤ) ^ 52
        = nearestEven ((2 ^ 52 : ℤ) : ℚ) := (nearestEven_intCast _).symm
      _ ≤ nearestEven (q / 2 ^ grid q) := nearestEven_mono hdiv

/-- A number with 53 binary digits. -/
def IsPoint (q : ℚ) : Prop := ∃ n e : ℤ, q = n * 2 ^ e ∧ |n| < 2 ^ 53 ∧ -1074 ≤ e

theorem rounded_of_isPoint {q : ℚ} (h : IsPoint q) : rounded q = q := by
  obtain ⟨n, e, rfl, hn, he⟩ := h
  by_cases h0 : n = 0
  · rw [h0, Int.cast_zero, zero_mul, rounded_zero]
  · have hpos : 0 < |(n : ℚ) * 2 ^ e| := abs_pos.mpr (by positivity)
    have hlt : |(n : ℚ) * 2 ^ e| < 2 ^ (53 + e) := by
      rw [abs_mul, abs_of_pos (two_zpow_pos e), zpow_add₀ two_ne_zero]
      refine mul_lt_mul_of_pos_right ?_ (two_zpow_pos e)
      exact_mod_cast hn
    have hlog : Int.log 2 |(n : ℚ) * 2 ^ e| < 53 + e := by
      refine (Int.lt_zpow_iff_log_lt one_lt_two hpos).mp ?_
      exact_mod_cast hlt
    have hgrid : grid (n * 2 ^ e) ≤ e := by
      unfold grid
      omega
    rw [rounded]
    generalize grid ((n : ℚ) * 2 ^ e) = d at hgrid
    rw [mul_zpow_of_le hgrid, onGrid_mul]

theorem isPoint_zero : IsPoint 0 := ⟨0, 0, by simp, by simp, by omega⟩

theorem IsPoint.neg {q : ℚ} (h : IsPoint q) : IsPoint (-q) := by
  obtain ⟨n, e, rfl, hn, he⟩ := h
  exact ⟨-n, e, by push_cast; ring, by rwa [abs_neg], he⟩

theorem isPoint_of_abs_le {k n e : ℤ} (hn : |n| < 2 ^ 53) (he : -1074 ≤ e)
    (h : |(k : ℚ) * 2 ^ e| ≤ |(n : ℚ) * 2 ^ e|) : IsPoint (k * 2 ^ e) := by
  rw [abs_mul, abs_mul, mul_le_mul_iff_left₀ (abs_pos.mpr (two_zpow_pos e).ne')] at h
  have hk : |k| ≤ |n| := by exact_mod_cast h
  exact ⟨k, e, rfl, lt_of_le_of_lt hk hn, he⟩

/-- The difference of two points within a factor of two of each other is a point. -/
theorem IsPoint.sub {p q : ℚ} (hp : IsPoint p) (hq : IsPoint q) (hlow : q / 2 ≤ p) (hhigh : p ≤ 2 * q) :
    IsPoint (p - q) := by
  have hq0 : 0 ≤ q := by linarith
  have hp0 : 0 ≤ p := by linarith
  have hleft : |p - q| ≤ |p| := by
    rw [abs_of_nonneg hp0, abs_le]
    constructor <;> linarith
  have hright : |p - q| ≤ |q| := by
    rw [abs_of_nonneg hq0, abs_le]
    constructor <;> linarith
  obtain ⟨n, d, rfl, hn, hd⟩ := hp
  obtain ⟨m, e, rfl, hm, he⟩ := hq
  -- On the finer of the two grids the difference is no larger than the number of that grid.
  rcases le_total d e with hde | hed
  · rw [mul_zpow_of_le hde m, ← sub_mul, ← Int.cast_sub] at *
    exact isPoint_of_abs_le hn hd hleft
  · rw [mul_zpow_of_le hed n, ← sub_mul, ← Int.cast_sub] at *
    exact isPoint_of_abs_le hm he hright

end PagingGate.Binary64
