import Mathlib.Order.Compare
import PagingGate.Proofs.Binary64.Packing
import PagingGate.Proofs.Binary64.Rounding

set_option autoImplicit false

/-!
# The values of binary64 numbers

Every binary64 number other than NaN has a value, a rational number or an infinity. Comparisons of binary64
numbers are comparisons of their values; those with NaN fail.
-/

namespace PagingGate.Binary64

open Float.Model (Format UnpackedFloat)
open Float.Model.UnpackedFloat

/-- The rational numbers and two infinities. -/
abbrev Extended := WithBot (WithTop ℚ)

def number (q : ℚ) : Extended := ((q : WithTop ℚ) : Extended)

@[simp] theorem number_le_number {p q : ℚ} : number p ≤ number q ↔ p ≤ q :=
  WithBot.coe_le_coe.trans WithTop.coe_le_coe

@[simp] theorem number_lt_number {p q : ℚ} : number p < number q ↔ p < q :=
  WithBot.coe_lt_coe.trans WithTop.coe_lt_coe

theorem number_injective {p q : ℚ} (h : number p = number q) : p = q :=
  WithTop.coe_injective (WithBot.coe_injective h)

theorem bot_lt_number (q : ℚ) : ⊥ < number q := WithBot.bot_lt_coe _

theorem number_lt_top (q : ℚ) : number q < ⊤ := WithBot.coe_lt_coe.mpr (WithTop.coe_lt_top q)

theorem bot_lt_top : (⊥ : Extended) < ⊤ := WithBot.bot_lt_coe _

def signed : Sign → ℚ → ℚ
  | .negative, q => -q
  | .positive, q => q

def infinite : Sign → Extended
  | .negative => ⊥
  | .positive => ⊤

theorem eq_infinite_or_number (a : Extended) : (∃ s, a = infinite s) ∨ ∃ q, a = number q := by
  rcases a with _ | _ | q
  · exact Or.inl ⟨.negative, rfl⟩
  · exact Or.inl ⟨.positive, rfl⟩
  · exact Or.inr ⟨q, rfl⟩

theorem infinite_ne_number (s : Sign) (q : ℚ) : infinite s ≠ number q := by
  cases s with
  | negative => exact (bot_lt_number q).ne
  | positive => exact (number_lt_top q).ne'

def unpackedValue? : UnpackedFloat → Option Extended
  | .notANumber => none
  | .infinity s => some (infinite s)
  | .zero _ => some (number 0)
  | .finite s m e _ => some (number (signed s (m * 2 ^ e)))

theorem zero_or_finite {u : UnpackedFloat} {q : ℚ} (h : unpackedValue? u = some (number q)) :
    (∃ s, u = .zero s ∧ q = 0) ∨ ∃ s m e hp, u = .finite s m e hp ∧ q = signed s (m * 2 ^ e) := by
  cases u with
  | notANumber => cases h
  | infinity s => exact absurd (Option.some.inj h) (infinite_ne_number s q)
  | zero s => exact Or.inl ⟨s, rfl, (number_injective (Option.some.inj h)).symm⟩
  | finite s m e hp => exact Or.inr ⟨s, m, e, hp, rfl, (number_injective (Option.some.inj h)).symm⟩

theorem infinity_of_value? {u : UnpackedFloat} {s : Sign} (h : unpackedValue? u = some (infinite s)) : u = .infinity s := by
  cases u with
  | notANumber => cases h
  | infinity t =>
    have h' := Option.some.inj h
    cases s <;> cases t
    · rfl
    · exact absurd h' bot_lt_top.ne'
    · exact absurd h' bot_lt_top.ne
    · rfl
  | zero t => exact absurd (Option.some.inj h).symm (infinite_ne_number s _)
  | finite t m e hp => exact absurd (Option.some.inj h).symm (infinite_ne_number s _)

def value? (x : Float) : Option Extended := unpackedValue? x.toModel.unpack

def rational (x : Float) : ℚ :=
  match x.toModel.unpack with
  | .finite s m e _ => signed s (m * 2 ^ e)
  | _ => 0

theorem value?_of_isFinite {x : Float} (h : x.isFinite) : value? x = some (number (rational x)) := by
  change x.toModel.unpack.isFinite = true at h
  unfold value? rational
  cases hu : x.toModel.unpack with
  | notANumber => rw [hu] at h; cases h
  | infinity s => rw [hu] at h; cases h
  | zero s => rfl
  | finite s m e hp => rfl

theorem isFinite_of_value? {x : Float} {q : ℚ} (h : value? x = some (number q)) :
    x.isFinite ∧ rational x = q := by
  change x.toModel.unpack.isFinite = true ∧ rational x = q
  unfold rational
  rcases zero_or_finite h with ⟨s, hu, rfl⟩ | ⟨s, m, e, hp, hu, rfl⟩
  · rw [hu]
    exact ⟨rfl, rfl⟩
  · rw [hu]
    exact ⟨rfl, rfl⟩

theorem isNaN_iff {x : Float} : x.isNaN = true ↔ value? x = none := by
  change x.toModel.unpack.isNaN = true ↔ unpackedValue? x.toModel.unpack = none
  cases x.toModel.unpack with
  | notANumber => exact iff_of_true rfl rfl
  | infinity s => exact iff_of_false (fun h => (nomatch h)) (fun h => (nomatch h))
  | zero s => exact iff_of_false (fun h => (nomatch h)) (fun h => (nomatch h))
  | finite s m e hp => exact iff_of_false (fun h => (nomatch h)) (fun h => (nomatch h))

theorem isNaN_eq_false_iff {x : Float} : x.isNaN = false ↔ ∃ a, value? x = some a := by
  rw [← Bool.not_eq_true, isNaN_iff, ← ne_eq, Option.ne_none_iff_exists']

theorem isInf_iff {x : Float} : x.isInf = true ↔ ∃ s, value? x = some (infinite s) := by
  constructor
  · intro h
    change x.toModel.unpack.isInf = true at h
    unfold value?
    cases hu : x.toModel.unpack with
    | infinity s => exact ⟨s, rfl⟩
    | notANumber => rw [hu] at h; cases h
    | zero s => rw [hu] at h; cases h
    | finite s m e hp => rw [hu] at h; cases h
  · rintro ⟨s, h⟩
    change x.toModel.unpack.isInf = true
    rw [infinity_of_value? h]
    rfl

theorem isInf_of_number {x : Float} {q : ℚ} (h : value? x = some (number q)) : x.isInf = false := by
  rw [← Bool.not_eq_true, isInf_iff, h]
  rintro ⟨s, hs⟩
  exact infinite_ne_number s q (Option.some.inj hs).symm

/-- The first power of two beyond the finite numbers. -/
def limit : ℚ := 2 ^ (1024 : ℤ)

def capped (q : ℚ) : Extended :=
  if q ≤ -limit then ⊥ else if limit ≤ q then ⊤ else number q

/-- The value of the binary64 number next to a rational number. -/
def nearest (q : ℚ) : Extended := capped (rounded q)

theorem limit_pos : 0 < limit := two_zpow_pos _

theorem limit_eq : limit = 2 ^ 52 * 2 ^ (972 : ℤ) := by
  rw [limit, ← zpow_natCast, ← zpow_add₀ two_ne_zero]
  norm_num

theorem capped_of_abs_lt {q : ℚ} (h : |q| < limit) : capped q = number q := by
  obtain ⟨hl, hr⟩ := abs_lt.mp h
  rw [capped, if_neg (not_le.mpr hl), if_neg (not_le.mpr hr)]

theorem capped_mono {p q : ℚ} (h : p ≤ q) : capped p ≤ capped q := by
  unfold capped
  by_cases hp : p ≤ -limit
  · rw [if_pos hp]
    exact bot_le
  · rw [if_neg hp, if_neg (show ¬ q ≤ -limit by linarith)]
    by_cases hq : limit ≤ q
    · rw [if_pos hq]
      split
      · exact le_refl _
      · exact (number_lt_top p).le
    · rw [if_neg hq, if_neg (show ¬ limit ≤ p by linarith)]
      exact number_le_number.mpr h

theorem nearest_mono {p q : ℚ} (h : p ≤ q) : nearest p ≤ nearest q := capped_mono (rounded_mono h)

theorem nearest_of_isPoint {q : ℚ} (hq : IsPoint q) (h : |q| < limit) : nearest q = number q := by
  rw [nearest, rounded_of_isPoint hq, capped_of_abs_lt h]

theorem isPoint_limit : IsPoint limit := by
  refine ⟨1, 1024, ?_, by norm_num, by norm_num⟩
  rw [limit, Int.cast_one, one_mul]

theorem nearest_of_limit_le {q : ℚ} (h : limit ≤ q) : nearest q = ⊤ := by
  have hle := rounded_mono h
  rw [rounded_of_isPoint isPoint_limit] at hle
  have hl := limit_pos
  rw [nearest, capped, if_neg (show ¬ rounded q ≤ -limit by linarith), if_pos hle]

@[simp] theorem nearest_zero : nearest 0 = number 0 :=
  nearest_of_isPoint isPoint_zero (by rw [abs_zero]; exact limit_pos)

theorem nearest_of_tiny {q : ℚ} (h0 : 0 < q) (h : q ≤ 1 / 2 * 2 ^ (-1074 : ℤ)) : nearest q = number 0 := by
  have hpos := two_zpow_pos (-1074)
  have hgrid : grid q = -1074 := by
    refine grid_eq h0 (le_refl _) (h.trans_lt ?_) (Or.inr rfl)
    exact mul_lt_mul_of_pos_right (by norm_num) hpos
  have hnear : nearestEven (q / 2 ^ (-1074 : ℤ)) = 0 := by
    have hlow : 0 ≤ q / 2 ^ (-1074 : ℤ) := div_nonneg h0.le hpos.le
    have hhigh : q / 2 ^ (-1074 : ℤ) ≤ 1 / 2 := (div_le_iff₀ hpos).mpr h
    generalize q / 2 ^ (-1074 : ℤ) = x at hlow hhigh
    refine nearestEven_eq ?_ ?_ fun _ => rfl
    · push_cast
      linarith
    · push_cast
      linarith
  rw [nearest, rounded, hgrid, onGrid, hnear, Int.cast_zero, zero_mul, capped_of_abs_lt]
  rw [abs_zero]
  exact limit_pos

theorem rounded_signed (s : Sign) (q : ℚ) : rounded (signed s q) = signed s (rounded q) := by
  cases s with
  | negative => exact rounded_neg q
  | positive => rfl

theorem abs_signed (s : Sign) {q : ℚ} (h : 0 ≤ q) : |signed s q| = q := by
  cases s with
  | negative => exact (abs_neg q).trans (abs_of_nonneg h)
  | positive => exact abs_of_nonneg h

theorem capped_signed_of_lt {s : Sign} {q : ℚ} (h0 : 0 ≤ q) (h : q < limit) :
    capped (signed s q) = number (signed s q) := by
  refine capped_of_abs_lt ?_
  rwa [abs_signed s h0]

theorem capped_signed_of_le {s : Sign} {q : ℚ} (h : limit ≤ q) : capped (signed s q) = infinite s := by
  have hl := limit_pos
  cases s with
  | negative => exact if_pos (neg_le_neg h)
  | positive => exact (if_neg (show ¬ q ≤ -limit by linarith)).trans (if_pos h)

theorem Canonical.isPoint {m : ℕ} {e : ℤ} (h : Canonical m e) : IsPoint (m * 2 ^ e) := by
  refine ⟨m, e, rfl, ?_, h.low⟩
  rw [Nat.abs_cast]
  exact_mod_cast h.small

theorem Canonical.lt_limit {m : ℕ} {e : ℤ} (h : Canonical m e) : (m : ℚ) * 2 ^ e < limit := by
  have hm : (m : ℚ) < 2 ^ 53 := by exact_mod_cast h.small
  have he : e + 1 ≤ 972 := by have := h.high; omega
  calc (m : ℚ) * 2 ^ e
      < 2 ^ 53 * 2 ^ e := mul_lt_mul_of_pos_right hm (two_zpow_pos e)
    _ = 2 ^ 52 * 2 ^ (e + 1) := by rw [zpow_add_one₀ two_ne_zero]; ring
    _ ≤ 2 ^ 52 * 2 ^ (972 : ℤ) :=
      mul_le_mul_of_nonneg_left (zpow_le_zpow_right₀ one_le_two he) (by positivity)
    _ = limit := limit_eq.symm

theorem isPoint_signed (s : Sign) {q : ℚ} (h : IsPoint q) : IsPoint (signed s q) := by
  cases s with
  | negative => exact h.neg
  | positive => exact h

theorem isPoint_rational (x : Float) : IsPoint (rational x) := by
  unfold rational
  cases hu : x.toModel.unpack with
  | notANumber => exact isPoint_zero
  | infinity s => exact isPoint_zero
  | zero s => exact isPoint_zero
  | finite s m e hp => exact isPoint_signed s (canonical_of_unpack hu).isPoint

theorem abs_rational_lt_limit (x : Float) : |rational x| < limit := by
  have hz : |(0 : ℚ)| < limit := by
    rw [abs_zero]
    exact limit_pos
  unfold rational
  cases hu : x.toModel.unpack with
  | notANumber => exact hz
  | infinity s => exact hz
  | zero s => exact hz
  | finite s m e hp =>
    change |signed s (m * 2 ^ e)| < limit
    rw [abs_signed s (by positivity)]
    exact (canonical_of_unpack hu).lt_limit

theorem capped_of_le_abs {q : ℚ} (h : limit ≤ |q|) : ∃ s, capped q = infinite s := by
  rcases le_abs.mp h with hq | hq
  · exact ⟨.positive, capped_signed_of_le (s := .positive) hq⟩
  · have hneg := capped_signed_of_le (s := .negative) hq
    rw [signed, neg_neg] at hneg
    exact ⟨.negative, hneg⟩

theorem isInf_of_nearest {x : Float} {q : ℚ} (h : value? x = some (nearest q)) :
    x.isInf = true ↔ limit ≤ |rounded q| := by
  constructor
  · intro hinf
    by_contra hlt
    rw [nearest, capped_of_abs_lt (not_le.mp hlt)] at h
    rw [isInf_of_number h] at hinf
    cases hinf
  · intro hle
    obtain ⟨s, hs⟩ := capped_of_le_abs hle
    exact isInf_iff.mpr ⟨s, by rw [h, nearest, hs]⟩

theorem rounded_div_lt_limit (x : Float) {q : ℚ} (hq : 1 ≤ |q|) : |rounded (rational x / q)| < limit := by
  have hle : |rational x / q| ≤ |rational x| := by
    rw [abs_div]
    exact div_le_self (abs_nonneg _) hq
  calc |rounded (rational x / q)|
      = rounded |rational x / q| := abs_rounded _
    _ ≤ rounded |rational x| := rounded_mono hle
    _ = |rational x| := by rw [← abs_rounded, rounded_of_isPoint (isPoint_rational x)]
    _ < limit := abs_rational_lt_limit x

theorem Canonical.lt_of_exponent_lt {m n : ℕ} {d e : ℤ} (hm : Canonical m d) (hn : Canonical n e)
    (h : d < e) : (m : ℚ) * 2 ^ d < n * 2 ^ e := by
  have hnormal : 2 ^ 52 ≤ n := hn.normal.resolve_right (by have := hm.low; omega)
  have hsmall : (m : ℚ) < 2 ^ 53 := by exact_mod_cast hm.small
  have hlarge : (2 : ℚ) ^ 52 ≤ n := by exact_mod_cast hnormal
  calc (m : ℚ) * 2 ^ d
      < 2 ^ 53 * 2 ^ d := mul_lt_mul_of_pos_right hsmall (two_zpow_pos d)
    _ = 2 ^ 52 * 2 ^ (d + 1) := by rw [zpow_add_one₀ two_ne_zero]; ring
    _ ≤ 2 ^ 52 * 2 ^ e :=
      mul_le_mul_of_nonneg_left (zpow_le_zpow_right₀ one_le_two (by omega)) (by positivity)
    _ ≤ n * 2 ^ e := mul_le_mul_of_nonneg_right hlarge (two_zpow_pos e).le

theorem Canonical.eq_of_value {m m' : ℕ} {e e' : ℤ} (h : Canonical m e) (h' : Canonical m' e')
    (heq : (m : ℚ) * 2 ^ e = m' * 2 ^ e') : m = m' ∧ e = e' := by
  rcases lt_trichotomy e e' with hlt | rfl | hlt
  · exact absurd heq (h.lt_of_exponent_lt h' hlt).ne
  · exact ⟨by exact_mod_cast mul_right_cancel₀ (two_zpow_pos e).ne' heq, rfl⟩
  · exact absurd heq.symm (h'.lt_of_exponent_lt h hlt).ne

theorem Canonical.compares {m n : ℕ} {d e : ℤ} (hm : Canonical m d) (hn : Canonical n e) :
    ((compare d e).then (compare m n)).Compares ((m : ℚ) * 2 ^ d) (n * 2 ^ e) := by
  rcases lt_trichotomy d e with h | rfl | h
  · rw [Int.compare_eq_lt.mpr h]
    exact hm.lt_of_exponent_lt hn h
  · rw [Int.compare_eq_eq.mpr rfl]
    rcases lt_trichotomy m n with h | rfl | h
    · rw [Nat.compare_eq_lt.mpr h]
      exact mul_lt_mul_of_pos_right (Nat.cast_lt.mpr h) (two_zpow_pos d)
    · rw [Nat.compare_eq_eq.mpr rfl]
      exact (rfl : (m : ℚ) * 2 ^ d = m * 2 ^ d)
    · rw [Nat.compare_eq_gt.mpr h]
      exact mul_lt_mul_of_pos_right (Nat.cast_lt.mpr h) (two_zpow_pos d)
  · rw [Int.compare_eq_gt.mpr h]
    exact hn.lt_of_exponent_lt hm h

theorem compares_neg {o : Ordering} {p q : ℚ} (h : o.Compares p q) : o.swap.Compares (-p) (-q) := by
  cases o with
  | lt => exact neg_lt_neg h
  | eq => exact congrArg _ h
  | gt => exact neg_lt_neg h

theorem compares_number {o : Ordering} {p q : ℚ} (h : o.Compares p q) :
    o.Compares (number p) (number q) := by
  cases o with
  | lt => exact number_lt_number.mpr h
  | eq => exact congrArg number h
  | gt => exact number_lt_number.mpr h

def InForm (u : UnpackedFloat) : Prop := ∀ s m e hp, u = .finite s m e hp → Canonical m e

theorem inForm_unpack (x : Float) : InForm x.toModel.unpack := by
  intro s m e hp h
  exact canonical_of_unpack h

theorem signed_pos {m : ℕ} (hp : 0 < m) (e : ℤ) : 0 < signed .positive (m * 2 ^ e) := by
  unfold signed
  positivity

theorem signed_neg {m : ℕ} (hp : 0 < m) (e : ℤ) : signed .negative (m * 2 ^ e) < 0 := by
  unfold signed
  have : (0 : ℚ) < m * 2 ^ e := by positivity
  linarith

theorem compares_numbers {u v : UnpackedFloat} {p q : ℚ} (hu : InForm u) (hv : InForm v)
    (hp : unpackedValue? u = some (number p)) (hq : unpackedValue? v = some (number q)) :
    ∃ o, u.compare v = some o ∧ o.Compares p q := by
  rcases zero_or_finite hp with ⟨s, rfl, rfl⟩ | ⟨s, m, d, hm, rfl, rfl⟩
  · rcases zero_or_finite hq with ⟨r, rfl, rfl⟩ | ⟨r, n, e, hn, rfl, rfl⟩
    · exact ⟨.eq, rfl, rfl⟩
    · cases r with
      | negative => exact ⟨.gt, rfl, signed_neg hn e⟩
      | positive => exact ⟨.lt, rfl, signed_pos hn e⟩
  · rcases zero_or_finite hq with ⟨r, rfl, rfl⟩ | ⟨r, n, e, hn, rfl, rfl⟩
    · cases s with
      | negative => exact ⟨.lt, rfl, signed_neg hm d⟩
      | positive => exact ⟨.gt, rfl, signed_pos hm d⟩
    · have hc := (hu s m d hm rfl).compares (hv r n e hn rfl)
      cases s <;> cases r
      · exact ⟨_, rfl, compares_neg hc⟩
      · exact ⟨.lt, rfl, (signed_neg hm d).trans (signed_pos hn e)⟩
      · exact ⟨.gt, rfl, (signed_neg hn e).trans (signed_pos hm d)⟩
      · exact ⟨_, rfl, hc⟩

theorem compares_of_value? {u v : UnpackedFloat} {a b : Extended} (hu : InForm u) (hv : InForm v)
    (ha : unpackedValue? u = some a) (hb : unpackedValue? v = some b) :
    ∃ o, u.compare v = some o ∧ o.Compares a b := by
  rcases eq_infinite_or_number a with ⟨s, rfl⟩ | ⟨p, rfl⟩
  · obtain rfl := infinity_of_value? ha
    rcases eq_infinite_or_number b with ⟨r, rfl⟩ | ⟨q, rfl⟩
    · obtain rfl := infinity_of_value? hb
      cases s <;> cases r
      · exact ⟨.eq, rfl, rfl⟩
      · exact ⟨.lt, rfl, bot_lt_top⟩
      · exact ⟨.gt, rfl, bot_lt_top⟩
      · exact ⟨.eq, rfl, rfl⟩
    · rcases zero_or_finite hb with ⟨r, rfl, rfl⟩ | ⟨r, n, e, hn, rfl, rfl⟩ <;> cases s
      · exact ⟨.lt, rfl, bot_lt_number _⟩
      · exact ⟨.gt, rfl, number_lt_top _⟩
      · exact ⟨.lt, rfl, bot_lt_number _⟩
      · exact ⟨.gt, rfl, number_lt_top _⟩
  · rcases eq_infinite_or_number b with ⟨r, rfl⟩ | ⟨q, rfl⟩
    · obtain rfl := infinity_of_value? hb
      rcases zero_or_finite ha with ⟨s, rfl, rfl⟩ | ⟨s, m, d, hm, rfl, rfl⟩
      · cases r
        · exact ⟨.gt, rfl, bot_lt_number _⟩
        · exact ⟨.lt, rfl, number_lt_top _⟩
      · cases r <;> cases s
        · exact ⟨.gt, rfl, bot_lt_number _⟩
        · exact ⟨.gt, rfl, bot_lt_number _⟩
        · exact ⟨.lt, rfl, number_lt_top _⟩
        · exact ⟨.lt, rfl, number_lt_top _⟩
    · obtain ⟨o, ho, hpq⟩ := compares_numbers hu hv ha hb
      exact ⟨o, ho, compares_number hpq⟩

variable {x y : Float} {a b : Extended}

theorem le_iff (hx : value? x = some a) (hy : value? y = some b) : x ≤ y ↔ a ≤ b := by
  obtain ⟨o, ho, hab⟩ := compares_of_value? (inForm_unpack x) (inForm_unpack y) hx hy
  change decide (x.toModel ≤ y.toModel) = true ↔ _
  rw [decide_eq_true_iff]
  change (x.toModel.unpack.compare y.toModel.unpack).any Ordering.isLE = true ↔ _
  rw [ho, ← hab.ne_gt]
  cases o <;> decide

theorem value?_of_compare {o : Ordering} (h : x.toModel.unpack.compare y.toModel.unpack = some o) :
    ∃ a b, value? x = some a ∧ value? y = some b := by
  unfold value?
  generalize x.toModel.unpack = u at h ⊢
  generalize y.toModel.unpack = v at h ⊢
  cases u with
  | notANumber => cases h
  | _ =>
    cases v with
    | notANumber => cases h
    | _ => exact ⟨_, _, rfl, rfl⟩

theorem values_of_le (h : x ≤ y) : ∃ a b, value? x = some a ∧ value? y = some b ∧ a ≤ b := by
  have hle : (x.toModel.unpack.compare y.toModel.unpack).any Ordering.isLE = true := of_decide_eq_true h
  obtain ⟨o, ho⟩ := Option.isSome_iff_exists.mp (Option.isSome_of_any hle)
  obtain ⟨a, b, ha, hb⟩ := value?_of_compare ho
  exact ⟨a, b, ha, hb, (le_iff ha hb).mp h⟩

theorem lt_iff (hx : value? x = some a) (hy : value? y = some b) : x < y ↔ a < b := by
  obtain ⟨o, ho, hab⟩ := compares_of_value? (inForm_unpack x) (inForm_unpack y) hx hy
  change decide (x.toModel < y.toModel) = true ↔ _
  rw [decide_eq_true_iff]
  change (x.toModel.unpack.compare y.toModel.unpack == some .lt) = true ↔ _
  rw [ho, ← hab.eq_lt]
  cases o <;> decide

theorem values_of_lt (h : x < y) : ∃ a b, value? x = some a ∧ value? y = some b ∧ a < b := by
  have hlt : (x.toModel.unpack.compare y.toModel.unpack == some .lt) = true := of_decide_eq_true h
  obtain ⟨a, b, ha, hb⟩ := value?_of_compare (eq_of_beq hlt)
  exact ⟨a, b, ha, hb, (lt_iff ha hb).mp h⟩

theorem float_le_trans {z : Float} (h : x ≤ y) (h' : y ≤ z) : x ≤ z := by
  obtain ⟨a, b, ha, hb, hab⟩ := values_of_le h
  obtain ⟨b', c, hb', hc, hbc⟩ := values_of_le h'
  obtain rfl := Option.some.inj (hb.symm.trans hb')
  exact (le_iff ha hc).mpr (hab.trans hbc)

theorem float_lt_of_le_of_lt {z : Float} (h : x ≤ y) (h' : y < z) : x < z := by
  obtain ⟨a, b, ha, hb, hab⟩ := values_of_le h
  obtain ⟨b', c, hb', hc, hbc⟩ := values_of_lt h'
  obtain rfl := Option.some.inj (hb.symm.trans hb')
  exact (lt_iff ha hc).mpr (hab.trans_lt hbc)

theorem float_lt_of_lt_of_le {z : Float} (h : x < y) (h' : y ≤ z) : x < z := by
  obtain ⟨a, b, ha, hb, hab⟩ := values_of_lt h
  obtain ⟨b', c, hb', hc, hbc⟩ := values_of_le h'
  obtain rfl := Option.some.inj (hb.symm.trans hb')
  exact (lt_iff ha hc).mpr (hab.trans_le hbc)

@[simp] theorem value?_zero : value? 0 = some (number 0) := rfl

@[simp] theorem value?_infinity : value? (1 / 0) = some (infinite .positive) := rfl

theorem beq_iff (hx : value? x = some a) (hy : value? y = some b) : (x == y) = true ↔ a = b := by
  obtain ⟨o, ho, hab⟩ := compares_of_value? (inForm_unpack x) (inForm_unpack y) hx hy
  change (x.toModel.unpack.compare y.toModel.unpack == some .eq) = true ↔ _
  rw [ho, ← hab.eq_eq]
  cases o <;> decide

theorem le_congr {z : Float} (h : value? x = value? y) : z ≤ x ↔ z ≤ y := by
  have hle : ∀ {x y : Float}, value? x = value? y → z ≤ x → z ≤ y := by
    intro x y h hz
    obtain ⟨a, b, ha, hb, hab⟩ := values_of_le hz
    exact (le_iff ha (h ▸ hb)).mpr hab
  exact ⟨hle h, hle h.symm⟩

theorem lt_congr {z : Float} (h : value? x = value? y) : z < x ↔ z < y := by
  have hlt : ∀ {x y : Float}, value? x = value? y → z < x → z < y := by
    intro x y h hz
    obtain ⟨a, b, ha, hb, hab⟩ := values_of_lt hz
    exact (lt_iff ha (h ▸ hb)).mpr hab
  exact ⟨hlt h, hlt h.symm⟩

theorem isNaN_congr (h : value? x = value? y) : x.isNaN = y.isNaN := by
  rw [Bool.eq_iff_iff, isNaN_iff, isNaN_iff, h]

theorem isNaN_or_beq (h : value? x = value? y) : (x.isNaN = true ∧ y.isNaN = true) ∨ (x == y) = true := by
  cases hy : value? y with
  | none => exact .inl ⟨isNaN_iff.mpr (h.trans hy), isNaN_iff.mpr hy⟩
  | some a => exact .inr ((beq_iff (h.trans hy) hy).mpr rfl)

end PagingGate.Binary64
