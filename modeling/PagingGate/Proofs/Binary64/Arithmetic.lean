import PagingGate.Proofs.Binary64.Shifting

set_option autoImplicit false

namespace PagingGate.Binary64

open Float.Model (Format UnpackedFloat totalExponent)
open Float.Model.UnpackedFloat

theorem signed_neg_sign (s : Sign) (q : ℚ) : signed (-s) q = -signed s q := by
  cases s with
  | negative => exact (neg_neg q).symm
  | positive => rfl

theorem signed_mul_signed (s t : Sign) (p q : ℚ) : signed (s * t) (p * q) = signed s p * signed t q := by
  cases s <;> cases t
  · exact (neg_mul_neg p q).symm
  · exact (neg_mul p q).symm
  · exact (mul_neg p q).symm
  · rfl

theorem signed_div_signed (s t : Sign) (p q : ℚ) : signed (s / t) (p / q) = signed s p / signed t q := by
  cases s <;> cases t
  · exact (neg_div_neg_eq p q).symm
  · exact (neg_div q p).symm
  · exact (div_neg p).symm
  · rfl

theorem apply_eq_signed (s : Sign) (n : ℤ) : ((s.apply n : ℤ) : ℚ) = signed s n := by
  cases s with
  | negative => exact Int.cast_neg n
  | positive => rfl

theorem signed_mul (s : Sign) (p q : ℚ) : signed s p * q = signed s (p * q) := by
  cases s with
  | negative => exact neg_mul p q
  | positive => rfl

theorem decreaseExponent_value (m : ℕ) (e t : ℤ) :
    ((decreaseExponent m e t).1 : ℚ) * 2 ^ (decreaseExponent m e t).2 = m * 2 ^ e := by
  have he : e = (e - t).toNat + (e - (e - t).toNat) := by omega
  change ((m <<< (e - t).toNat : ℕ) : ℚ) * 2 ^ (e - (e - t).toNat) = m * 2 ^ e
  rw [Nat.shiftLeft_eq]
  conv_rhs => rw [he]
  rw [zpow_add₀ two_ne_zero, zpow_natCast]
  push_cast
  ring

theorem log2_shiftLeft {m : ℕ} (hm : 0 < m) (k : ℕ) : (m <<< k).log2 = m.log2 + k := by
  rw [Nat.shiftLeft_eq]
  induction k with
  | zero => rw [pow_zero, mul_one, add_zero]
  | succ k ih =>
    have hk : m * 2 ^ k ≠ 0 := Nat.mul_ne_zero hm.ne' (Nat.two_pow_pos k).ne'
    rw [pow_succ, ← mul_assoc, mul_comm _ 2, Nat.log2_two_mul hk, ih, add_assoc]

theorem ample_decreaseExponent {m : ℕ} (hm : 0 < m) (e : ℤ) :
    Ample (decreaseExponent m e (Format.binary64.targetExponent (totalExponent m e))).1
      (decreaseExponent m e (Format.binary64.targetExponent (totalExponent m e))).2 := by
  rw [targetExponent_binary64, totalExponent]
  generalize hk : (e - max ((m.log2 : ℤ) + 1 + e - 53) (-1074)).toNat = k
  have hlog := log2_shiftLeft hm k
  unfold decreaseExponent
  rw [hk]
  change 52 ≤ (m <<< k).log2 ∨ e - k ≤ -1074
  omega

theorem round_value {s : Sign} {m : ℕ} {e : ℤ} (hm : 0 < m) :
    packedValue? (UnpackedFloat.round .binary64 s m e) = some (nearest (signed s (m * 2 ^ e))) := by
  have hample := ample_decreaseExponent hm e
  have hvalue := decreaseExponent_value m e (Format.binary64.targetExponent (totalExponent m e))
  have hpos : (0 : ℚ) < (decreaseExponent m e (Format.binary64.targetExponent (totalExponent m e))).1 := by
    have h : (0 : ℚ) < m * 2 ^ e := mul_pos (Nat.cast_pos.mpr hm) (two_zpow_pos e)
    rw [← hvalue] at h
    exact pos_of_mul_pos_left h (two_zpow_pos _).le
  rw [← hvalue]
  exact roundWithAccuracy_value hpos (describes_exact _) hample

theorem normalize_value (n e : ℤ) (s : Sign) :
    packedValue? (UnpackedFloat.normalize .binary64 n e s) = some (nearest (n * 2 ^ e)) := by
  unfold UnpackedFloat.normalize
  rcases lt_trichotomy n 0 with h | rfl | h
  · have hn : ((-n).toNat : ℚ) = -n := by exact_mod_cast Int.toNat_of_nonneg (show 0 ≤ -n by omega)
    rw [Int.compare_eq_lt.mpr h]
    dsimp only
    rw [round_value (by omega), hn]
    change some (nearest (-(-(n : ℚ) * 2 ^ e))) = _
    rw [neg_mul, neg_neg]
  · rw [Int.cast_zero, zero_mul, nearest_zero]
    exact packedValue?_zero s
  · have hn : (n.toNat : ℚ) = n := by exact_mod_cast Int.toNat_of_nonneg h.le
    rw [Int.compare_eq_gt.mpr h]
    dsimp only
    rw [round_value (by omega), hn]
    rfl

theorem packedValue?_of_canonical {s : Sign} {m : ℕ} {e : ℤ} {hp : 0 < m} (h : Canonical m e) :
    packedValue? (.finite s m e hp) = some (nearest (signed s (m * 2 ^ e))) := by
  rw [packedValue?_finite hp h.small h.low h.normal, nearest, rounded_signed, rounded_of_isPoint h.isPoint]

variable {u v : UnpackedFloat} {p q : ℚ}

theorem sub_value (hu : InForm u) (hv : InForm v) (hp : unpackedValue? u = some (number p))
    (hq : unpackedValue? v = some (number q)) :
    packedValue? (UnpackedFloat.sub .binary64 u v) = some (nearest (p - q)) := by
  rcases zero_or_finite hp with ⟨s, rfl, rfl⟩ | ⟨s, m, d, hm, rfl, rfl⟩
  · rcases zero_or_finite hq with ⟨t, rfl, rfl⟩ | ⟨t, n, e, hn, rfl, rfl⟩
    · rw [sub_zero, nearest_zero]
      cases s <;> cases t <;> exact packedValue?_zero _
    · rw [zero_sub, ← signed_neg_sign]
      exact packedValue?_of_canonical (hv t n e hn rfl)
  · rcases zero_or_finite hq with ⟨t, rfl, rfl⟩ | ⟨t, n, e, hn, rfl, rfl⟩
    · rw [sub_zero]
      exact packedValue?_of_canonical (hu s m d hm rfl)
    · -- Both are multiples of the smaller power of two.
      have hd : (decreaseExponent m d (min d e)).2 = min d e := by
        change d - ((d - min d e).toNat : ℤ) = min d e
        omega
      have he : (decreaseExponent n e (min d e)).2 = min d e := by
        change e - ((e - min d e).toNat : ℤ) = min d e
        omega
      have hleft := decreaseExponent_value m d (min d e)
      have hright := decreaseExponent_value n e (min d e)
      rw [hd] at hleft
      rw [he] at hright
      change ((m <<< (d - min d e).toNat : ℕ) : ℚ) * 2 ^ min d e = _ at hleft
      change ((n <<< (e - min d e).toNat : ℕ) : ℚ) * 2 ^ min d e = _ at hright
      refine (normalize_value _ _ _).trans ?_
      rw [Int.cast_sub, sub_mul, apply_eq_signed, apply_eq_signed, signed_mul, signed_mul]
      rw [Int.cast_natCast, Int.cast_natCast, hleft, hright]

theorem ample_mul {m n : ℕ} {d e : ℤ} (hm : Canonical m d) (hn : Canonical n e) (h : 0 < m * n) :
    Ample (m * n) (d + e) := by
  rcases hm.normal with hm' | rfl
  · left
    exact (Nat.le_log2 h.ne').mpr (hm'.trans (Nat.le_mul_of_pos_right m (Nat.pos_of_mul_pos_left h)))
  · rcases hn.normal with hn' | rfl
    · left
      exact (Nat.le_log2 h.ne').mpr (hn'.trans (Nat.le_mul_of_pos_left n (Nat.pos_of_mul_pos_right h)))
    · right
      omega

theorem mul_value (hu : InForm u) (hv : InForm v) (hp : unpackedValue? u = some (number p))
    (hq : unpackedValue? v = some (number q)) :
    packedValue? (UnpackedFloat.mul .binary64 u v) = some (nearest (p * q)) := by
  rcases zero_or_finite hp with ⟨s, rfl, rfl⟩ | ⟨s, m, d, hm, rfl, rfl⟩
  · rw [zero_mul, nearest_zero]
    rcases zero_or_finite hq with ⟨t, rfl, rfl⟩ | ⟨t, n, e, hn, rfl, rfl⟩
    · exact packedValue?_zero _
    · exact packedValue?_zero _
  · rcases zero_or_finite hq with ⟨t, rfl, rfl⟩ | ⟨t, n, e, hn, rfl, rfl⟩
    · rw [mul_zero, nearest_zero]
      exact packedValue?_zero _
    · have hpos : 0 < m * n := Nat.mul_pos hm hn
      have hample := ample_mul (hu s m d hm rfl) (hv t n e hn rfl) hpos
      refine (roundWithAccuracy_value (Nat.cast_pos.mpr hpos) (describes_exact _) hample).trans ?_
      rw [← signed_mul_signed, Nat.cast_mul, zpow_add₀ two_ne_zero, mul_mul_mul_comm]

theorem describes_fraction (m : ℕ) {n : ℕ} (hn : 0 < n) :
    Describes (.ofMantissaAndAccuracy (m / n) (accuracyOfFraction (m % n) n)) ((m : ℚ) / n) := by
  have hn' : (0 : ℚ) < n := Nat.cast_pos.mpr hn
  have hdiv : (m : ℚ) / n = (m / n : ℕ) + (m % n : ℕ) / n := by
    have hmod : (n : ℚ) * (m / n : ℕ) + (m % n : ℕ) = m := by exact_mod_cast Nat.div_add_mod m n
    rw [← hmod, add_div, mul_div_cancel_left₀ _ hn'.ne']
  have hlt : (m % n : ℕ) < n := Nat.mod_lt m hn
  rw [hdiv]
  generalize m % n = r at hlt ⊢
  unfold accuracyOfFraction
  by_cases h0 : r = 0
  · rw [if_pos h0, h0, Nat.cast_zero, zero_div, add_zero]
    exact describes_exact _
  · have hr : (0 : ℚ) < (r : ℚ) / n := div_pos (Nat.cast_pos.mpr (Nat.pos_of_ne_zero h0)) hn'
    have hr' : (r : ℚ) / n < 1 := (div_lt_one hn').mpr (Nat.cast_lt.mpr hlt)
    rw [if_neg h0]
    rcases lt_trichotomy (2 * r) n with h | h | h
    · have hhalf : (r : ℚ) / n < 1 / 2 := by
        rw [div_lt_div_iff₀ hn' two_pos]
        exact_mod_cast (show r * 2 < 1 * n by omega)
      rw [Nat.compare_eq_lt.mpr h]
      constructor <;> linarith
    · have hhalf : (r : ℚ) / n = 1 / 2 := by
        rw [div_eq_div_iff hn'.ne' two_ne_zero]
        exact_mod_cast (show r * 2 = 1 * n by omega)
      rw [Nat.compare_eq_eq.mpr h, hhalf]
      exact (rfl : ((m / n : ℕ) : ℚ) + 1 / 2 = (m / n : ℕ) + 1 / 2)
    · have hhalf : 1 / 2 < (r : ℚ) / n := by
        rw [div_lt_div_iff₀ two_pos hn']
        exact_mod_cast (show 1 * n < r * 2 by omega)
      rw [Nat.compare_eq_gt.mpr h]
      constructor <;> linarith

theorem ample_divCore {m n : ℕ} (d e : ℤ) (hm : 0 < m) (hn : 0 < n) :
    Ample (divCore .binary64 m d n e).1 (divCore .binary64 m d n e).2.1 := by
  unfold divCore
  rw [targetExponent_binary64, totalExponent, totalExponent]
  dsimp only
  generalize ht : min (d - e) (max ((m.log2 : ℤ) + 1 + d - (n.log2 + 1 + e) - 53) (-1074)) = t
  generalize hk : (d - e - t).toNat = k
  by_cases hlow : t ≤ -1074
  · exact Or.inr hlow
  · left
    have hdigits : n.log2 + 53 ≤ m.log2 + k := by omega
    have hmk : m <<< k ≠ 0 := by
      rw [Nat.shiftLeft_eq]
      exact Nat.mul_ne_zero hm.ne' (Nat.two_pow_pos k).ne'
    have hlarge : 2 ^ 52 ≤ m <<< k / n := by
      rw [Nat.le_div_iff_mul_le hn]
      calc 2 ^ 52 * n
          ≤ 2 ^ 52 * 2 ^ (n.log2 + 1) := Nat.mul_le_mul_left _ Nat.lt_log2_self.le
        _ = 2 ^ (n.log2 + 53) := by rw [← pow_add]; congr 1; omega
        _ ≤ 2 ^ (m <<< k).log2 := by
          rw [log2_shiftLeft hm]
          exact Nat.pow_le_pow_right (by decide) hdigits
        _ ≤ m <<< k := Nat.log2_self_le hmk
    exact (Nat.le_log2 (by omega)).mpr hlarge

theorem div_value (hp : unpackedValue? u = some (number p)) (hq : unpackedValue? v = some (number q))
    (h0 : q ≠ 0) : packedValue? (UnpackedFloat.div .binary64 u v) = some (nearest (p / q)) := by
  rcases zero_or_finite hq with ⟨t, rfl, rfl⟩ | ⟨t, n, e, hn, rfl, rfl⟩
  · exact absurd rfl h0
  · rcases zero_or_finite hp with ⟨s, rfl, rfl⟩ | ⟨s, m, d, hm, rfl, rfl⟩
    · rw [zero_div, nearest_zero]
      exact packedValue?_zero _
    · have hample := ample_divCore d e hm hn
      generalize hr : (divCore .binary64 m d n e).2.1 = r at hample
      have hle : r ≤ d - e := by
        rw [← hr]
        exact min_le_left _ _
      generalize hk : (d - e - r).toNat = k
      have hcore : divCore .binary64 m d n e = ((m <<< k) / n, r, accuracyOfFraction ((m <<< k) % n) n) := by
        rw [← hk, ← hr]
        rfl
      rw [hcore] at hample
      have hpos : (0 : ℚ) < ((m <<< k : ℕ) : ℚ) / n := by
        rw [Nat.shiftLeft_eq]
        positivity
      have hquot : ((m <<< k : ℕ) : ℚ) / n * 2 ^ r = m * 2 ^ d / (n * 2 ^ e) := by
        have hexp : d = k + r + e := by omega
        rw [Nat.shiftLeft_eq, hexp, zpow_add₀ two_ne_zero, zpow_add₀ two_ne_zero, zpow_natCast]
        push_cast
        field_simp
      have hround : UnpackedFloat.div .binary64 (.finite s m d hm) (.finite t n e hn) = roundWithAccuracy .binary64 (s / t)
          ((m <<< k) / n) r (accuracyOfFraction ((m <<< k) % n) n) := by
        change (match divCore .binary64 m d n e with
          | (m, e, a) => roundWithAccuracy .binary64 (s / t) m e a) = _
        rw [hcore]
      rw [hround, roundWithAccuracy_value hpos (describes_fraction _ hn) hample, hquot, signed_div_signed]

/-- A function of numbers, rounded to nearest, that keeps the infinities. -/
def lift (f : ℚ → ℚ) : Extended → Extended :=
  WithBot.recBotCoe ⊥ (WithTop.recTopCoe ⊤ fun q => nearest (f q))

theorem lift_number (f : ℚ → ℚ) (q : ℚ) : lift f (number q) = nearest (f q) := rfl

theorem lift_mono {f : ℚ → ℚ} (hf : Monotone f) : Monotone (lift f) := by
  intro a b h
  rcases eq_infinite_or_number a with ⟨s, rfl⟩ | ⟨p, rfl⟩
  · cases s with
    | negative => exact bot_le
    | positive =>
      obtain rfl := top_le_iff.mp h
      exact le_refl _
  · rcases eq_infinite_or_number b with ⟨s, rfl⟩ | ⟨q, rfl⟩
    · cases s with
      | negative => exact absurd h (not_le.mpr (bot_lt_number p))
      | positive => exact le_top
    · rw [lift_number, lift_number]
      exact nearest_mono (hf (number_le_number.mp h))

theorem finite_of_pos (h0 : 0 < q) (hq : unpackedValue? v = some (number q)) :
    ∃ m e hp, v = .finite .positive m e hp := by
  rcases zero_or_finite hq with ⟨t, rfl, rfl⟩ | ⟨t, n, e, hn, rfl, rfl⟩
  · exact absurd h0 (lt_irrefl 0)
  · cases t with
    | negative => exact absurd h0 (not_lt.mpr (signed_neg hn e).le)
    | positive => exact ⟨n, e, hn, rfl⟩

theorem lift_infinite (f : ℚ → ℚ) (s : Sign) : lift f (infinite s) = infinite s := by
  cases s <;> rfl

variable {x y : Float} {a : Extended}

theorem value?_sub (hx : value? x = some (number p)) (hy : value? y = some (number q)) :
    value? (x - y) = some (nearest (p - q)) :=
  sub_value (inForm_unpack x) (inForm_unpack y) hx hy

theorem value?_mul_of_pos (hx : value? x = some a) (hy : value? y = some (number q)) (h0 : 0 < q) :
    value? (x * y) = some (lift (· * q) a) := by
  rcases eq_infinite_or_number a with ⟨s, rfl⟩ | ⟨p, rfl⟩
  · have hu := infinity_of_value? hx
    obtain ⟨m, e, hp, hv⟩ := finite_of_pos h0 hy
    change packedValue? (UnpackedFloat.mul .binary64 x.toModel.unpack y.toModel.unpack) = _
    rw [hu, hv, lift_infinite]
    cases s <;> exact packedValue?_infinity _
  · rw [lift_number]
    exact mul_value (inForm_unpack x) (inForm_unpack y) hx hy

theorem value?_div_of_pos (hx : value? x = some a) (hy : value? y = some (number q)) (h0 : 0 < q) :
    value? (x / y) = some (lift (· / q) a) := by
  rcases eq_infinite_or_number a with ⟨s, rfl⟩ | ⟨p, rfl⟩
  · have hu := infinity_of_value? hx
    obtain ⟨m, e, hp, hv⟩ := finite_of_pos h0 hy
    change packedValue? (UnpackedFloat.div .binary64 x.toModel.unpack y.toModel.unpack) = _
    rw [hu, hv, lift_infinite]
    cases s <;> exact packedValue?_infinity _
  · rw [lift_number]
    exact div_value hx hy h0.ne'

theorem value?_sub_of_number (hx : value? x = some a) (hy : value? y = some (number q)) :
    value? (x - y) = some (lift (· - q) a) := by
  rcases eq_infinite_or_number a with ⟨s, rfl⟩ | ⟨p, rfl⟩
  · have hu := infinity_of_value? hx
    change packedValue? (UnpackedFloat.sub .binary64 x.toModel.unpack y.toModel.unpack) = _
    rw [hu, lift_infinite]
    rcases zero_or_finite hy with ⟨t, hv, -⟩ | ⟨t, n, e, hn, hv, -⟩
    · rw [hv]
      exact packedValue?_infinity s
    · rw [hv]
      exact packedValue?_infinity s
  · rw [lift_number]
    exact value?_sub hx hy

theorem value?_div (hx : value? x = some (number p)) (hy : value? y = some (number q)) (h0 : q ≠ 0) :
    value? (x / y) = some (nearest (p / q)) := div_value hx hy h0

theorem value?_abs (hx : value? x = some (number q)) : value? x.abs = some (number |q|) := by
  change packedValue? x.toModel.unpack.abs = _
  rcases zero_or_finite hx with ⟨s, hu, rfl⟩ | ⟨s, m, e, hm, hu, rfl⟩
  · rw [hu, abs_zero]
    exact packedValue?_zero .positive
  · have hc := inForm_unpack x s m e hm hu
    have hvalue := packedValue?_finite (s := .positive) hm hc.small hc.low hc.normal
    rw [capped_signed_of_lt (by positivity) hc.lt_limit] at hvalue
    rw [hu, abs_signed s (by positivity)]
    exact hvalue

theorem value?_div_of_ne (hx : value? x = some a) (hy : value? y = some (number q)) (h0 : q ≠ 0) :
    ∃ b, value? (x / y) = some b := by
  rcases eq_infinite_or_number a with ⟨s, rfl⟩ | ⟨p, rfl⟩
  · rcases zero_or_finite hy with ⟨t, _, rfl⟩ | ⟨t, n, e, hn, hv, _⟩
    · exact absurd rfl h0
    · have hu := infinity_of_value? hx
      refine ⟨infinite (s / t), ?_⟩
      change packedValue? (UnpackedFloat.div .binary64 x.toModel.unpack y.toModel.unpack) = _
      rw [hu, hv]
      exact packedValue?_infinity (s / t)
  · exact ⟨_, value?_div hx hy h0⟩

theorem notANumber_of_value? {u : UnpackedFloat} (h : unpackedValue? u = none) : u = .notANumber := by
  cases u with
  | notANumber => rfl
  | infinity s => cases h
  | zero s => cases h
  | finite s m e hp => cases h

@[simp] theorem packedValue?_notANumber : packedValue? .notANumber = none := rfl

/-- An infinite number takes everything with it, and two of one sign cancel. -/
theorem value?_sub_of_infinite (x : Float) {s : Sign} (hy : value? y = some (infinite s)) :
    value? (x - y) = none ∨ ∃ t, value? (x - y) = some (infinite t) := by
  have hv := infinity_of_value? hy
  change packedValue? (UnpackedFloat.sub .binary64 x.toModel.unpack y.toModel.unpack) = none ∨
    ∃ t, packedValue? (UnpackedFloat.sub .binary64 x.toModel.unpack y.toModel.unpack) = some (infinite t)
  rw [hv]
  cases x.toModel.unpack with
  | notANumber => exact Or.inl packedValue?_notANumber
  | infinity t =>
    cases s <;> cases t
    · exact Or.inl packedValue?_notANumber
    · exact Or.inr ⟨.positive, packedValue?_infinity .positive⟩
    · exact Or.inr ⟨.negative, packedValue?_infinity .negative⟩
    · exact Or.inl packedValue?_notANumber
  | zero t => exact Or.inr ⟨-s, packedValue?_infinity (-s)⟩
  | finite t m e hp => exact Or.inr ⟨-s, packedValue?_infinity (-s)⟩

theorem value?_div_of_infinite {s t : Sign} (hx : value? x = none ∨ value? x = some (infinite s))
    (hy : value? y = some (infinite t)) : value? (x / y) = none := by
  have hv := infinity_of_value? hy
  change packedValue? (UnpackedFloat.div .binary64 x.toModel.unpack y.toModel.unpack) = none
  rcases hx with hx | hx
  · rw [notANumber_of_value? hx]
    exact packedValue?_notANumber
  · rw [infinity_of_value? hx, hv]
    exact packedValue?_notANumber

theorem value?_mul_of_none (hx : value? x = none) (y : Float) : value? (x * y) = none := by
  change packedValue? (UnpackedFloat.mul .binary64 x.toModel.unpack y.toModel.unpack) = none
  rw [notANumber_of_value? hx]
  exact packedValue?_notANumber

theorem isPoint_natCast {n : ℕ} (h : n < 2 ^ 53) : IsPoint n := by
  refine ⟨n, 0, ?_, ?_, by decide⟩
  · rw [zpow_zero, mul_one, Int.cast_natCast]
  · rw [Nat.abs_cast]
    exact_mod_cast h

theorem natCast_lt_limit {n : ℕ} (h : n < 2 ^ 53) : |(n : ℚ)| < limit := by
  rw [Nat.abs_cast]
  calc (n : ℚ)
      < 2 ^ 53 := by exact_mod_cast h
    _ ≤ 2 ^ (1024 : ℤ) := by
      rw [← zpow_natCast]
      exact zpow_le_zpow_right₀ one_le_two (by decide)

/-- Whole numbers with up to 53 binary digits are not rounded. -/
theorem nearest_natCast {n : ℕ} (h : n < 2 ^ 53) : nearest n = number n :=
  nearest_of_isPoint (isPoint_natCast h) (natCast_lt_limit h)

theorem value?_toFloat {n : ℕ} (h : n < 2 ^ 53) : value? n.toUInt64.toFloat = some (number n) := by
  have hword : n.toUInt64.toNat = n := Nat.mod_eq_of_lt (h.trans (by decide))
  refine (normalize_value n.toUInt64.toNat 0 .positive).trans ?_
  rw [hword, zpow_zero, mul_one, Int.cast_natCast, nearest_natCast h]

end PagingGate.Binary64
