import Mathlib

set_option autoImplicit false

namespace PagingGate.Binary64

open Float.Model (Format UnpackedFloat)
open Float.Model.UnpackedFloat

/-- The mantissas and exponents of binary64 numbers. -/
structure Canonical (m : ℕ) (e : ℤ) : Prop where
  small : m < 2 ^ 53
  low : -1074 ≤ e
  high : e ≤ 971
  normal : 2 ^ 52 ≤ m ∨ e = -1074

@[simp] theorem exponentBias_binary64 : Format.binary64.exponentBias = 1023 := rfl

@[simp] theorem unpack_packedInfinity (s : Sign) :
    unpack .binary64 (packedInfinity .binary64 s) = .infinity s := by
  cases s <;> rfl

/-- The leading digit of a normal mantissa is not packed. -/
theorem toNat_append_one (m : BitVec 52) : (1#1 ++ m).toNat = 2 ^ 52 + m.toNat := by
  rw [BitVec.toNat_append, ← Nat.shiftLeft_add_eq_or_of_lt m.isLt]
  rfl

theorem fields_of_unpack {b : BitVec 64} {s : Sign} {m : ℕ} {e : ℤ} {hp : 0 < m}
    (h : unpack .binary64 b = .finite s m e hp) : Sign.ofBitVec (@unpackSign .binary64 b) = s ∧
      ((0 < (@unpackExponent .binary64 b).toNat ∧ (@unpackExponent .binary64 b).toNat < 2047 ∧
          m = 2 ^ 52 + (@unpackMantissa .binary64 b).toNat ∧ e = (@unpackExponent .binary64 b).toNat - 1075) ∨
        ((@unpackExponent .binary64 b).toNat = 0 ∧ m = (@unpackMantissa .binary64 b).toNat ∧ e = -1074)) := by
  have he : (@unpackExponent .binary64 b).toNat < 2 ^ 11 := (@unpackExponent .binary64 b).isLt
  unfold unpack at h
  simp only [exponentBias_binary64] at h
  split at h
  · split at h <;> cases h
  · rename_i hmax
    have hmax' : (@unpackExponent .binary64 b).toNat ≠ 2047 :=
      fun heq => hmax (BitVec.eq_of_toNat_eq heq)
    split at h
    · rename_i hmin
      have hmin' : (@unpackExponent .binary64 b).toNat = 0 := by
        rw [hmin]
        rfl
      split at h
      · cases h
      · simp only [UnpackedFloat.finite.injEq] at h
        obtain ⟨hs, rfl, rfl⟩ := h
        exact ⟨hs, Or.inr ⟨hmin', rfl, by rw [hmin']; rfl⟩⟩
    · rename_i hmin
      have hmin' : (@unpackExponent .binary64 b).toNat ≠ 0 :=
        fun heq => hmin (BitVec.eq_of_toNat_eq heq)
      simp only [UnpackedFloat.finite.injEq] at h
      obtain ⟨hs, rfl, rfl⟩ := h
      exact ⟨hs, Or.inl ⟨Nat.pos_of_ne_zero hmin', by omega, toNat_append_one _, rfl⟩⟩

theorem canonical_of_unpack {b : BitVec 64} {s : Sign} {m : ℕ} {e : ℤ} {hp : 0 < m}
    (h : unpack .binary64 b = .finite s m e hp) : Canonical m e := by
  have hm : (@unpackMantissa .binary64 b).toNat < 2 ^ 52 := (@unpackMantissa .binary64 b).isLt
  obtain ⟨_, ⟨_, _, rfl, rfl⟩ | ⟨_, rfl, rfl⟩⟩ := fields_of_unpack h
  · constructor <;> omega
  · constructor <;> omega

theorem unpack_pack_of_large {s : Sign} {m : ℕ} {e : ℤ} {hp : 0 < m} (he : 972 ≤ e) :
    unpack .binary64 (pack .binary64 (.finite s m e hp)) = .infinity s := by
  have hlarge : 2 ^ 11 ≤ (e + (1023 : ℕ) + (52 : ℕ)).toNat + 1 := by omega
  have hpack : pack .binary64 (.finite s m e hp) = packedInfinity .binary64 s := if_pos hlarge
  rw [hpack, unpack_packedInfinity]

theorem unpack_normal (s : Sign) (x : BitVec Format.binary64.exponentBits)
    (m : BitVec Format.binary64.mantissaBitsWithoutImplicit) (hmax : x ≠ -1#_) (hmin : x ≠ 0#_)
    (hp : 0 < (1#1 ++ m).toNat) :
    unpack .binary64 (packComponents .binary64 s x m) = .finite s (1#1 ++ m).toNat (x.toNat - 1075) hp := by
  unfold unpack
  simp only [unpackExponent_packComponents, unpackMantissa_packComponents, unpackSign_packComponents,
    Sign.ofBitVec_toBitVec, exponentBias_binary64, hmax, hmin, if_false]
  rfl

theorem unpack_subnormal (s : Sign) (m : BitVec Format.binary64.mantissaBitsWithoutImplicit)
    (hp : 0 < m.toNat) :
    unpack .binary64 (packComponents .binary64 s 0#_ m) = .finite s m.toNat (-1074) hp := by
  have hm : m ≠ 0#_ := by
    rintro rfl
    exact absurd hp (by decide)
  have hmin : (0#_ : BitVec Format.binary64.exponentBits) ≠ -1#_ := by decide
  unfold unpack
  simp only [unpackExponent_packComponents, unpackMantissa_packComponents, unpackSign_packComponents,
    Sign.ofBitVec_toBitVec, exponentBias_binary64, hmin, hm, if_false, if_true, dif_neg, not_false_eq_true]
  rfl

theorem unpack_pack_of_normal {s : Sign} {m : ℕ} {e : ℤ} {hp : 0 < m} (h : Canonical m e)
    (hm : 2 ^ 52 ≤ m) : unpack .binary64 (pack .binary64 (.finite s m e hp)) = .finite s m e hp := by
  obtain ⟨hsmall, hlow, hhigh, _⟩ := h
  have hnot : ¬ 2 ^ 11 ≤ (e + (1023 : ℕ) + (52 : ℕ)).toNat + 1 := by omega
  have hlog : m.log2 + 1 = 53 := by
    rw [(Nat.log2_eq_iff hp.ne').mpr ⟨hm, hsmall⟩]
  have hpack : pack .binary64 (.finite s m e hp) = packComponents .binary64 s
      (BitVec.ofNat 11 (e + (1023 : ℕ) + (52 : ℕ)).toNat) (BitVec.ofNat 52 m) :=
    (if_neg hnot).trans (if_pos hlog)
  have hx : (BitVec.ofNat 11 (e + (1023 : ℕ) + (52 : ℕ)).toNat).toNat =
      (e + (1023 : ℕ) + (52 : ℕ)).toNat := by
    rw [BitVec.toNat_ofNat, Nat.mod_eq_of_lt (by omega)]
  have hmantissa : (1#1 ++ BitVec.ofNat 52 m).toNat = m := by
    rw [toNat_append_one, BitVec.toNat_ofNat]
    omega
  have hmax : BitVec.ofNat 11 (e + (1023 : ℕ) + (52 : ℕ)).toNat ≠ -1#_ := by
    intro heq
    rw [heq] at hx
    change 2047 = _ at hx
    omega
  have hmin : BitVec.ofNat 11 (e + (1023 : ℕ) + (52 : ℕ)).toNat ≠ 0#_ := by
    intro heq
    rw [heq] at hx
    change 0 = _ at hx
    omega
  have hexp : ((e + (1023 : ℕ) + (52 : ℕ)).toNat : ℤ) - 1075 = e := by omega
  rw [hpack, unpack_normal s _ _ hmax hmin (by rw [hmantissa]; exact hp)]
  simp only [hx, hmantissa, hexp]

theorem unpack_pack_of_subnormal {s : Sign} {m : ℕ} {e : ℤ} {hp : 0 < m} (hm : m < 2 ^ 52)
    (he : e = -1074) : unpack .binary64 (pack .binary64 (.finite s m e hp)) = .finite s m e hp := by
  have hnot : ¬ 2 ^ 11 ≤ (e + (1023 : ℕ) + (52 : ℕ)).toNat + 1 := by omega
  have hlog : ¬ m.log2 + 1 = 53 := by
    have h52 : m.log2 < 52 := (Nat.log2_lt hp.ne').mpr hm
    omega
  have hpack : pack .binary64 (.finite s m e hp) = packComponents .binary64 s 0#_ (BitVec.ofNat 52 m) :=
    (if_neg hnot).trans (if_neg hlog)
  have hmantissa : (BitVec.ofNat 52 m).toNat = m := by
    rw [BitVec.toNat_ofNat, Nat.mod_eq_of_lt (by omega)]
  rw [hpack, unpack_subnormal s _ (by rw [hmantissa]; exact hp)]
  simp only [hmantissa, he]

theorem unpack_pack_of_canonical {s : Sign} {m : ℕ} {e : ℤ} {hp : 0 < m} (h : Canonical m e) :
    unpack .binary64 (pack .binary64 (.finite s m e hp)) = .finite s m e hp := by
  by_cases hm : 2 ^ 52 ≤ m
  · exact unpack_pack_of_normal h hm
  · exact unpack_pack_of_subnormal (Nat.not_le.mp hm) (h.normal.resolve_left hm)

theorem fields_of_zero {b : BitVec 64} {s : Sign} (h : unpack .binary64 b = .zero s) :
    Sign.ofBitVec (@unpackSign .binary64 b) = s ∧ (@unpackExponent .binary64 b).toNat = 0 ∧
      (@unpackMantissa .binary64 b).toNat = 0 := by
  unfold unpack at h
  simp only at h
  split at h
  · split at h <;> cases h
  · split at h
    · rename_i hmin
      split at h
      · rename_i hzero
        exact ⟨UnpackedFloat.zero.inj h, by rw [hmin]; rfl, by rw [hzero]; rfl⟩
      · cases h
    · cases h

theorem packComponents_unpack (b : BitVec 64) :
    packComponents .binary64 (Sign.ofBitVec (@unpackSign .binary64 b)) (unpackExponent b) (unpackMantissa b) = b := by
  simp only [packComponents, Sign.toBitVec_ofBitVec, unpackSign, unpackExponent, unpackMantissa, BitVec.extractLsb]
  ext i hi
  grind

theorem eq_of_fields {b c : BitVec 64}
    (hs : Sign.ofBitVec (@unpackSign .binary64 b) = Sign.ofBitVec (@unpackSign .binary64 c))
    (he : (@unpackExponent .binary64 b).toNat = (@unpackExponent .binary64 c).toNat)
    (hm : (@unpackMantissa .binary64 b).toNat = (@unpackMantissa .binary64 c).toNat) : b = c := by
  rw [← packComponents_unpack b, ← packComponents_unpack c, hs, BitVec.eq_of_toNat_eq he, BitVec.eq_of_toNat_eq hm]

theorem unpack_injective_of_finite {b c : BitVec 64} {s : Sign} {m : ℕ} {e : ℤ} {hp : 0 < m}
    (hb : unpack .binary64 b = .finite s m e hp) (hc : unpack .binary64 c = .finite s m e hp) : b = c := by
  have hbm : (@unpackMantissa .binary64 b).toNat < 2 ^ 52 := (@unpackMantissa .binary64 b).isLt
  have hcm : (@unpackMantissa .binary64 c).toNat < 2 ^ 52 := (@unpackMantissa .binary64 c).isLt
  obtain ⟨hbs, hb⟩ := fields_of_unpack hb
  obtain ⟨hcs, hc⟩ := fields_of_unpack hc
  exact eq_of_fields (hbs.trans hcs.symm) (by omega) (by omega)

theorem unpack_injective_of_zero {b c : BitVec 64} {s : Sign} (hb : unpack .binary64 b = .zero s)
    (hc : unpack .binary64 c = .zero s) : b = c := by
  obtain ⟨hbs, hbe, hbm⟩ := fields_of_zero hb
  obtain ⟨hcs, hce, hcm⟩ := fields_of_zero hc
  exact eq_of_fields (hbs.trans hcs.symm) (hbe.trans hce.symm) (hbm.trans hcm.symm)

end PagingGate.Binary64
