import LayerBlend.Arithmetic.Double
import LayerBlend.Proofs.Arithmetic.Unpacked

/-!
# Bits of doubles

* `parts_eq` — the parts that the bits of a double say are the sign, the mantissa and the exponent
  that it is taken apart into.
* `toNat_pack` and `unpack_of_toNat` — packing a positive double in range gives its bits, and these
  are taken apart into it.
* `UnpackedStands.unpack_pack` — a double in range that is packed and taken apart again stands for
  the same number.
-/

namespace LayerBlend.Double

open Float.Model Float.Model.UnpackedFloat Numeral

/-! ## Fields -/

theorem toNat_unpackMantissa (b : BitVec Format.binary64.numBits) :
    (unpackMantissa b).toNat = b.toNat % 2 ^ 52 := by
  simp [unpackMantissa, BitVec.extractLsb_toNat]

theorem toNat_unpackExponent (b : BitVec Format.binary64.numBits) :
    (unpackExponent b).toNat = b.toNat / 2 ^ 52 % 2 ^ 11 := by
  simp [unpackExponent, BitVec.extractLsb_toNat, Nat.shiftRight_eq_div_pow]

theorem toNat_unpackSign (b : BitVec Format.binary64.numBits) :
    (unpackSign b).toNat = b.toNat / 2 ^ 63 := by
  have := b.isLt
  unfold unpackSign
  simp [BitVec.extractLsb_toNat, Nat.shiftRight_eq_div_pow]
  simp [Format.numBits] at this
  omega

theorem toNat_packComponents (s : Sign) (e : BitVec Format.binary64.exponentBits)
    (m : BitVec Format.binary64.mantissaBitsWithoutImplicit) :
    (packComponents Format.binary64 s e m).toNat =
      s.toBitVec.toNat * 2 ^ 63 + e.toNat * 2 ^ 52 + m.toNat := by
  simp only [packComponents, BitVec.toNat_append]
  rw [← Nat.shiftLeft_add_eq_or_of_lt m.isLt, ← Nat.shiftLeft_add_eq_or_of_lt e.isLt]
  simp [Nat.shiftLeft_eq]
  ring

theorem toNat_implicit (m : BitVec 52) : (1#1 ++ m).toNat = m.toNat + 2 ^ 52 := by
  rw [BitVec.toNat_append, ← Nat.shiftLeft_add_eq_or_of_lt m.isLt, Nat.add_comm]
  rfl

/-! ## Taking apart -/

section

variable {b : BitVec Format.binary64.numBits}

/-- The greatest exponent of all marks what is not finite. -/
theorem unpack_of_greatest (hmax : unpackExponent b = -1#_) :
    UnpackedFloat.unpack Format.binary64 b =
      if unpackMantissa b = 0#_ then .infinity (Sign.ofBitVec (unpackSign b))
      else .notANumber := by
  unfold UnpackedFloat.unpack
  exact if_pos hmax

/-- The least exponent, without a mantissa, marks the zeros. -/
theorem unpack_of_zero (hexponent : unpackExponent b = 0#_) (hmantissa : unpackMantissa b = 0#_) :
    UnpackedFloat.unpack Format.binary64 b = .zero (Sign.ofBitVec (unpackSign b)) := by
  unfold UnpackedFloat.unpack
  dsimp only
  rw [hexponent, if_neg (by decide), if_pos rfl, dif_pos hmantissa]

/-- With the least exponent the mantissa has no digit that goes without saying. -/
theorem unpack_of_least (hexponent : unpackExponent b = 0#_) (hmantissa : unpackMantissa b ≠ 0#_) :
    ∃ hpos, UnpackedFloat.unpack Format.binary64 b =
      .finite (Sign.ofBitVec (unpackSign b)) (unpackMantissa b).toNat (-1074) hpos := by
  refine ⟨Nat.pos_of_ne_zero fun h => hmantissa (BitVec.eq_of_toNat_eq h), ?_⟩
  unfold UnpackedFloat.unpack
  dsimp only
  rw [if_neg (by rw [hexponent]; decide), if_pos hexponent, dif_neg hmantissa,
    UnpackedFloat.finite.injEq]
  refine ⟨rfl, rfl, ?_⟩
  rw [hexponent]
  rfl

/-- With any other exponent it has one. -/
theorem unpack_of_between (hmax : unpackExponent b ≠ -1#_) (hexponent : unpackExponent b ≠ 0#_) :
    ∃ hpos, UnpackedFloat.unpack Format.binary64 b =
      .finite (Sign.ofBitVec (unpackSign b)) ((unpackMantissa b).toNat + 2 ^ 52)
        ((unpackExponent b).toNat - 1075) hpos := by
  refine ⟨Nat.add_pos_right _ (Nat.two_pow_pos 52), ?_⟩
  unfold UnpackedFloat.unpack
  dsimp only
  rw [if_neg hmax, if_neg hexponent, UnpackedFloat.finite.injEq]
  exact ⟨rfl, toNat_implicit _, rfl⟩

end

/-! ## Parts -/

/-- The parts of a double that is taken apart. -/
def partsOf : UnpackedFloat → Parts
  | .notANumber => .nan
  | .infinity s => .infinite (s.toBitVec == 1#1)
  | .zero s => .finite (s.toBitVec == 1#1) 0 minExponent
  | .finite s m e _ => .finite (s.toBitVec == 1#1) m e

/-- The parts that bits say are those of the double they are taken apart into. -/
theorem parts_eq (x : Float) : parts x = partsOf x.toModel.unpack := by
  show parts x = partsOf (UnpackedFloat.unpack Format.binary64 x.toBits.toBitVec)
  obtain ⟨b, hb⟩ : ∃ b : BitVec Format.binary64.numBits, x.toBits.toBitVec = b := ⟨_, rfl⟩
  have hnat : x.toBits.toNat = b.toNat := congrArg BitVec.toNat hb
  have hexponent : b.toNat / twoTo 52 % twoTo 11 = (unpackExponent b).toNat :=
    (toNat_unpackExponent b).symm
  have hmantissa : b.toNat % twoTo 52 = (unpackMantissa b).toNat := (toNat_unpackMantissa b).symm
  have hsign : (b.toNat / twoTo 63 == 1) = ((Sign.ofBitVec (unpackSign b)).toBitVec == 1#1) := by
    have hbit : ∀ c : BitVec 1, (c.toNat == 1) = ((Sign.ofBitVec c).toBitVec == 1#1) := by decide
    rw [← hbit, toNat_unpackSign]
    rfl
  have hgreatest : (unpackExponent b).toNat = 2047 ↔ unpackExponent b = -1#_ := by
    rw [← BitVec.toNat_inj]
    rfl
  have hleast : (unpackExponent b).toNat = 0 ↔ unpackExponent b = 0#_ := by
    rw [← BitVec.toNat_inj]
    rfl
  have hzero : (unpackMantissa b).toNat = 0 ↔ unpackMantissa b = 0#_ := by
    rw [← BitVec.toNat_inj]
    rfl
  unfold parts
  dsimp only
  rw [hb, hnat, hexponent, hmantissa, hsign]
  by_cases he : unpackExponent b = -1#_
  · rw [unpack_of_greatest he, if_pos (hgreatest.mpr he)]
    by_cases hm : unpackMantissa b = 0#_
    · rw [if_pos hm, if_pos (hzero.mpr hm)]
      rfl
    · rw [if_neg hm, if_neg (mt hzero.mp hm)]
      rfl
  rw [if_neg (mt hgreatest.mp he)]
  by_cases he' : unpackExponent b = 0#_
  · rw [if_pos (hleast.mpr he')]
    by_cases hm : unpackMantissa b = 0#_
    · rw [unpack_of_zero he' hm, hzero.mpr hm]
      rfl
    · obtain ⟨_, hunpack⟩ := unpack_of_least he' hm
      rw [hunpack]
      rfl
  · obtain ⟨_, hunpack⟩ := unpack_of_between he he'
    rw [hunpack, if_neg (mt hleast.mp he')]
    rfl

/-! ## Packing -/

/-- The bits of a positive double. -/
def bitsOf (m : ℕ) (e : ℤ) : ℕ :=
  if m < 2 ^ 52 then m else (e + 1075).toNat * 2 ^ 52 + (m - 2 ^ 52)

/-- A positive double is packed into its bits. -/
theorem toNat_pack {m : ℕ} {e : ℤ} (hm : 0 < m) (h : Canonical m e) (he : e ≤ 971) :
    (UnpackedFloat.pack Format.binary64 (.finite .positive m e hm)).toNat = bitsOf m e := by
  have hleast := h.least
  have hlt := h.lt
  have hbiased : (e + Format.binary64.exponentBias + (52 : ℕ)).toNat = (e + 1075).toNat := by
    congr 1
    simp [Format.exponentBias]
    omega
  have hlarge : ¬ 2 ^ 11 ≤ (e + 1075).toNat + 1 := by omega
  unfold UnpackedFloat.pack bitsOf
  simp only [hbiased, hlarge, if_false]
  by_cases hfull : m < 2 ^ 52
  · have hlog : ¬ m.log2 + 1 = Format.binary64.mantissaBits := by
      have := (Nat.log2_lt hm.ne').mpr hfull
      rw [mantissaBits_binary64]
      omega
    rw [if_neg hlog, if_pos hfull, toNat_packComponents]
    simp [Sign.toBitVec]
    omega
  · have hlog : m.log2 + 1 = Format.binary64.mantissaBits := by
      have := (Nat.log2_lt hm.ne').mpr hlt
      have := (Nat.le_log2 hm.ne').mpr (not_lt.mp hfull)
      rw [mantissaBits_binary64]
      omega
    rw [if_pos hlog, if_neg hfull, toNat_packComponents]
    simp [Sign.toBitVec]
    omega

/-- The bits of a positive double are taken apart into its mantissa and its exponent. -/
theorem unpack_of_toNat {m : ℕ} {e : ℤ} (hm : 0 < m) (h : Canonical m e) (he : e ≤ 971)
    {b : BitVec Format.binary64.numBits} (hb : b.toNat = bitsOf m e) :
    UnpackedFloat.unpack Format.binary64 b = .finite .positive m e hm := by
  have hleast := h.least
  have hlt := h.lt
  have hexponent := toNat_unpackExponent b
  have hmantissa := toNat_unpackMantissa b
  have hsign : Sign.ofBitVec (unpackSign b) = .positive := by
    have hzero : unpackSign b = 0#1 := by
      rw [← BitVec.toNat_inj, toNat_unpackSign, hb, bitsOf]
      show _ = 0
      split <;> omega
    rw [hzero]
    rfl
  by_cases hfull : m < 2 ^ 52
  · have hexp : e = -1074 := h.full.resolve_left (by omega)
    rw [hb, bitsOf, if_pos hfull] at hexponent hmantissa
    have hzero : unpackExponent b = 0#_ := by
      rw [← BitVec.toNat_inj, hexponent]
      show _ = 0
      omega
    have hpos : unpackMantissa b ≠ 0#_ := by
      rw [ne_eq, ← BitVec.toNat_inj, hmantissa]
      show ¬ _ = 0
      omega
    obtain ⟨_, hunpack⟩ := unpack_of_least hzero hpos
    rw [hunpack, UnpackedFloat.finite.injEq]
    exact ⟨hsign, hmantissa.trans (Nat.mod_eq_of_lt hfull), hexp.symm⟩
  · rw [hb, bitsOf, if_neg hfull] at hexponent hmantissa
    have hmax : unpackExponent b ≠ -1#_ := by
      rw [ne_eq, ← BitVec.toNat_inj]
      show ¬ _ = 2047
      omega
    have hzero : unpackExponent b ≠ 0#_ := by
      rw [ne_eq, ← BitVec.toNat_inj]
      show ¬ _ = 0
      omega
    obtain ⟨_, hunpack⟩ := unpack_of_between hmax hzero
    rw [hunpack, UnpackedFloat.finite.injEq]
    exact ⟨hsign, by omega, by omega⟩

/-- The exponent of a double that is in range is at most the greatest one. -/
theorem Canonical.exponent_le {m : ℕ} {e : ℤ} (h : Canonical m e)
    (hlt : (m : ℚ) * 2 ^ e < 2 ^ (1024 : ℤ)) : e ≤ 971 := by
  by_contra hgt
  have hfull : ((2 ^ 52 : ℕ) : ℚ) ≤ m := by exact_mod_cast h.full.resolve_right (by omega)
  refine absurd hlt (not_lt.mpr ?_)
  calc (2 : ℚ) ^ (1024 : ℤ) = (2 ^ 52 : ℕ) * 2 ^ (972 : ℤ) := two_zpow_eq_multiple 972 52
    _ ≤ m * 2 ^ e := mul_le_mul hfull (zpow_le_zpow_right₀ one_le_two (by omega))
      (two_zpow_pos 972).le (Nat.cast_nonneg m)

/-- Packing a double that is in range and taking it apart again changes nothing. -/
theorem UnpackedStands.unpack_pack {u : UnpackedFloat} {q : ℚ} (h : UnpackedStands u q)
    (hq : q < 2 ^ (1024 : ℤ)) : UnpackedStands (Float.Model.pack u).unpack q := by
  show UnpackedStands
    (UnpackedFloat.unpack Format.binary64 (UnpackedFloat.pack Format.binary64 u)) q
  cases h with
  | zero sign =>
    have hzero : UnpackedFloat.unpack Format.binary64
        (UnpackedFloat.pack Format.binary64 (.zero sign)) = .zero sign := by
      cases sign <;> rfl
    rw [hzero]
    exact .zero sign
  | @finite m e hm h =>
    have he := h.exponent_le hq
    rw [unpack_of_toNat hm h he (toNat_pack hm h he)]
    exact .finite hm h

end LayerBlend.Double
