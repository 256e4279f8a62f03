import LayerBlend.Proofs.Arithmetic.Packing

/-!
# Numbers that doubles stand for

`Stands x q` says that the double `x` stands for the rational number `q`, which is not negative.

* `Stands.mul`, `Stands.div`, `Stands.add` — the results of the operations stand for the rounded
  results, as long as these are in range.
* `Stands.le_iff`, `Stands.lt_iff` — doubles are ordered as their numbers.
* `stands_ofParts`, `stands_ofNat` — the doubles made of a mantissa and an exponent, and of a whole
  number.
* `Stands.floor`, `Stands.toUInt8` — the whole part, as a double and as a byte.
-/

namespace LayerBlend.Double

open Float.Model Float.Model.UnpackedFloat Numeral

/-- A double stands for a number that is not negative. -/
def Stands (x : Float) (q : ℚ) : Prop :=
  UnpackedStands x.toModel.unpack q

/-- A number in range that a double taken apart stands for is what the packed double stands for. -/
theorem stands_of_unpacked {u : UnpackedFloat} {q v : ℚ} (hq : q ≤ 2 ^ (1023 : ℤ))
    (hv : RoundsTo q v) (h : UnpackedStands u v) : Stands (.ofModel (.pack u)) v := by
  have hrepresentable : Representable (2 ^ (1023 : ℤ)) := by
    simpa using representable_mul_zpow (m := 1) (e := 1023) (by norm_num) (by norm_num)
  have hle : v ≤ 2 ^ (1023 : ℤ) := hv.le hrepresentable hq
  exact h.unpack_pack (hle.trans_lt (zpow_lt_zpow_right₀ one_lt_two (by norm_num)))

namespace Stands

variable {x y : Float} {p q : ℚ}

theorem nonneg (h : Stands x q) : 0 ≤ q :=
  UnpackedStands.nonneg h

theorem representable (h : Stands x q) : Representable q :=
  UnpackedStands.representable h

/-- A double that stands for a number is neither infinite nor NaN. -/
theorem isFinite (h : Stands x q) : x.isFinite = true :=
  UnpackedStands.isFinite h

/-- A product is rounded. -/
theorem mul (hx : Stands x p) (hy : Stands y q) (hle : p * q ≤ 2 ^ (1023 : ℤ)) :
    ∃ v, RoundsTo (p * q) v ∧ Stands (x * y) v := by
  obtain ⟨v, hv, hstands⟩ := UnpackedStands.mul hx hy
  exact ⟨v, hv, stands_of_unpacked hle hv hstands⟩

/-- A quotient is rounded. -/
theorem div (hx : Stands x p) (hy : Stands y q) (hq : 0 < q) (hle : p / q ≤ 2 ^ (1023 : ℤ)) :
    ∃ v, RoundsTo (p / q) v ∧ Stands (x / y) v := by
  obtain ⟨v, hv, hstands⟩ := UnpackedStands.div hx hy hq
  exact ⟨v, hv, stands_of_unpacked hle hv hstands⟩

/-- A sum is rounded. -/
theorem add (hx : Stands x p) (hy : Stands y q) (hle : p + q ≤ 2 ^ (1023 : ℤ)) :
    ∃ v, RoundsTo (p + q) v ∧ Stands (x + y) v := by
  obtain ⟨v, hv, hstands⟩ := UnpackedStands.add hx hy
  exact ⟨v, hv, stands_of_unpacked hle hv hstands⟩

theorem le_iff (hx : Stands x p) (hy : Stands y q) : x ≤ y ↔ p ≤ q := by
  show decide ((x.toModel.unpack.compare y.toModel.unpack).any (·.isLE) = true) = true ↔ _
  rw [decide_eq_true_iff, UnpackedStands.compare_eq hx hy]
  exact Ordering.ne_gt_iff_isLE.symm.trans compare_le_iff_le

theorem lt_iff (hx : Stands x p) (hy : Stands y q) : x < y ↔ p < q := by
  show decide ((x.toModel.unpack.compare y.toModel.unpack == some .lt) = true) = true ↔ _
  rw [decide_eq_true_iff, UnpackedStands.compare_eq hx hy, beq_iff_eq, Option.some_inj,
    compare_lt_iff_lt]

end Stands

/-! ## Doubles made of numbers -/

/-- The bits of a positive double make a double that stands for its number. -/
theorem stands_ofBits {m : ℕ} {e : ℤ} (hm : 0 < m) (h : Canonical m e)
    (hlt : (m : ℚ) * 2 ^ e < 2 ^ (1024 : ℤ)) :
    Stands (Float.ofBits (UInt64.ofNat (bitsOf m e))) (m * 2 ^ e) := by
  have he := h.exponent_le hlt
  have hbits : (UInt64.ofNat (bitsOf m e)).toBitVec.toNat = bitsOf m e := by
    have := h.lt
    refine Nat.mod_eq_of_lt ?_
    unfold bitsOf
    split <;> omega
  have hunpack : UnpackedFloat.unpack Format.binary64 (UInt64.ofNat (bitsOf m e)).toBitVec =
      .finite .positive m e hm := unpack_of_toNat hm h he hbits
  show UnpackedStands (Float.Model.pack
    (UnpackedFloat.unpack Format.binary64 (UInt64.ofNat (bitsOf m e)).toBitVec)).unpack _
  rw [hunpack]
  exact (UnpackedStands.finite hm h).unpack_pack hlt

/-- A whole number of at most fifty-three digits and an exponent make a double that stands for the
number they say. -/
theorem stands_ofParts {m : ℕ} {e : ℤ} (hm : m < 2 ^ 53) (he : -1074 ≤ e)
    (hlt : (m : ℚ) * 2 ^ e < 2 ^ (1024 : ℤ)) : Stands (ofParts false m e) (m * 2 ^ e) := by
  rcases Nat.eq_zero_or_pos m with rfl | hpos
  · have hparts : ofParts false 0 e = Float.ofBits 0 := by
      simp only [ofParts, Nat.zero_mul, Nat.zero_div, ite_self]
      rfl
    rw [hparts, Nat.cast_zero, zero_mul]
    exact .zero .positive
  · have hlog : m.log2 ≤ 52 := by
      have := (Nat.log2_lt hpos.ne').mpr hm
      omega
    obtain ⟨k, hk⟩ : ∃ k : ℕ, max (m.log2 + e - 52) (-1074) = e - k :=
      ⟨(e - max (m.log2 + e - 52) (-1074)).toNat, by omega⟩
    have hparts : ofParts false m e =
        Float.ofBits (UInt64.ofNat (bitsOf (m * 2 ^ k) (e - k))) := by
      have htarget : max (e + ((m.log2 : ℤ) + 1) - 53) minExponent = e - k := by
        rw [← hk, minExponent]
        congr 1
        omega
      have hshift : (e - (e - k)).toNat = k := by omega
      have hle : e - k ≤ e := by omega
      simp only [ofParts, if_neg hpos.ne', htarget, if_pos hle, hshift]
      rfl
    rw [hparts, ← scaled_eq m k e]
    rw [← scaled_eq m k e] at hlt
    exact stands_ofBits (Nat.mul_pos hpos (Nat.two_pow_pos k)) (canonical_scaled hpos hk) hlt

/-- A whole number of at most fifty-three digits is in range. -/
theorem natCast_le_range {n : ℕ} (hn : n < 2 ^ 53) : (n : ℚ) ≤ 2 ^ (1023 : ℤ) :=
  calc (n : ℚ) ≤ 2 ^ (53 : ℤ) := by exact_mod_cast hn.le
    _ ≤ 2 ^ (1023 : ℤ) := zpow_le_zpow_right₀ one_le_two (by norm_num)

/-- The bits of one are made of its mantissa and its exponent. -/
theorem stands_one : Stands 1 1 := by
  have hcanonical : Canonical (2 ^ 52) (-52) := ⟨by norm_num, by norm_num, Or.inl le_rfl⟩
  have hvalue : ((2 ^ 52 : ℕ) : ℚ) * 2 ^ (-52 : ℤ) = 1 := by norm_num
  have hlt : (1 : ℚ) < 2 ^ (1024 : ℤ) := one_lt_zpow₀ one_lt_two (by norm_num)
  have h := stands_ofBits (by norm_num) hcanonical (hvalue ▸ hlt)
  rw [hvalue] at h
  have hone : Float.ofBits (UInt64.ofNat (bitsOf (2 ^ 52) (-52))) = 1 := by decide +kernel
  rwa [hone] at h

/-- A whole number of at most fifty-three digits is a double. -/
theorem stands_ofNat {n : ℕ} (hn : n < 2 ^ 53) : Stands (Float.ofNat n) n := by
  have hle := natCast_le_range hn
  have hn64 : n.toUInt64.toNat = n := Nat.mod_eq_of_lt (by omega)
  have hfloat : Stands n.toUInt64.toFloat n := by
    suffices h : ∃ v, RoundsTo n v ∧ UnpackedStands (UnpackedFloat.ofNat Format.binary64 n) v by
      obtain ⟨v, hv, hstands⟩ := h
      have := stands_of_unpacked hle hv hstands
      rw [hv.eq_of_representable (representable_natCast hn)] at this
      show Stands (.ofModel (.pack (UnpackedFloat.ofNat Format.binary64 n.toUInt64.toNat))) n
      rwa [hn64]
    unfold UnpackedFloat.ofNat UnpackedFloat.ofInt UnpackedFloat.normalize
    rcases Nat.eq_zero_or_pos n with rfl | hpos
    · exact ⟨0, by simpa using roundsTo_zero, .zero .positive⟩
    · have hgt : compare (n : ℤ) 0 = .gt := Int.compare_eq_gt.mpr (by exact_mod_cast hpos)
      rw [hgt]
      simpa using stands_round hpos 0
  have hofNat : Float.ofNat n = n.toUInt64.toFloat * 1 := by
    have hone : ∀ h : 0 < Float.exactlyRepresentablePowersOfTen.size,
        Float.exactlyRepresentablePowersOfTen[0] = (1 : Float) := by decide +kernel
    show Float.ofScientific n false 0 = _
    rw [Float.ofScientific, dif_pos ⟨hn, by norm_num⟩]
    simp only [hone]
    rfl
  rw [hofNat]
  obtain ⟨v, hv, hstands⟩ := hfloat.mul stands_one (by simpa using hle)
  rw [mul_one] at hv
  rwa [hv.eq_of_representable (representable_natCast hn)] at hstands

/-! ## Whole parts -/

/-- The largest whole number not above a double. -/
theorem Stands.floor {x : Float} {q : ℚ} (h : Stands x q) : Stands (floor x) ⌊q⌋₊ := by
  have hparts := parts_eq x
  unfold Double.floor
  rw [hparts]
  unfold Stands at h
  generalize hu : x.toModel.unpack = u at h
  obtain s | @⟨m, e, hm, hc⟩ := h
  · have hself : Stands x 0 := by
      rw [Stands, hu]
      exact .zero s
    rw [Nat.floor_zero, Nat.cast_zero]
    exact hself
  · have hself : Stands x (m * 2 ^ e) := by
      rw [Stands, hu]
      exact .finite hm hc
    show Stands (if (decide (0 ≤ e) || decide (m = 0)) = true then x
      else ofParts false (m / twoTo (-e).toNat) 0) _
    rcases le_or_gt 0 e with he | he
    · obtain ⟨k, rfl⟩ := Int.eq_ofNat_of_zero_le he
      have hwhole : (m : ℚ) * 2 ^ (k : ℤ) = (m * 2 ^ k : ℕ) := by push_cast; rfl
      rw [if_pos (by simp)]
      rw [hwhole] at hself ⊢
      rwa [Nat.floor_natCast]
    · obtain ⟨k, hk⟩ : ∃ k : ℕ, e = -k := ⟨(-e).toNat, by omega⟩
      have hshift : (-e).toNat = k := by omega
      have hfloor : ⌊(m : ℚ) * 2 ^ e⌋₊ = m / 2 ^ k := by
        rw [hk, zpow_neg, zpow_natCast, ← div_eq_mul_inv]
        exact_mod_cast Nat.floor_div_eq_div (K := ℚ) m (2 ^ k)
      rw [if_neg (by simp; omega), hshift, hfloor]
      have hfew : m / 2 ^ k < 2 ^ 53 := (Nat.div_le_self m _).trans_lt hc.lt
      have hrange : ((m / 2 ^ k : ℕ) : ℚ) * 2 ^ (0 : ℤ) < 2 ^ (1024 : ℤ) := by
        rw [zpow_zero, mul_one]
        exact (natCast_le_range hfew).trans_lt (zpow_lt_zpow_right₀ one_lt_two (by norm_num))
      have hstands := stands_ofParts hfew (by norm_num) hrange
      rw [zpow_zero, mul_one] at hstands
      exact hstands

/-- The byte of a double is its whole part, or the greatest byte. -/
theorem Stands.toUInt8 {x : Float} {q : ℚ} (h : Stands x q) :
    x.toUInt8 = UInt8.ofNatClamp ⌊q⌋₊ := by
  show UInt8.ofNatClamp (x.toModel.unpack.toInt 0 (UInt8.size - 1)).toNat = _
  rw [UnpackedStands.toNat_toInt h]

end LayerBlend.Double
