import LayerBlend.Proofs.Arithmetic.Rounding

/-!
# Operations on doubles taken apart

`UnpackedStands u q` says that the double `u`, taken apart into sign, mantissa and exponent, stands
for the number `q`, which is not negative. Products, quotients and sums of such doubles stand for
the rounded products, quotients and sums (`UnpackedStands.mul`, `UnpackedStands.div`,
`UnpackedStands.add`), their order is that of the numbers (`UnpackedStands.compare_eq`), and
truncation gives the whole part (`UnpackedStands.toNat_toInt`).
-/

namespace LayerBlend.Double

open Float.Model Float.Model.UnpackedFloat

/-- A double taken apart stands for a number that is not negative. -/
inductive UnpackedStands : UnpackedFloat → ℚ → Prop where
  /-- A zero of either sign stands for zero. -/
  | zero (sign : Sign) : UnpackedStands (.zero sign) 0
  /-- A positive mantissa is multiplied by the power of two that the exponent says. -/
  | finite {m : ℕ} {e : ℤ} (hm : 0 < m) (h : Canonical m e) :
    UnpackedStands (.finite .positive m e hm) (m * 2 ^ e)

/-- A canonical mantissa stays as it is. -/
theorem shiftToTargetExponent_canonical {m : ℕ} {e : ℤ} (h : Canonical m e) :
    shiftToTargetExponent Format.binary64 m e .exact = (.ofMantissaAndAccuracy m .exact, e) := by
  have hlog : m.log2 ≤ 52 := by
    rcases Nat.eq_zero_or_pos m with rfl | hm
    · simp
    · have := (Nat.log2_lt hm.ne').mpr h.lt
      omega
  have hfull : 52 ≤ m.log2 ∨ e = -1074 :=
    h.full.imp_left fun hle => (Nat.le_log2 (by omega)).mpr hle
  have hleast := h.least
  have ht : Format.binary64.targetExponent (totalExponent m e) = e := by
    rw [targetExponent_eq]
    omega
  exact shiftToTargetExponent_eq (n := 0) .exact ht (by simp)

/-- What a mantissa becomes that is rounded up to one more digit. -/
theorem shiftToTargetExponent_carry {e : ℤ} (h : -1074 ≤ e) :
    shiftToTargetExponent Format.binary64 (2 ^ 53) e .exact =
      (.ofMantissaAndAccuracy (2 ^ 52) .exact, e + 1) := by
  have ht : Format.binary64.targetExponent (totalExponent (2 ^ 53) e) = e + 1 := by
    rw [targetExponent_eq, Nat.log2_two_pow]
    omega
  exact shiftToTargetExponent_eq (n := 1) .exact ht rfl

/-- A mantissa that is rounded stands for the rounded number. -/
theorem stands_roundWithAccuracy {m : ℕ} {e : ℤ} {accuracy : Accuracy} {q : ℚ}
    (hq : Tells (.ofMantissaAndAccuracy m accuracy) (q / 2 ^ e))
    (he : e ≤ max (m.log2 + e - 52) (-1074)) :
    ∃ v, RoundsTo q v ∧
      UnpackedStands (roundWithAccuracy Format.binary64 .positive m e accuracy) v := by
  obtain ⟨n, hn⟩ := Int.le.dest he
  obtain ⟨t, ht⟩ : ∃ t, max (m.log2 + e - 52 : ℤ) (-1074) = t := ⟨_, rfl⟩
  have hnt : t = e + n := by omega
  have hrounds := roundsAt_target hq ht hnt
  have hshift := shiftToTargetExponent_eq accuracy ((targetExponent_eq m e).trans ht) hnt
  generalize ExtendedMantissa.ofMantissaAndAccuracy m accuracy >>> n = em at hrounds hshift
  refine ⟨_, ⟨t, hrounds⟩, ?_⟩
  rw [roundWithAccuracy, hshift]
  dsimp only
  generalize em.roundedMantissa = r at hrounds
  -- rounding may have carried into one more digit
  rcases lt_or_eq_of_le hrounds.mantissa_le with hlt | rfl
  · have hcanonical : Canonical r t := ⟨hlt, hrounds.least, hrounds.mantissa_full⟩
    rw [shiftToTargetExponent_canonical hcanonical]
    show UnpackedStands (if h : r = 0 then .zero .positive
      else .finite .positive r t (Nat.pos_of_ne_zero h)) _
    by_cases hr : r = 0
    · rw [dif_pos hr, hr, Nat.cast_zero, zero_mul]
      exact .zero .positive
    · rw [dif_neg hr]
      exact .finite (Nat.pos_of_ne_zero hr) hcanonical
  · rw [shiftToTargetExponent_carry hrounds.least]
    have hcanonical : Canonical (2 ^ 52) (t + 1) :=
      ⟨by norm_num, by have := hrounds.least; omega, Or.inl le_rfl⟩
    have hstands := UnpackedStands.finite (by norm_num) hcanonical
    have hvalue : ((2 ^ 53 : ℕ) : ℚ) * 2 ^ t = (2 ^ 52 : ℕ) * 2 ^ (t + 1) := by
      rw [show t + 1 = t + (1 : ℕ) from rfl, two_zpow_add]
      push_cast
      ring
    rw [hvalue]
    exact hstands

theorem log2_mul_two_pow {m : ℕ} (hm : m ≠ 0) (k : ℕ) : (m * 2 ^ k).log2 = m.log2 + k := by
  induction k with
  | zero => rw [pow_zero, Nat.mul_one, Nat.add_zero]
  | succ k ih =>
    have hpos : m * 2 ^ k ≠ 0 := Nat.mul_ne_zero hm (Nat.two_pow_pos k).ne'
    rw [pow_succ', Nat.mul_left_comm, Nat.log2_two_mul hpos, ih, Nat.add_assoc]

/-- A quotient has the digits that the numerator has beyond the denominator, or one less. -/
theorem le_log2_div {m n : ℕ} (hm : m ≠ 0) (hn : 0 < n) {digits : ℕ}
    (h : n.log2 + digits + 1 ≤ m.log2) : digits ≤ (m / n).log2 := by
  have hquotient : 2 ^ digits ≤ m / n := by
    rw [Nat.le_div_iff_mul_le hn]
    calc 2 ^ digits * n ≤ 2 ^ digits * 2 ^ (n.log2 + 1) :=
          Nat.mul_le_mul_left _ Nat.lt_log2_self.le
      _ = 2 ^ (digits + (n.log2 + 1)) := (pow_add ..).symm
      _ ≤ 2 ^ m.log2 := Nat.pow_le_pow_right two_pos (by omega)
      _ ≤ m := Nat.log2_self_le hm
  exact (Nat.le_log2 ((Nat.two_pow_pos digits).trans_le hquotient).ne').mpr hquotient

/-- A mantissa with any exponent stands for the rounded number. -/
theorem stands_round {m : ℕ} (hm : 0 < m) (e : ℤ) :
    ∃ v, RoundsTo (m * 2 ^ e) v ∧
      UnpackedStands (UnpackedFloat.round Format.binary64 .positive m e) v := by
  have htarget := targetExponent_eq m e
  obtain ⟨t, ht⟩ : ∃ t, Format.binary64.targetExponent (totalExponent m e) = t := ⟨_, rfl⟩
  rw [ht] at htarget
  obtain ⟨k, hk⟩ : ∃ k : ℕ, (e - t).toNat = k := ⟨_, rfl⟩
  have hround : UnpackedFloat.round Format.binary64 .positive m e =
      roundWithAccuracy Format.binary64 .positive (m * 2 ^ k) (e - k) .exact := by
    simp only [UnpackedFloat.round, ht, decreaseExponent, hk, Nat.shiftLeft_eq]
  have hscaled : (m : ℚ) * 2 ^ e / 2 ^ (e - k) = (m * 2 ^ k : ℕ) := by
    rw [div_eq_iff (two_zpow_pos (e - k)).ne', scaled_eq]
  rw [hround]
  refine stands_roundWithAccuracy (hscaled ▸ tells_exact _) ?_
  rw [log2_mul_two_pow hm.ne']
  omega

/-- A double with a smaller exponent is smaller. -/
theorem Canonical.lt_of_exponent {m n : ℕ} {e f : ℤ} (hm : Canonical m e) (hn : Canonical n f)
    (h : e < f) : (m : ℚ) * 2 ^ e < n * 2 ^ f := by
  have hfull : 2 ^ 52 ≤ n := hn.full.resolve_right (by have := hm.least; omega)
  calc (m : ℚ) * 2 ^ e < 2 ^ (f + 52) := hm.lt_two_zpow h
    _ = (2 ^ 52 : ℕ) * 2 ^ f := two_zpow_eq_multiple f 52
    _ ≤ n * 2 ^ f := mul_le_mul_of_nonneg_right (by exact_mod_cast hfull) (two_zpow_pos f).le

/-- The order of exponents and then of mantissas is that of the numbers. -/
theorem Canonical.compare_eq {m n : ℕ} {e f : ℤ} (hm : Canonical m e) (hn : Canonical n f) :
    (compare e f).then (compare m n) = compare ((m : ℚ) * 2 ^ e) (n * 2 ^ f) := by
  rcases lt_trichotomy e f with h | rfl | h
  · rw [compare_lt_iff_lt.mpr h, compare_lt_iff_lt.mpr (hm.lt_of_exponent hn h)]
    rfl
  · have hunit := two_zpow_pos e
    rw [compare_eq_iff_eq.mpr rfl]
    show compare m n = _
    rcases lt_trichotomy m n with h | rfl | h
    · rw [compare_lt_iff_lt.mpr h, compare_lt_iff_lt.mpr]
      exact mul_lt_mul_of_pos_right (by exact_mod_cast h) hunit
    · rw [compare_eq_iff_eq.mpr rfl, compare_eq_iff_eq.mpr rfl]
    · rw [compare_gt_iff_gt.mpr h, compare_gt_iff_gt.mpr]
      exact mul_lt_mul_of_pos_right (by exact_mod_cast h) hunit
  · rw [compare_gt_iff_gt.mpr h, compare_gt_iff_gt.mpr (hn.lt_of_exponent hm h)]
    rfl

namespace UnpackedStands

variable {u w : UnpackedFloat} {p q : ℚ}

theorem nonneg (h : UnpackedStands u q) : 0 ≤ q := by
  cases h with
  | zero => exact le_rfl
  | finite => positivity

/-- What a double stands for is the number of a double. -/
theorem representable (h : UnpackedStands u q) : Representable q := by
  cases h with
  | zero => exact_mod_cast representable_natCast (n := 0) (by norm_num)
  | finite hm h => exact ⟨_, _, h, rfl⟩

/-- What stands for a number is neither infinite nor NaN. -/
theorem isFinite (h : UnpackedStands u q) : u.isFinite = true := by
  cases h <;> rfl

/-- A product is rounded. -/
theorem mul (hu : UnpackedStands u p) (hw : UnpackedStands w q) :
    ∃ v, RoundsTo (p * q) v ∧ UnpackedStands (UnpackedFloat.mul Format.binary64 u w) v := by
  rcases hu with s | @⟨m, e, hm, hx⟩ <;> rcases hw with t | @⟨n, f, hn, hy⟩
  · exact ⟨0, by simpa using roundsTo_zero, .zero _⟩
  · exact ⟨0, by simpa using roundsTo_zero, .zero _⟩
  · exact ⟨0, by simpa using roundsTo_zero, .zero _⟩
  · have hscaled : (m : ℚ) * 2 ^ e * (n * 2 ^ f) / 2 ^ (e + f) = (m * n : ℕ) := by
      have := (two_zpow_pos e).ne'
      have := (two_zpow_pos f).ne'
      rw [zpow_add₀ two_ne_zero]
      field_simp
      push_cast
      ring
    refine stands_roundWithAccuracy (hscaled ▸ tells_exact _) ?_
    have hlog : 52 ≤ (m * n).log2 ∨ e = -1074 ∧ f = -1074 := by
      have hpos : m * n ≠ 0 := (Nat.mul_pos hm hn).ne'
      rcases hx.full with hfull | he
      · exact Or.inl ((Nat.le_log2 hpos).mpr (hfull.trans (Nat.le_mul_of_pos_right m hn)))
      · rcases hy.full with hfull | hf
        · exact Or.inl ((Nat.le_log2 hpos).mpr (hfull.trans (Nat.le_mul_of_pos_left n hm)))
        · exact Or.inr ⟨he, hf⟩
    omega

/-- A quotient is rounded. -/
theorem div (hu : UnpackedStands u p) (hw : UnpackedStands w q) (hq : 0 < q) :
    ∃ v, RoundsTo (p / q) v ∧ UnpackedStands (UnpackedFloat.div Format.binary64 u w) v := by
  rcases hu with s | @⟨m, e, hm, hx⟩ <;> rcases hw with t | @⟨n, f, hn, hy⟩
  · exact absurd hq (lt_irrefl 0)
  · exact ⟨0, by simpa using roundsTo_zero, .zero _⟩
  · exact absurd hq (lt_irrefl 0)
  · obtain ⟨t, ht⟩ : ∃ t, min (e - f)
        (Format.binary64.targetExponent (totalExponent m e - totalExponent n f)) = t := ⟨_, rfl⟩
    obtain ⟨k, hk⟩ : ∃ k : ℕ, e - f = t + k := ⟨(e - f - t).toNat, by omega⟩
    have hcore : divCore Format.binary64 m e n f =
        (m * 2 ^ k / n, t, accuracyOfFraction (m * 2 ^ k % n) n) := by
      unfold divCore
      have hshift : (e - f - t).toNat = k := by omega
      simp only [ht, hshift, Nat.shiftLeft_eq]
    have hscaled : (m : ℚ) * 2 ^ e / (n * 2 ^ f) / 2 ^ t = (m * 2 ^ k : ℕ) / n := by
      have he : e = t + f + k := by omega
      have := (two_zpow_pos t).ne'
      have := (two_zpow_pos f).ne'
      have : (n : ℚ) ≠ 0 := by exact_mod_cast hn.ne'
      rw [he, two_zpow_add, zpow_add₀ two_ne_zero]
      field_simp
      push_cast
      ring
    have hround : UnpackedFloat.div Format.binary64 (.finite .positive m e hm)
        (.finite .positive n f hn) = roundWithAccuracy Format.binary64 .positive (m * 2 ^ k / n) t
          (accuracyOfFraction (m * 2 ^ k % n) n) := by
      unfold UnpackedFloat.div
      dsimp only
      rw [hcore]
      rfl
    rw [hround]
    refine stands_roundWithAccuracy (hscaled ▸ tells_fraction _ hn) ?_
    rcases le_or_gt t (-1074) with hleast | hgreater
    · omega
    · have hlog : n.log2 + 52 + 1 ≤ (m * 2 ^ k).log2 := by
        rw [Format.targetExponent, totalExponent, totalExponent, mantissaBits_binary64,
          minExponent_binary64] at ht
        rw [log2_mul_two_pow hm.ne']
        omega
      have hdigits := le_log2_div (Nat.mul_pos hm (Nat.two_pow_pos k)).ne' hn hlog
      omega

/-- A sum is rounded. -/
theorem add (hu : UnpackedStands u p) (hw : UnpackedStands w q) :
    ∃ v, RoundsTo (p + q) v ∧ UnpackedStands (UnpackedFloat.add Format.binary64 u w) v := by
  rcases hu with s | @⟨m, e, hm, hx⟩ <;> rcases hw with t | @⟨n, f, hn, hy⟩
  · refine ⟨0, by simpa using roundsTo_zero, ?_⟩
    cases s <;> cases t <;> exact .zero _
  · exact ⟨_, by simpa using Representable.roundsTo ⟨n, f, hy, rfl⟩, .finite hn hy⟩
  · exact ⟨_, by simpa using Representable.roundsTo ⟨m, e, hx, rfl⟩, .finite hm hx⟩
  · obtain ⟨low, hlow⟩ : ∃ low, min e f = low := ⟨_, rfl⟩
    obtain ⟨i, hi⟩ : ∃ i : ℕ, e = low + i := ⟨(e - low).toNat, by omega⟩
    obtain ⟨j, hj⟩ : ∃ j : ℕ, f = low + j := ⟨(f - low).toNat, by omega⟩
    have hpos : 0 < m * 2 ^ i + n * 2 ^ j :=
      Nat.add_pos_left (Nat.mul_pos hm (Nat.two_pow_pos i)) _
    have hvalue : (m : ℚ) * 2 ^ e + n * 2 ^ f = (m * 2 ^ i + n * 2 ^ j : ℕ) * 2 ^ low := by
      rw [hi, hj, two_zpow_add, two_zpow_add]
      push_cast
      ring
    have hround : UnpackedFloat.add Format.binary64 (.finite .positive m e hm)
        (.finite .positive n f hn) =
          UnpackedFloat.round Format.binary64 .positive (m * 2 ^ i + n * 2 ^ j) low := by
      have hshift : (e - low).toNat = i := by omega
      have hshift' : (f - low).toNat = j := by omega
      have hgt : compare ((m * 2 ^ i : ℕ) + (n * 2 ^ j : ℕ) : ℤ) 0 = .gt :=
        Int.compare_eq_gt.mpr (by exact_mod_cast hpos)
      unfold UnpackedFloat.add
      dsimp only
      simp only [decreaseExponent, hlow, hshift, hshift', Nat.shiftLeft_eq]
      unfold UnpackedFloat.normalize Sign.apply
      rw [hgt]
      rfl
    rw [hvalue, hround]
    exact stands_round hpos low

/-- Doubles taken apart are ordered as the numbers that they stand for. -/
theorem compare_eq (hu : UnpackedStands u p) (hw : UnpackedStands w q) :
    u.compare w = some (compare p q) := by
  rcases hu with s | @⟨m, e, hm, hx⟩ <;> rcases hw with t | @⟨n, f, hn, hy⟩
  · rw [compare_eq_iff_eq.mpr rfl]
    cases s <;> cases t <;> rfl
  · have hpos : (0 : ℚ) < n * 2 ^ f := by positivity
    rw [compare_lt_iff_lt.mpr hpos]
    cases s <;> rfl
  · have hpos : (0 : ℚ) < m * 2 ^ e := by positivity
    rw [compare_gt_iff_gt.mpr hpos]
    cases t <;> rfl
  · exact congrArg some (hx.compare_eq hy)

/-- Truncation gives the whole part. -/
theorem toNat_toInt (h : UnpackedStands u q) (low high : ℤ) :
    (u.toInt low high).toNat = ⌊q⌋₊ := by
  cases h with
  | zero s =>
    rw [Nat.floor_zero]
    rfl
  | @finite m e hm h =>
    show (roundToInt .positive m e).toNat = _
    obtain ⟨k, hk⟩ : ∃ k : ℕ, e.toNat = k := ⟨_, rfl⟩
    obtain ⟨n, hn⟩ : ∃ n : ℕ, (0 - (e - k)).toNat = n := ⟨_, rfl⟩
    have htells := (tells_exact (m * 2 ^ k)).shiftRight n
    have hvalue : (m : ℚ) * 2 ^ e = (m * 2 ^ k : ℕ) / 2 ^ n := by
      rw [eq_div_iff (by positivity), ← scaled_eq m k e]
      have he : e - k = -n := by omega
      rw [he, zpow_neg, zpow_natCast]
      field_simp
    rw [hvalue, htells.floor_eq]
    simp only [roundToInt, decreaseExponent, Int.sub_zero, hk, shiftToExponent, hn,
      Nat.shiftLeft_eq]
    rfl

end UnpackedStands

end LayerBlend.Double
