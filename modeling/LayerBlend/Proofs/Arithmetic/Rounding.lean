import Mathlib.Algebra.Order.AbsoluteValue.Basic
import Mathlib.Algebra.Order.Field.Power
import Mathlib.Algebra.Order.Floor.Semifield
import Mathlib.Data.Nat.Log
import Mathlib.Data.Rat.Floor
import Mathlib.Tactic.FieldSimp
import Mathlib.Tactic.Linarith
import Mathlib.Tactic.Positivity
import Mathlib.Tactic.Ring

/-!
# Rounding to doubles

What it means that a rational number that is not negative is rounded to a double, and what the
mantissas with a round bit and a sticky bit that carry out the rounding say of the number.

* `Representable d` — the number `d` is that of a double, but for its range.
* `RoundsTo q v` — rounding to the nearest double takes `q` to `v`. Rounding does not go beyond a
  double (`RoundsTo.le`, `RoundsTo.ge`), leaves doubles alone (`RoundsTo.eq_of_representable`), and
  is off by one part in `2 ^ 53` at most (`RoundsTo.error`).
* `Tells em x` — the mantissa `em` with its two bits tells the number `x`. Dropping digits keeps
  that (`Tells.shiftRight`).
* `roundsAt_target` — the rounded mantissa at its target exponent is the number rounded.
-/

namespace LayerBlend.Double

open Float.Model Float.Model.UnpackedFloat

/-! ## Nearest multiples -/

/-- Mantissa and exponent are those of a double. -/
structure Canonical (m : ℕ) (e : ℤ) : Prop where
  /-- The mantissa has at most fifty-three binary digits. -/
  lt : m < 2 ^ 53
  /-- The exponent is not below the least one. -/
  least : -1074 ≤ e
  /-- The mantissa has all its digits, unless the exponent is the least one. -/
  full : 2 ^ 52 ≤ m ∨ e = -1074

/-- A number is that of a double, but for its range. -/
def Representable (d : ℚ) : Prop :=
  ∃ (m : ℕ) (e : ℤ), Canonical m e ∧ d = m * 2 ^ e

/-- A number is rounded to a whole multiple of a power of two. -/
structure RoundsAt (e : ℤ) (q v : ℚ) : Prop where
  /-- It becomes a whole multiple. -/
  whole : ∃ m : ℕ, v = m * 2 ^ e
  /-- No multiple is nearer. -/
  near : |q - v| ≤ 2 ^ e / 2
  /-- The exponent is not below the least one of a double. -/
  least : -1074 ≤ e
  /-- The number has at most fifty-three binary digits in front of this place. -/
  lt : q < 2 ^ (e + 53)
  /-- It has as many, unless the exponent is the least one. -/
  full : 2 ^ (e + 52) ≤ q ∨ e = -1074

/-- A number is rounded as a double is. -/
def RoundsTo (q v : ℚ) : Prop :=
  ∃ e, RoundsAt e q v

theorem two_zpow_pos (e : ℤ) : (0 : ℚ) < 2 ^ e :=
  zpow_pos two_pos e

theorem two_zpow_add (e : ℤ) (n : ℕ) : (2 : ℚ) ^ (e + n) = 2 ^ n * 2 ^ e := by
  rw [Int.add_comm, zpow_add₀ two_ne_zero, zpow_natCast]

/-- A greater power of two is a whole multiple of a power of two. -/
theorem two_zpow_eq_multiple (e : ℤ) (n : ℕ) : (2 : ℚ) ^ (e + n) = (2 ^ n : ℕ) * 2 ^ e := by
  exact_mod_cast two_zpow_add e n

/-- A multiple of a power of two is one of each smaller power. -/
theorem exists_multiple {m : ℕ} {e f : ℤ} (h : e ≤ f) : ∃ k : ℕ, (m : ℚ) * 2 ^ f = k * 2 ^ e := by
  obtain ⟨n, rfl⟩ := Int.le.dest h
  exact ⟨m * 2 ^ n, by rw [two_zpow_add]; push_cast; ring⟩

/-- The mantissa of a double is below every number that has all digits behind a greater exponent. -/
theorem Canonical.lt_two_zpow {m : ℕ} {e f : ℤ} (h : Canonical m e) (hlt : e < f) :
    (m : ℚ) * 2 ^ e < 2 ^ (f + 52) := by
  have hm : (m : ℚ) < 2 ^ 53 := by exact_mod_cast h.lt
  calc (m : ℚ) * 2 ^ e < 2 ^ 53 * 2 ^ e := mul_lt_mul_of_pos_right hm (two_zpow_pos e)
    _ = 2 ^ (e + 53) := (two_zpow_add e 53).symm
    _ ≤ 2 ^ (f + 52) := zpow_le_zpow_right₀ one_le_two (by omega)

/-- Scaling a mantissa does not change the number. -/
theorem scaled_eq (m k : ℕ) (e : ℤ) : ((m * 2 ^ k : ℕ) : ℚ) * 2 ^ (e - k) = m * 2 ^ e := by
  have he : e = e - k + k := by omega
  conv_rhs => rw [he, two_zpow_add]
  push_cast
  ring

/-- A mantissa with few digits is given all of them, unless the exponent would be too low. -/
theorem canonical_scaled {m k : ℕ} {e : ℤ} (hpos : 0 < m)
    (hk : max (m.log2 + e - 52) (-1074) = e - k) : Canonical (m * 2 ^ k) (e - k) := by
  have hlow := Nat.log2_self_le hpos.ne'
  refine ⟨?_, by omega, ?_⟩
  · calc m * 2 ^ k < 2 ^ (m.log2 + 1) * 2 ^ k := by
          gcongr
          exact Nat.lt_log2_self
      _ = 2 ^ (m.log2 + 1 + k) := (pow_add ..).symm
      _ ≤ 2 ^ 53 := Nat.pow_le_pow_right two_pos (by omega)
  · rcases le_or_gt (e - k) (-1074) with hleast | hgreater
    · exact Or.inr (by omega)
    · left
      calc 2 ^ 52 = 2 ^ (m.log2 + k) := by congr 1; omega
        _ = 2 ^ m.log2 * 2 ^ k := pow_add ..
        _ ≤ m * 2 ^ k := by gcongr

/-- A whole number of at most fifty-three digits with an exponent is that of a double. -/
theorem representable_mul_zpow {m : ℕ} {e : ℤ} (hm : m < 2 ^ 53) (he : -1074 ≤ e) :
    Representable (m * 2 ^ e) := by
  rcases Nat.eq_zero_or_pos m with rfl | hpos
  · exact ⟨0, -1074, ⟨by norm_num, le_rfl, Or.inr rfl⟩, by simp⟩
  · have hlog : m.log2 ≤ 52 := by
      have := (Nat.log2_lt hpos.ne').mpr hm
      omega
    obtain ⟨k, hk⟩ : ∃ k : ℕ, max (m.log2 + e - 52) (-1074) = e - k :=
      ⟨(e - max (m.log2 + e - 52) (-1074)).toNat, by omega⟩
    exact ⟨m * 2 ^ k, e - k, canonical_scaled hpos hk, (scaled_eq m k e).symm⟩

/-- A whole number of at most fifty-three digits is that of a double. -/
theorem representable_natCast {n : ℕ} (hn : n < 2 ^ 53) : Representable n := by
  simpa using representable_mul_zpow (e := 0) hn (by norm_num)

namespace RoundsAt

variable {e : ℤ} {q v : ℚ} {k : ℕ}

/-- Rounding does not go beyond a multiple above. -/
theorem le_multiple (h : RoundsAt e q v) (hle : q ≤ k * 2 ^ e) : v ≤ k * 2 ^ e := by
  obtain ⟨m, rfl⟩ := h.whole
  have hunit := two_zpow_pos e
  have hnear := (abs_le.mp h.near).1
  have hm : m ≤ k := by
    by_contra hlt
    have hsucc : ((k : ℚ) + 1) * 2 ^ e ≤ m * 2 ^ e :=
      mul_le_mul_of_nonneg_right (by exact_mod_cast not_le.mp hlt) hunit.le
    linarith
  exact mul_le_mul_of_nonneg_right (by exact_mod_cast hm) hunit.le

/-- Rounding does not go beyond a multiple below. -/
theorem multiple_le (h : RoundsAt e q v) (hle : k * 2 ^ e ≤ q) : k * 2 ^ e ≤ v := by
  obtain ⟨m, rfl⟩ := h.whole
  have hunit := two_zpow_pos e
  have hnear := (abs_le.mp h.near).2
  have hm : k ≤ m := by
    by_contra hlt
    have hsucc : ((m : ℚ) + 1) * 2 ^ e ≤ k * 2 ^ e :=
      mul_le_mul_of_nonneg_right (by exact_mod_cast not_le.mp hlt) hunit.le
    linarith
  exact mul_le_mul_of_nonneg_right (by exact_mod_cast hm) hunit.le

/-- The rounded mantissa has at most one more digit, and then it is a power of two. -/
theorem mantissa_le (h : RoundsAt e q (k * 2 ^ e)) : k ≤ 2 ^ 53 := by
  have hle := h.le_multiple (k := 2 ^ 53) ((two_zpow_eq_multiple e 53) ▸ h.lt.le)
  exact_mod_cast le_of_mul_le_mul_right hle (two_zpow_pos e)

/-- The rounded mantissa has all its digits, unless the exponent is the least one. -/
theorem mantissa_full (h : RoundsAt e q (k * 2 ^ e)) : 2 ^ 52 ≤ k ∨ e = -1074 := by
  refine h.full.imp_left fun hlow => ?_
  have hle := h.multiple_le (k := 2 ^ 52) ((two_zpow_eq_multiple e 52) ▸ hlow)
  exact_mod_cast le_of_mul_le_mul_right hle (two_zpow_pos e)

end RoundsAt

/-- A double is rounded to itself. -/
theorem Representable.roundsTo {d : ℚ} (hd : Representable d) : RoundsTo d d := by
  obtain ⟨m, e, h, rfl⟩ := hd
  have hunit := two_zpow_pos e
  refine ⟨e, ⟨m, rfl⟩, by rw [sub_self, abs_zero]; positivity, h.least, ?_, ?_⟩
  · exact (two_zpow_eq_multiple e 53).symm ▸
      mul_lt_mul_of_pos_right (by exact_mod_cast h.lt) hunit
  · exact h.full.imp_left fun hfull => (two_zpow_eq_multiple e 52).symm ▸
      mul_le_mul_of_nonneg_right (by exact_mod_cast hfull) hunit.le

theorem roundsTo_zero : RoundsTo 0 0 := by
  simpa using (representable_natCast (n := 0) (by norm_num)).roundsTo

namespace RoundsTo

variable {q v d : ℚ}

/-- Rounding does not go beyond a double above. -/
theorem le (h : RoundsTo q v) (hd : Representable d) (hle : q ≤ d) : v ≤ d := by
  obtain ⟨m, e, hc, rfl⟩ := hd
  obtain ⟨f, h⟩ := h
  rcases le_or_gt f e with hfe | hfe
  · obtain ⟨k, hk⟩ := exists_multiple (m := m) hfe
    rw [hk] at hle ⊢
    exact h.le_multiple hle
  · -- a double with a smaller exponent is below all numbers that are rounded at this place
    have hfull : 2 ^ (f + 52) ≤ q := h.full.resolve_right (by have := hc.least; omega)
    exact absurd (hfull.trans hle) (not_le.mpr (hc.lt_two_zpow hfe))

/-- Rounding does not go beyond a double below. -/
theorem ge (h : RoundsTo q v) (hd : Representable d) (hle : d ≤ q) : d ≤ v := by
  obtain ⟨m, e, hc, rfl⟩ := hd
  obtain ⟨f, h⟩ := h
  rcases le_or_gt f e with hfe | hfe
  · obtain ⟨k, hk⟩ := exists_multiple (m := m) hfe
    rw [hk] at hle ⊢
    exact h.multiple_le hle
  · have hfull : 2 ^ (f + 52) ≤ q := h.full.resolve_right (by have := hc.least; omega)
    have hpower := two_zpow_eq_multiple f 52
    calc (m : ℚ) * 2 ^ e ≤ 2 ^ (f + 52) := (hc.lt_two_zpow hfe).le
      _ = (2 ^ 52 : ℕ) * 2 ^ f := hpower
      _ ≤ v := h.multiple_le (hpower ▸ hfull)

/-- A double is rounded to itself. -/
theorem eq_of_representable (h : RoundsTo q v) (hq : Representable q) : v = q :=
  le_antisymm (h.le hq le_rfl) (h.ge hq le_rfl)

/-- The error of rounding is at most the part of the number behind fifty-three digits. -/
theorem error (h : RoundsTo q v) (hq : 2 ^ (-1022 : ℤ) ≤ q) : |q - v| ≤ q / 2 ^ 53 := by
  obtain ⟨f, h⟩ := h
  have hfull : 2 ^ (f + 52) ≤ q := by
    rcases h.full with hfull | rfl
    · exact hfull
    · exact hq
  have hunit : (2 : ℚ) ^ f / 2 ≤ q / 2 ^ 53 := by
    have hpower : (2 : ℚ) ^ (f + 52) = 2 ^ 52 * 2 ^ f := two_zpow_add f 52
    rw [div_le_div_iff₀ two_pos (by positivity)]
    linarith
  exact h.near.trans hunit

end RoundsTo

/-! ## Mantissas with two more bits -/

/-- What the round bit and the sticky bit behind a mantissa say of a number. -/
def Tells (em : ExtendedMantissa) (x : ℚ) : Prop :=
  match em.roundBit, em.stickyBit with
  | false, false => x = em.mantissa
  | false, true => em.mantissa < x ∧ x < em.mantissa + 1 / 2
  | true, false => x = em.mantissa + 1 / 2
  | true, true => em.mantissa + 1 / 2 < x ∧ x < em.mantissa + 1

namespace Tells

variable {em : ExtendedMantissa} {x : ℚ}

/-- The mantissa is the whole part of the number. -/
theorem bounds (h : Tells em x) : em.mantissa ≤ x ∧ x < em.mantissa + 1 := by
  obtain ⟨m, round, sticky⟩ := em
  cases round <;> cases sticky <;> simp only [Tells] at h ⊢ <;> constructor <;> linarith

/-- The rounded mantissa is nearest to the number. -/
theorem near (h : Tells em x) : |x - em.roundedMantissa| ≤ 1 / 2 := by
  obtain ⟨m, round, sticky⟩ := em
  have hparity : ((m + m % 2 : ℕ) : ℚ) = m ∨ ((m + m % 2 : ℕ) : ℚ) = m + 1 := by
    rcases Nat.mod_two_eq_zero_or_one m with hm | hm <;> rw [hm] <;> simp
  cases round <;> cases sticky <;>
    simp only [Tells, ExtendedMantissa.roundedMantissa, ExtendedMantissa.accuracy,
      Accuracy.roundToNearestEven] at h ⊢ <;> rw [abs_le]
  · constructor <;> linarith
  · constructor <;> linarith
  · rcases hparity with hm | hm <;> rw [hm] <;> constructor <;> linarith
  · push_cast
    constructor <;> linarith

/-- Dropping the last digit halves the number. -/
theorem shiftRightOne (h : Tells em x) : Tells em.shiftRightOne (x / 2) := by
  obtain ⟨m, round, sticky⟩ := em
  obtain ⟨n, rfl | rfl⟩ := Nat.even_or_odd' m
  · have hdigit : (2 * n % 2 != 0) = false := by simp
    have hhalf : 2 * n / 2 = n := by omega
    cases round <;> cases sticky <;>
      simp only [Tells, ExtendedMantissa.shiftRightOne, hdigit, hhalf, Bool.or_false,
        Bool.or_true] at h ⊢ <;> push_cast at h
    · linarith
    all_goals constructor <;> linarith
  · have hdigit : ((2 * n + 1) % 2 != 0) = true := by simp
    have hhalf : (2 * n + 1) / 2 = n := by omega
    cases round <;> cases sticky <;>
      simp only [Tells, ExtendedMantissa.shiftRightOne, hdigit, hhalf, Bool.or_false,
        Bool.or_true] at h ⊢ <;> push_cast at h
    · linarith
    all_goals constructor <;> linarith

/-- Dropping digits divides the number by as many powers of two. -/
theorem shiftRight (h : Tells em x) (n : ℕ) : Tells (em >>> n) (x / 2 ^ n) := by
  induction n with
  | zero => simpa [HShiftRight.hShiftRight, Nat.repeat] using h
  | succ n ih =>
    have hstep : em >>> (n + 1) = (em >>> n).shiftRightOne := rfl
    rw [hstep, pow_succ, ← div_div]
    exact ih.shiftRightOne

/-- The whole part of the number is the mantissa. -/
theorem floor_eq (h : Tells em x) : ⌊x⌋₊ = em.mantissa := by
  obtain ⟨hlow, hhigh⟩ := h.bounds
  exact (Nat.floor_eq_iff ((Nat.cast_nonneg _).trans hlow)).mpr ⟨hlow, hhigh⟩

end Tells

/-- A mantissa with nothing behind it tells itself. -/
theorem tells_exact (m : ℕ) : Tells (.ofMantissaAndAccuracy m .exact) m := rfl

/-- What the remainder of a division says behind the whole part of a fraction. -/
theorem tells_fraction (m : ℕ) {n : ℕ} (hn : 0 < n) :
    Tells (.ofMantissaAndAccuracy (m / n) (accuracyOfFraction (m % n) n)) ((m : ℚ) / n) := by
  have hpos : (0 : ℚ) < n := by exact_mod_cast hn
  have hvalue : (m : ℚ) / n = (m / n : ℕ) + (m % n : ℕ) / n := by
    rw [div_eq_iff hpos.ne', add_mul, div_mul_cancel₀ _ hpos.ne']
    exact_mod_cast (Nat.div_add_mod' m n).symm
  have hrest : ((m % n : ℕ) : ℚ) / n < 1 := by
    rw [div_lt_one hpos]
    exact_mod_cast Nat.mod_lt m hn
  rw [hvalue]
  generalize m / n = k at *
  generalize m % n = r at *
  unfold accuracyOfFraction
  by_cases hr : r = 0
  · simp [hr, Tells, ExtendedMantissa.ofMantissaAndAccuracy]
  · have hr' : (0 : ℚ) < r / n := div_pos (by exact_mod_cast Nat.pos_of_ne_zero hr) hpos
    rw [if_neg hr]
    rcases lt_trichotomy (2 * r) n with h | h | h
    · have hhalf : (r : ℚ) / n < 1 / 2 := by
        rw [div_lt_div_iff₀ hpos two_pos]
        exact_mod_cast (by omega : r * 2 < 1 * n)
      rw [Nat.compare_eq_lt.mpr h]
      exact ⟨lt_add_of_pos_right _ hr', (add_lt_add_iff_left _).mpr hhalf⟩
    · have hhalf : (r : ℚ) / n = 1 / 2 := by
        rw [div_eq_div_iff hpos.ne' two_ne_zero]
        exact_mod_cast (by omega : r * 2 = 1 * n)
      rw [Nat.compare_eq_eq.mpr h, hhalf]
      rfl
    · have hhalf : (1 : ℚ) / 2 < r / n := by
        rw [div_lt_div_iff₀ two_pos hpos]
        exact_mod_cast (by omega : 1 * n < r * 2)
      rw [Nat.compare_eq_gt.mpr h]
      exact ⟨(add_lt_add_iff_left _).mpr hhalf, (add_lt_add_iff_left _).mpr hrest⟩

/-! ## Rounding of mantissas -/

/-- The mantissa of a double has fifty-three binary digits. -/
theorem mantissaBits_binary64 : Format.binary64.mantissaBits = 53 := rfl

/-- No double has a lesser exponent. -/
theorem minExponent_binary64 : Format.binary64.minExponent = -1074 := rfl

/-- The exponent at which a mantissa with an exponent is rounded. -/
theorem targetExponent_eq (m : ℕ) (e : ℤ) :
    Format.binary64.targetExponent (totalExponent m e) = max (m.log2 + e - 52) (-1074) := by
  rw [Format.targetExponent, totalExponent, mantissaBits_binary64, minExponent_binary64]
  omega

/-- A mantissa is brought to its target exponent by dropping digits. -/
theorem shiftToTargetExponent_eq {m : ℕ} {e t : ℤ} {n : ℕ} (accuracy : Accuracy)
    (ht : Format.binary64.targetExponent (totalExponent m e) = t) (hn : t = e + n) :
    shiftToTargetExponent Format.binary64 m e accuracy =
      (ExtendedMantissa.ofMantissaAndAccuracy m accuracy >>> n, t) := by
  have hshift : (t - e).toNat = n := by omega
  rw [shiftToTargetExponent, ht, shiftToExponent, hshift, hn]

/-- The whole part of what a mantissa and its accuracy tell is the mantissa. -/
theorem Tells.mantissa_bounds {m : ℕ} {accuracy : Accuracy} {x : ℚ}
    (h : Tells (.ofMantissaAndAccuracy m accuracy) x) : (m : ℚ) ≤ x ∧ x < m + 1 := by
  have hm : (ExtendedMantissa.ofMantissaAndAccuracy m accuracy).mantissa = m := by
    cases accuracy with
    | exact => rfl
    | inexact order => cases order <;> rfl
  have hbounds := h.bounds
  rwa [hm] at hbounds

/-- A mantissa is rounded at its target exponent. -/
theorem roundsAt_target {m : ℕ} {e t : ℤ} {n : ℕ} {accuracy : Accuracy} {q : ℚ}
    (hq : Tells (.ofMantissaAndAccuracy m accuracy) (q / 2 ^ e))
    (ht : max (m.log2 + e - 52) (-1074) = t) (hn : t = e + n) :
    RoundsAt t q
      ((ExtendedMantissa.ofMantissaAndAccuracy m accuracy >>> n).roundedMantissa * 2 ^ t) := by
  have hpower : (2 : ℚ) ^ t = 2 ^ n * 2 ^ e := by rw [hn, two_zpow_add]
  have hscaled : q = q / 2 ^ e / 2 ^ n * 2 ^ t := by
    have := (two_zpow_pos e).ne'
    rw [hpower]
    field_simp
  obtain ⟨hlow, hhigh⟩ := hq.mantissa_bounds
  rw [le_div_iff₀ (two_zpow_pos e)] at hlow
  rw [div_lt_iff₀ (two_zpow_pos e)] at hhigh
  have hlog : (m : ℚ) + 1 ≤ 2 ^ (m.log2 + 1) := by exact_mod_cast Nat.lt_log2_self
  refine ⟨⟨_, rfl⟩, ?_, by omega, ?_, ?_⟩
  · have hnear := (hq.shiftRight n).near
    generalize (ExtendedMantissa.ofMantissaAndAccuracy m accuracy >>> n).roundedMantissa = r
      at hnear
    calc |q - r * 2 ^ t| = |(q / 2 ^ e / 2 ^ n - r) * 2 ^ t| := by rw [sub_mul, ← hscaled]
      _ = |q / 2 ^ e / 2 ^ n - r| * 2 ^ t := by rw [abs_mul, abs_of_pos (two_zpow_pos t)]
      _ ≤ 1 / 2 * 2 ^ t := mul_le_mul_of_nonneg_right hnear (two_zpow_pos t).le
      _ = 2 ^ t / 2 := by ring
  · calc q < (m + 1) * 2 ^ e := hhigh
      _ ≤ 2 ^ (m.log2 + 1) * 2 ^ e := mul_le_mul_of_nonneg_right hlog (two_zpow_pos e).le
      _ = 2 ^ (e + (m.log2 + 1 : ℕ)) := (two_zpow_add e _).symm
      _ ≤ 2 ^ (t + 53) := zpow_le_zpow_right₀ one_le_two (by omega)
  · rcases le_or_gt t (-1074) with hleast | hgreater
    · exact Or.inr (by omega)
    · have hm : m ≠ 0 := by
        rintro rfl
        simp at ht
        omega
      have hself : (2 : ℚ) ^ m.log2 ≤ m := by exact_mod_cast Nat.log2_self_le hm
      left
      calc (2 : ℚ) ^ (t + 52) = 2 ^ (e + (m.log2 : ℕ)) := by congr 1; omega
        _ = 2 ^ m.log2 * 2 ^ e := two_zpow_add e _
        _ ≤ m * 2 ^ e := mul_le_mul_of_nonneg_right hself (two_zpow_pos e).le
        _ ≤ q := hlow

end LayerBlend.Double
