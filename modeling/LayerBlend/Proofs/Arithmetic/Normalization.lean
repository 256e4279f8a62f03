import LayerBlend.Arithmetic.Double

/-!
# Normalised values

* `Double.IsUnit x` — the double `x` is finite and lies in `[0, 1]`.
* `Double.isUnit_normalize` — normalising gives such a double, whatever it is given, an infinity or
  a NaN included.
-/

namespace LayerBlend.Double

open Arithmetic

/-- A finite double in `[0, 1]`. -/
structure IsUnit (x : Float) : Prop where
  /-- It is neither infinite nor NaN. -/
  finite : x.isFinite = true
  /-- It is not negative. -/
  nonneg : (0 : Float) ≤ x
  /-- It is at most one. -/
  le_one : x ≤ 1

/-- Zero is the zero of doubles. -/
theorem zero_eq : (zero : Float) = 0 := rfl

/-- One is the one of doubles. -/
theorem one_eq : (one : Float) = 1 := rfl

theorem isUnit_zero : IsUnit 0 :=
  ⟨by decide +kernel, by decide +kernel, by decide +kernel⟩

theorem isUnit_one : IsUnit 1 :=
  ⟨by decide +kernel, by decide +kernel, by decide +kernel⟩

/-- A finite double is not NaN. -/
theorem not_isNaN_of_isFinite {x : Float} (h : x.isFinite = true) : x.isNaN = false := by
  unfold Float.isFinite Float.Model.isFinite at h
  unfold Float.isNaN Float.Model.isNaN
  cases hx : x.toModel.unpack with
  | notANumber => rw [hx] at h; cases h
  | infinity _ => rfl
  | zero _ => rfl
  | finite _ _ _ _ => rfl

/-- Raising a finite double to zero gives a finite one that is not negative. -/
theorem maximum_zero {x : Float} (h : x.isFinite = true) :
    (maximum x zero).isFinite = true ∧ (0 : Float) ≤ maximum x zero := by
  unfold maximum
  by_cases hx : (lessEq zero x || isNaN x) = true
  · rw [if_pos hx]
    refine ⟨h, ?_⟩
    rcases Bool.or_eq_true_iff.mp hx with hle | hnan
    · exact of_decide_eq_true hle
    · exact absurd ((not_isNaN_of_isFinite h).symm.trans hnan) Bool.false_ne_true
  · rw [if_neg hx, zero_eq]
    exact ⟨isUnit_zero.finite, isUnit_zero.nonneg⟩

/-- Lowering to one gives a double in `[0, 1]`. -/
theorem minimum_one {x : Float} (hfinite : x.isFinite = true) (hnonneg : (0 : Float) ≤ x) :
    IsUnit (minimum x one) := by
  unfold minimum
  by_cases hx : (lessEq x one || isNaN x) = true
  · rw [if_pos hx]
    refine ⟨hfinite, hnonneg, ?_⟩
    rcases Bool.or_eq_true_iff.mp hx with hle | hnan
    · exact of_decide_eq_true hle
    · exact absurd ((not_isNaN_of_isFinite hfinite).symm.trans hnan) Bool.false_ne_true
  · rw [if_neg hx, one_eq]
    exact isUnit_one

/-- Normalising gives a double in `[0, 1]`. -/
theorem isUnit_normalize (x : Float) : IsUnit (Arithmetic.normalize x) := by
  unfold Arithmetic.normalize
  by_cases hx : isFinite x = true
  · rw [if_pos hx]
    obtain ⟨hfinite, hnonneg⟩ := maximum_zero hx
    exact minimum_one hfinite hnonneg
  · rw [if_neg hx, zero_eq]
    exact isUnit_zero

end LayerBlend.Double
