import LayerBlend.Arithmetic.Double

/-!
# Sums and products of doubles do not depend on the order

* `Double.add_comm` and `Double.mul_comm`, from the same facts about doubles taken apart into sign,
  mantissa and exponent.
-/

namespace LayerBlend.Double

open Float.Model

/-- The sign of a product does not depend on the order. -/
theorem sign_mul_comm (s t : UnpackedFloat.Sign) : s * t = t * s := by
  cases s <;> cases t <;> rfl

/-- The sum of two doubles taken apart does not depend on the order. -/
theorem unpacked_add_comm (spec : Format) (x y : UnpackedFloat) :
    UnpackedFloat.add spec x y = UnpackedFloat.add spec y x := by
  cases x with
  | finite s m e hm =>
    cases y with
    | finite t n f hn =>
      -- both mantissas are brought to the smaller exponent and added
      show UnpackedFloat.normalize spec
          (s.apply (UnpackedFloat.decreaseExponent m e (min e f)).1 +
            t.apply (UnpackedFloat.decreaseExponent n f (min e f)).1) (min e f) .positive =
        UnpackedFloat.normalize spec
          (t.apply (UnpackedFloat.decreaseExponent n f (min f e)).1 +
            s.apply (UnpackedFloat.decreaseExponent m e (min f e)).1) (min f e) .positive
      rw [Int.min_comm, Int.add_comm]
    | _ => rfl
  | notANumber => cases y <;> rfl
  | infinity s =>
    cases y with
    | infinity t => cases s <;> cases t <;> rfl
    | _ => rfl
  | zero s =>
    cases y with
    | zero t => cases s <;> cases t <;> rfl
    | _ => rfl

/-- The product of two doubles taken apart does not depend on the order. -/
theorem unpacked_mul_comm (spec : Format) (x y : UnpackedFloat) :
    UnpackedFloat.mul spec x y = UnpackedFloat.mul spec y x := by
  have hinfinity : ∀ s t : UnpackedFloat.Sign,
      UnpackedFloat.infinity (s * t) = .infinity (t * s) := fun s t => by rw [sign_mul_comm]
  have hzero : ∀ s t : UnpackedFloat.Sign,
      UnpackedFloat.zero (s * t) = .zero (t * s) := fun s t => by rw [sign_mul_comm]
  cases x with
  | finite s m e hm =>
    cases y with
    | finite t n f hn =>
      show UnpackedFloat.roundWithAccuracy spec (s * t) (m * n) (e + f) .exact =
        UnpackedFloat.roundWithAccuracy spec (t * s) (n * m) (f + e) .exact
      rw [sign_mul_comm, Nat.mul_comm, Int.add_comm]
    | notANumber => rfl
    | infinity t => exact hinfinity s t
    | zero t => exact hzero s t
  | notANumber => cases y <;> rfl
  | infinity s =>
    cases y with
    | finite t _ _ _ => exact hinfinity s t
    | infinity t => exact hinfinity s t
    | _ => rfl
  | zero s =>
    cases y with
    | finite t _ _ _ => exact hzero s t
    | zero t => exact hzero s t
    | _ => rfl

/-- The sum of two doubles does not depend on the order. -/
theorem add_comm (x y : Float) : x + y = y + x :=
  congrArg (fun z => Float.ofModel (Float.Model.pack z))
    (unpacked_add_comm Format.binary64 x.toModel.unpack y.toModel.unpack)

/-- The product of two doubles does not depend on the order. -/
theorem mul_comm (x y : Float) : x * y = y * x :=
  congrArg (fun z => Float.ofModel (Float.Model.pack z))
    (unpacked_mul_comm Format.binary64 x.toModel.unpack y.toModel.unpack)

end LayerBlend.Double
