import LayerBlend.Numeral.Decimal

/-!
# Arithmetic of channel values

A formula can be evaluated over any type with an `Arithmetic`: literals, the four operations, a
remainder, the elementary functions, the order, and bytes in and out. The order is partial,
because a type may hold values that compare with nothing (`isNaN`).

From these the rest of the language's arithmetic is defined once for all types:

* `minimum` and `maximum`, which give their first argument on a tie and hand on a NaN;
* `truthy`, the reading of a value as a condition, and `ofBool`, the value of a comparison;
* `orZero`, which reads what is not finite as zero, and `normalize`, which also clips into
  `[0, 1]`;
* the blending functions `clamp`, `mix`, `step`, `smoothstep`, `lum` and `roundHalfUp`.
-/

namespace LayerBlend

/-- A type of numbers over which formulas can be evaluated. -/
class Arithmetic (α : Type) where
  /-- The value of a literal. -/
  ofDecimal : Decimal → α
  /-- A value above all finite ones. -/
  infinity : α
  /-- A value below all finite ones. -/
  negInfinity : α
  /-- Sum. -/
  add : α → α → α
  /-- Difference. -/
  sub : α → α → α
  /-- Product. -/
  mul : α → α → α
  /-- Quotient. -/
  div : α → α → α
  /-- Remainder of the division toward zero. -/
  rem : α → α → α
  /-- Power. -/
  pow : α → α → α
  /-- Absolute value. -/
  abs : α → α
  /-- The largest whole number not above the value. -/
  floor : α → α
  /-- The smallest whole number not below the value. -/
  ceil : α → α
  /-- Square root. -/
  sqrt : α → α
  /-- Exponential function. -/
  exp : α → α
  /-- Natural logarithm. -/
  log : α → α
  /-- Strict order. -/
  less : α → α → Bool
  /-- Order. -/
  lessEq : α → α → Bool
  /-- The value compares with nothing. -/
  isNaN : α → Bool
  /-- The value is neither infinite nor NaN. -/
  isFinite : α → Bool
  /-- The whole number of a byte. -/
  ofByte : UInt8 → α
  /-- The byte of a whole number from 0 to 255. -/
  toByte : α → UInt8

namespace Arithmetic

variable {α : Type} [Arithmetic α]

/-! ## Constants -/

/-- Zero. -/
def zero : α := ofDecimal ⟨0, 0⟩

/-- One. -/
def one : α := ofDecimal ⟨1, 0⟩

/-- One half. -/
def half : α := ofDecimal ⟨5, 1⟩

/-- The largest byte. -/
def fullByte : α := ofDecimal ⟨255, 0⟩

/-! ## Conditions -/

/-- A value counts as true when it is on one side of zero. -/
def truthy (x : α) : Bool :=
  less x zero || less zero x

/-- The value of a comparison: one when it holds and zero otherwise. -/
def ofBool (b : Bool) : α :=
  if b then one else zero

/-! ## Bounds -/

/-- The smaller value, the first on a tie; a NaN on either side is the result. -/
def minimum (a b : α) : α :=
  if lessEq a b || isNaN a then a else b

/-- The larger value, the first on a tie; a NaN on either side is the result. -/
def maximum (a b : α) : α :=
  if lessEq b a || isNaN a then a else b

/-- The least of several values, infinity for none. -/
def minimumOf : List α → α
  | [] => infinity
  | x :: xs => xs.foldl minimum x

/-- The greatest of several values, negative infinity for none. -/
def maximumOf : List α → α
  | [] => negInfinity
  | x :: xs => xs.foldl maximum x

/-- A value raised to `low` and then lowered to `high`. -/
def clamp (x low high : α) : α :=
  minimum high (maximum low x)

/-- A value clipped into `[0, 1]`. -/
def saturate (x : α) : α :=
  clamp x zero one

/-- A finite value itself, and zero for any other. -/
def orZero (x : α) : α :=
  if isFinite x then x else zero

/-- A finite value clipped into `[0, 1]`, and zero for any other. -/
def normalize (x : α) : α :=
  if isFinite x then minimum (maximum x zero) one else zero

/-! ## Blending functions -/

/-- The nearest whole number, a half going up. -/
def roundHalfUp (x : α) : α :=
  floor (add x half)

/-- The point between `a` and `b` at `t`. -/
def mix (a b t : α) : α :=
  add (mul a (sub one t)) (mul b t)

/-- Zero below the edge and one from the edge on. -/
def step (edge x : α) : α :=
  if less x edge then zero else one

/-- A smooth rise from zero at `low` to one at `high`. -/
def smoothstep (low high x : α) : α :=
  let t := saturate (div (sub x low) (sub high low))
  mul (mul t t) (sub (ofDecimal ⟨3, 0⟩) (mul (ofDecimal ⟨2, 0⟩) t))

/-- The brightness of a colour. -/
def lum (red green blue : α) : α :=
  add (add (mul (ofDecimal ⟨299, 3⟩) red) (mul (ofDecimal ⟨587, 3⟩) green))
    (mul (ofDecimal ⟨114, 3⟩) blue)

end Arithmetic

end LayerBlend
