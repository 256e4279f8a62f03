import LayerBlend.Arithmetic
import LayerBlend.Numeral.Double

/-!
# Arithmetic of doubles

The numbers that formulas are evaluated over when the program runs. Sums, products, quotients and
square roots are correctly rounded; floors, ceilings and remainders are exact; the exponential, the
logarithm and the power are those of the machine.
-/

namespace LayerBlend

instance : Arithmetic Float where
  ofDecimal d := Double.ofDecimal false d.digits (-(d.places : Int))
  infinity := Double.infinity
  negInfinity := -Double.infinity
  add a b := a + b
  sub a b := a - b
  mul a b := a * b
  div a b := a / b
  rem := Double.rem
  pow := Float.pow
  abs := Double.abs
  floor := Double.floor
  ceil := Double.ceil
  sqrt := Float.sqrt
  exp := Float.exp
  log := Float.log
  less a b := a < b
  lessEq a b := a ≤ b
  isNaN := Float.isNaN
  isFinite := Float.isFinite
  ofByte b := Float.ofNat b.toNat
  toByte := Float.toUInt8

end LayerBlend
