import LayerBlend.Numeral.Double

/-!
# Quantities

A `Quantity` is a length or a coordinate as it is given: a whole number of any size, or a double.
Where a whole number is needed, the part of a double behind the point is dropped, and a NaN or an
infinity is refused (`Quantity.truncate`).
-/

namespace LayerBlend

/-- A number that is given for a length or a coordinate. -/
inductive Quantity where
  /-- A whole number. -/
  | whole (n : Int)
  /-- A double. -/
  | fractional (x : Float)

/-- Why a quantity is no whole number. -/
inductive QuantityFault where
  /-- It is not a number. -/
  | notANumber
  /-- It is infinite. -/
  | infinite
  deriving DecidableEq, Repr

namespace Quantity

/-- The nearest double. -/
def toDouble : Quantity → Float
  | .whole n => Double.ofDecimal (n < 0) n.natAbs 0
  | .fractional x => x

/-- The sum of two quantities, exact for whole numbers. -/
def add : Quantity → Quantity → Quantity
  | .whole m, .whole n => .whole (m + n)
  | a, b => .fractional (a.toDouble + b.toDouble)

instance : Add Quantity := ⟨add⟩

/-- The whole number that is left when the part behind the point is dropped. -/
def truncate : Quantity → Except QuantityFault Int
  | .whole n => .ok n
  | .fractional x =>
    match Double.truncate? x with
    | some n => .ok n
    | none => .error (if x.isNaN then .notANumber else .infinite)

end Quantity

end LayerBlend
