/-!
# Decimal literals

A `Decimal` is what a numeral of a formula says: natural `digits` with a number of them behind the
point. It is read from ASCII digits with at most one point between them.
-/

namespace LayerBlend

/-- The number `digits / 10 ^ places`. -/
structure Decimal where
  /-- All digits of the numeral, read as one natural number. -/
  digits : Nat
  /-- How many of them stand behind the point. -/
  places : Nat
  deriving DecidableEq, Repr

namespace Decimal

/-- The decimal zero. -/
def zero : Decimal := ⟨0, 0⟩

/-- The natural number written by ASCII digits. -/
def natOf (digits : List Char) : Nat :=
  digits.foldl (fun n c => 10 * n + (c.toNat - '0'.toNat)) 0

/-- The literal written by ASCII digits, with a point between two of them or none. -/
def ofChars? (s : List Char) : Option Decimal :=
  let whole := s.takeWhile Char.isDigit
  match whole, s.dropWhile Char.isDigit with
  | [], _ => none
  | _, [] => some ⟨natOf whole, 0⟩
  | _, '.' :: fraction =>
    if fraction.all Char.isDigit && !fraction.isEmpty then
      some ⟨natOf (whole ++ fraction), fraction.length⟩
    else none
  | _, _ => none

end Decimal

end LayerBlend
