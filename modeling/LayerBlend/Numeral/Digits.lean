import LayerBlend.Numeral.Double

/-!
# Decimal digits of a double

`Digits` is a decimal fraction `coefficient * 10 ^ exponent`. Two ways lead from a positive finite
double to one:

* `shortest` has the fewest digits that read back as the double, and among those it is the one
  nearest to the double;
* `significant count` has `count` digits and is the nearest such number, a tie going to the even
  digit.

Both work on a positive fraction `numerator / denominator` in exact arithmetic.
-/

namespace LayerBlend.Numeral

/-- The decimal fraction `coefficient * 10 ^ exponent`. -/
structure Digits where
  /-- The digits, read as one natural number. -/
  coefficient : Nat
  /-- The power of ten of the last digit. -/
  exponent : Int
  deriving DecidableEq, Repr

/-- A positive fraction. -/
structure Fraction where
  /-- The number above the line. -/
  numerator : Nat
  /-- The number below the line. -/
  denominator : Nat
  deriving DecidableEq, Repr

namespace Fraction

/-- The fraction `n * 2 ^ exponent`. -/
def ofBinary (n : Nat) (exponent : Int) : Fraction :=
  if 0 ≤ exponent then ⟨n * twoTo exponent.toNat, 1⟩ else ⟨n, twoTo (-exponent).toNat⟩

/-- The fraction divided by `10 ^ exponent`. -/
def perTenTo (q : Fraction) (exponent : Int) : Fraction :=
  if 0 ≤ exponent then ⟨q.numerator, q.denominator * tenTo exponent.toNat⟩
  else ⟨q.numerator * tenTo (-exponent).toNat, q.denominator⟩

/-- The number of digits in front of the decimal point, negative when zeros follow the point: the
least `k` with the fraction below `10 ^ k`. -/
def magnitude (q : Fraction) : Int :=
  let guess := ((Nat.log2 q.numerator : Int) - (Nat.log2 q.denominator : Int)) * 30103 / 100000 - 1
  let below (k : Int) : Bool :=
    let scaled := q.perTenTo k
    scaled.numerator < scaled.denominator
  ((List.range 5).map fun (step : Nat) => guess + (step : Int)).find? below |>.getD (guess + 5)

end Fraction

namespace Digits

/-- Trailing zeros moved from the coefficient into the exponent; `fuel` bounds their number. -/
def stripZeros : Nat → Digits → Digits
  | 0, d => d
  | fuel + 1, d =>
    if d.coefficient ≠ 0 ∧ d.coefficient % 10 = 0 then
      stripZeros fuel ⟨d.coefficient / 10, d.exponent + 1⟩
    else d

/-- The nearest number of `count` digits, a tie going to the even digit. -/
def significant (count : Nat) (value : Fraction) : Digits :=
  let exponent := value.magnitude - count
  let scaled := value.perTenTo exponent
  let low := scaled.numerator / scaled.denominator
  let twice := 2 * (scaled.numerator % scaled.denominator)
  let rounded :=
    if twice < scaled.denominator || (twice = scaled.denominator && low % 2 = 0) then low
    else low + 1
  stripZeros (count + 1) ⟨rounded, exponent⟩

/-- The reals that read back as one double: `value` and the ends of the interval, all as fractions
over one denominator, and whether the ends belong to it. -/
structure Interval where
  /-- The double. -/
  value : Nat
  /-- The lower end. -/
  lower : Nat
  /-- The upper end. -/
  upper : Nat
  /-- The common denominator. -/
  denominator : Nat
  /-- The ends read back as the double too. -/
  closed : Bool

/-- The interval of the positive double `mantissa * 2 ^ exponent`. -/
def Interval.ofParts (mantissa : Nat) (exponent : Int) : Interval :=
  let gap := if mantissa = twoTo 52 && Double.minExponent < exponent then 1 else 2
  let scale := exponent - 2
  let factor := if 0 ≤ scale then twoTo scale.toNat else 1
  { value := 4 * mantissa * factor
    lower := (4 * mantissa - gap) * factor
    upper := (4 * mantissa + 2) * factor
    denominator := if 0 ≤ scale then 1 else twoTo (-scale).toNat
    closed := mantissa % 2 = 0 }

/-- The decimal grid point `coefficient * 10 ^ exponent` lies in the interval. -/
def Interval.holds (i : Interval) (exponent : Int) (coefficient : Nat) : Bool :=
  let up := if 0 ≤ exponent then tenTo exponent.toNat else 1
  let down := if 0 ≤ exponent then 1 else tenTo (-exponent).toNat
  let point := coefficient * up * i.denominator
  if i.closed then i.lower * down ≤ point && point ≤ i.upper * down
  else i.lower * down < point && point < i.upper * down

/-- The grid point with `count` digits that reads back as the double and is nearest to it. -/
def ofCount? (i : Interval) (magnitude : Int) (count : Nat) : Option Digits :=
  let exponent := magnitude - count
  let scaled := Fraction.perTenTo ⟨i.value, i.denominator⟩ exponent
  let low := scaled.numerator / scaled.denominator
  let twice := 2 * (scaled.numerator % scaled.denominator)
  let lowFirst := twice < scaled.denominator || (twice = scaled.denominator && low % 2 = 0)
  let candidates := if lowFirst then [low, low + 1] else [low + 1, low]
  (candidates.find? (i.holds exponent)).map fun c => ⟨c, exponent⟩

/-- The fewest digits that read back as the positive double `mantissa * 2 ^ exponent`. -/
def shortest (mantissa : Nat) (exponent : Int) : Digits :=
  let interval := Interval.ofParts mantissa exponent
  let magnitude := Fraction.magnitude ⟨interval.value, interval.denominator⟩
  let found := (List.range 17).findSome? fun n => ofCount? interval magnitude (n + 1)
  stripZeros 20 (found.getD ⟨0, 0⟩)

end Digits

end LayerBlend.Numeral
