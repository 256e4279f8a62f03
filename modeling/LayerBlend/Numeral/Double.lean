import LayerBlend.Numeral.Power

/-!
# Doubles as exact binary fractions

A finite double is a sign and `mantissa * 2 ^ exponent` with natural `mantissa`. `Double.parts`
reads these from the bits and `Double.ofParts` writes them back; in between, floors, remainders
and truncations are exact integer arithmetic. `ofFraction` rounds a fraction to the nearest double.
-/

namespace LayerBlend.Double

open Numeral

/-- What the bits of a double say. -/
inductive Parts where
  /-- Not a number. -/
  | nan
  /-- One of the two infinities. -/
  | infinite (negative : Bool)
  /-- The number `mantissa * 2 ^ exponent`, negated when `negative`. -/
  | finite (negative : Bool) (mantissa : Nat) (exponent : Int)
  deriving DecidableEq, Repr

/-- The double that is not a number. -/
def nan : Float := 0.0 / 0.0

/-- Positive infinity. -/
def infinity : Float := 1.0 / 0.0

/-- The exponent of the smallest positive double. -/
def minExponent : Int := -1074

/-- Sign, mantissa and exponent of a double. -/
def parts (x : Float) : Parts :=
  let bits := x.toBits.toNat
  let negative := bits / twoTo 63 == 1
  let exponent : Nat := bits / twoTo 52 % twoTo 11
  let fraction : Nat := bits % twoTo 52
  if exponent = 2047 then if fraction = 0 then .infinite negative else .nan
  else if exponent = 0 then .finite negative fraction minExponent
  else .finite negative (fraction + twoTo 52) ((exponent : Int) - 1075)

/-- The double with the given sign, mantissa and exponent; digits that a double cannot hold are
dropped from the low end. -/
def ofParts (negative : Bool) (mantissa : Nat) (exponent : Int) : Float :=
  let length : Int := if mantissa = 0 then 0 else (Nat.log2 mantissa : Int) + 1
  let target := max (exponent + length - 53) minExponent
  let scaled :=
    if target ≤ exponent then mantissa * twoTo (exponent - target).toNat
    else mantissa / twoTo (target - exponent).toNat
  let biased := if scaled < twoTo 52 then scaled
    else (target + 1075).toNat * twoTo 52 + (scaled - twoTo 52)
  Float.ofBits (UInt64.ofNat (biased + if negative then twoTo 63 else 0))

/-- The power of two of the first bit of a positive fraction. -/
def leadingExponent (numerator denominator : Nat) : Int :=
  let guess : Int := (Nat.log2 numerator : Int) - (Nat.log2 denominator : Int)
  let reached :=
    if 0 ≤ guess then denominator * twoTo guess.toNat ≤ numerator
    else denominator ≤ numerator * twoTo (-guess).toNat
  if reached then guess else guess - 1

/-- The double nearest to `numerator / denominator`, a tie going to the even mantissa, and an
infinity when the fraction is beyond all doubles. -/
def ofFraction (negative : Bool) (numerator denominator : Nat) : Float :=
  if numerator = 0 then ofParts negative 0 0
  else
    let exponent := max (leadingExponent numerator denominator - 52) minExponent
    let above := if 0 ≤ exponent then numerator else numerator * twoTo (-exponent).toNat
    let below := if 0 ≤ exponent then denominator * twoTo exponent.toNat else denominator
    let low := above / below
    let twice := 2 * (above % below)
    let mantissa :=
      if twice < below || (twice = below && low % 2 = 0) then low else low + 1
    if 971 < exponent || (exponent = 971 && mantissa = twoTo 53) then
      if negative then -infinity else infinity
    else ofParts negative mantissa exponent

/-- The double nearest to `digits * 10 ^ exponent`. -/
def ofDecimal (negative : Bool) (digits : Nat) (exponent : Int) : Float :=
  if digits = 0 then ofParts negative 0 0
  else if 0 ≤ exponent then
    if 400 < exponent then if negative then -infinity else infinity
    else ofFraction negative (digits * tenTo exponent.toNat) 1
  else if exponent < -400 - 10 * (Nat.log2 digits : Int) then ofParts negative 0 0
  else ofFraction negative digits (tenTo (-exponent).toNat)

/-- A double without its sign bit. -/
def abs (x : Float) : Float :=
  Float.ofBits (x.toBits &&& 0x7fffffffffffffff)

/-- The largest integer not above a double; infinities, NaN and zeros are their own floor. -/
def floor (x : Float) : Float :=
  match parts x with
  | .finite negative mantissa exponent =>
    if 0 ≤ exponent || mantissa = 0 then x
    else
      let unit := twoTo (-exponent).toNat
      let whole := mantissa / unit
      if negative && mantissa % unit ≠ 0 then ofParts true (whole + 1) 0
      else ofParts negative whole 0
  | _ => x

/-- The smallest integer not below a double; a number above minus one rounds up to minus zero. -/
def ceil (x : Float) : Float :=
  -floor (-x)

/-- The remainder of a division toward zero: it has the sign of the dividend and is exact. -/
def rem (x y : Float) : Float :=
  match parts x, parts y with
  | .finite negative m e, .finite _ n f =>
    if n = 0 then nan
    else
      let low := min e f
      ofParts negative (m * twoTo (e - low).toNat % (n * twoTo (f - low).toNat)) low
  | .finite .., .infinite _ => x
  | _, _ => nan

/-- The integer part of a finite double, rounded toward zero. -/
def truncate? (x : Float) : Option Int :=
  match parts x with
  | .finite negative mantissa exponent =>
    let size : Nat :=
      if 0 ≤ exponent then mantissa * twoTo exponent.toNat else mantissa / twoTo (-exponent).toNat
    some (if negative then -(size : Int) else size)
  | _ => none

end LayerBlend.Double
