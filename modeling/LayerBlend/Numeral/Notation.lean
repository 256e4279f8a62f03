import LayerBlend.Numeral.Digits
import LayerBlend.Text.Radix

/-!
# Doubles as text

A `Layout` says how decimal digits are laid out: up to which powers of ten they are written with a
point in its place, and whether a whole number keeps a `.0`. Outside these powers a numeral is one
digit, a point and the other digits, and a signed exponent of at least two digits.

`showExact` writes the fewest digits that read back as the number, in place for powers of ten
from -4 to 15 and with `.0` after a whole number. `showBrief` rounds to six digits, in place for
powers from -4 to 5, and drops what is zero at the end.
-/

namespace LayerBlend.Numeral

/-- How decimal digits are laid out. -/
structure Layout where
  /-- The smallest power of ten of the first digit that is written in place. -/
  least : Int
  /-- The power of ten of the first digit from which on an exponent is written. -/
  tooLarge : Int
  /-- A whole number written in place ends in `.0`. -/
  keepsPoint : Bool

/-- The layout of an exact number: in place from `0.0001` to below `1e16`, whole numbers with
`.0`. -/
def exactLayout : Layout := ⟨-4, 16, true⟩

/-- The layout of a brief number: in place from `0.0001` to below `1e6`, whole numbers bare. -/
def briefLayout : Layout := ⟨-4, 6, false⟩

namespace Layout

/-- The exponent part of a numeral. -/
def writeExponent (exponent : Int) : List Char :=
  'e' :: (if exponent < 0 then '-' else '+') :: Text.Radix.writePadded 10 2 exponent.natAbs

/-- Digits laid out as a numeral. -/
def write (layout : Layout) (d : Digits) : List Char :=
  let digits := Text.Radix.write 10 d.coefficient
  let first : Int := d.exponent + digits.length - 1
  let point := if layout.keepsPoint then ['.', '0'] else []
  if d.coefficient = 0 then '0' :: point
  else if first < layout.least || layout.tooLarge ≤ first then
    match digits with
    | [] => []
    | [c] => c :: writeExponent first
    | c :: rest => c :: '.' :: rest ++ writeExponent first
  else if 0 ≤ d.exponent then digits ++ List.replicate d.exponent.toNat '0' ++ point
  else if first < 0 then
    ['0', '.'] ++ List.replicate (-first - 1).toNat '0' ++ digits
  else
    let whole := (first + 1).toNat
    digits.take whole ++ '.' :: digits.drop whole

end Layout

/-- A double written by the given layout, its digits chosen by `digits`. -/
def showDouble (layout : Layout) (digits : Nat → Int → Digits) (x : Float) : String :=
  match Double.parts x with
  | .nan => "nan"
  | .infinite negative => if negative then "-inf" else "inf"
  | .finite negative mantissa exponent =>
    let d := if mantissa = 0 then ⟨0, 0⟩ else digits mantissa exponent
    String.ofList ((if negative then ['-'] else []) ++ layout.write d)

/-- The fewest digits that read back as the double. -/
def showExact (x : Float) : String :=
  showDouble exactLayout Digits.shortest x

/-- The double rounded to six digits. -/
def showBrief (x : Float) : String :=
  showDouble briefLayout (fun m e => Digits.significant 6 (Fraction.ofBinary m e)) x

end LayerBlend.Numeral
