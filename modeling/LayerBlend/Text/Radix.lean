/-!
# Numbers written in a radix

`Radix.write base n` is the usual numeral of `n` in a base from two to thirty-six, with the
letters `a` to `z` for the digits from ten on; `Radix.writePadded` fills it with zeros on the
left. `Radix.writeInt` puts a sign in front of a negative number.
-/

namespace LayerBlend.Text.Radix

/-- The character of one digit below thirty-six. -/
def digit (n : Nat) : Char :=
  if n < 10 then Char.ofNat (0x30 + n) else Char.ofNat (0x57 + n)

/-- The digits of `n` in front of `tail`; `fuel` bounds the number of digits. -/
def writeOnto (base : Nat) : Nat → Nat → List Char → List Char
  | 0, _, tail => tail
  | fuel + 1, n, tail =>
    if n < base then digit n :: tail
    else writeOnto base fuel (n / base) (digit (n % base) :: tail)

/-- The numeral of `n` in the given base. -/
def write (base n : Nat) : List Char :=
  writeOnto base (n + 1) n []

/-- The numeral of `n` with zeros in front up to the given width. -/
def writePadded (base width n : Nat) : List Char :=
  let digits := write base n
  List.replicate (width - digits.length) '0' ++ digits

/-- The numeral of an integer, with a minus sign in front of a negative one. -/
def writeInt (base : Nat) (n : Int) : List Char :=
  if n < 0 then '-' :: write base n.natAbs else write base n.natAbs

end LayerBlend.Text.Radix
