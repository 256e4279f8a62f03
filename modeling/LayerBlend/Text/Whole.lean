import LayerBlend.Text.Blank
import LayerBlend.Text.DecimalDigit

/-!
# Whole numbers read from text

`readWhole?` reads an integer the way people type one: blanks around it, an optional sign, and
decimal digits of any script, where a single underscore may stand between two digits. The four ASCII
separators are no blanks here, and a numeral of more than `maxDigits` digits is refused.
-/

namespace LayerBlend.Text

/-- The most digits that a numeral may have. -/
def maxDigits : Nat := 4300

/-- The digits of a numeral after its first digit, an underscore allowed in front of each. -/
def readDigits? : List Char → Option (List Nat)
  | [] => some []
  | '_' :: c :: rest => do return (← decimalDigit? c) :: (← readDigits? rest)
  | c :: rest => do return (← decimalDigit? c) :: (← readDigits? rest)

/-- The number with the given decimal digits, the first the most significant. -/
def ofDigits (digits : List Nat) : Nat :=
  digits.foldl (fun n d => 10 * n + d) 0

/-- An unsigned numeral: a digit, then digits with single underscores between them. -/
def readUnsigned? : List Char → Option Nat
  | [] => none
  | c :: rest => do
    let digits := (← decimalDigit? c) :: (← readDigits? rest)
    if digits.length ≤ maxDigits then some (ofDigits digits) else none

/-- A blank that may stand around a numeral. -/
def isMargin (c : Char) : Bool :=
  isBlank c && !(0x1c ≤ c.toNat && c.toNat ≤ 0x1f)

/-- The integer that a text holds, with blanks allowed around it. -/
def readWhole? (s : List Char) : Option Int :=
  match trimOf isMargin s with
  | '-' :: rest => (readUnsigned? rest).map fun n => -(n : Int)
  | '+' :: rest => (readUnsigned? rest).map fun n => (n : Int)
  | rest => (readUnsigned? rest).map fun n => (n : Int)

end LayerBlend.Text
