/-!
# Blank characters

`isBlank` is the class of characters that separate the tokens of a formula, that make a text
blank, and that `trim` removes from both ends of a text: the ASCII blanks and separators, the
next-line control, and the Unicode spaces, the line separator and the paragraph separator.
-/

namespace LayerBlend.Text

/-- A blank: a character that may stand between tokens and at the ends of a text. -/
def isBlank (c : Char) : Bool :=
  let n := c.toNat
  (0x09 ≤ n && n ≤ 0x0d) || (0x1c ≤ n && n ≤ 0x20) || n == 0x85 || n == 0xa0 || n == 0x1680 ||
    (0x2000 ≤ n && n ≤ 0x200a) || n == 0x2028 || n == 0x2029 || n == 0x202f || n == 0x205f ||
    n == 0x3000

/-- A text that holds nothing but blanks. -/
def blank (s : List Char) : Bool :=
  s.all isBlank

/-- The text without the characters of a class at its two ends. -/
def trimOf (p : Char → Bool) (s : List Char) : List Char :=
  ((s.dropWhile p).reverse.dropWhile p).reverse

/-- The text without the blanks at its two ends. -/
def trim (s : List Char) : List Char :=
  trimOf isBlank s

end LayerBlend.Text
