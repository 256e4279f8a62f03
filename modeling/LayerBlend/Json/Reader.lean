import LayerBlend.Json
import LayerBlend.Text.Whole

/-!
# Reading JSON

`Json.read` reads a document: one value with blanks around it. Beside the standard's numerals the
constants `NaN`, `Infinity` and `-Infinity` are numbers, an integer may have up to `Text.maxDigits`
digits, and a name that an object holds twice has its last value. A control character inside a text
is refused, and so is a byte order mark in front. Half of a character that a text spells alone stays
in the text.
-/

namespace LayerBlend.Json

namespace Reader

/-- A blank between the pieces of a document. -/
def isSpace (c : Char) : Bool :=
  c == ' ' || c == '\t' || c == '\n' || c == '\r'

/-- The document without the blanks in front. -/
def skipSpaces (s : List Char) : List Char :=
  s.dropWhile isSpace

/-! ## Texts -/

/-- The value of a hexadecimal digit. -/
def hexDigit? (c : Char) : Option Nat :=
  if c.isDigit then some (c.toNat - '0'.toNat)
  else if 'a' ≤ c ∧ c ≤ 'f' then some (c.toNat - 'a'.toNat + 10)
  else if 'A' ≤ c ∧ c ≤ 'F' then some (c.toNat - 'A'.toNat + 10)
  else none

/-- The number written by hexadecimal digits. -/
def hexNumber? (digits : List Char) : Option Nat :=
  digits.foldlM (fun n c => (hexDigit? c).map (16 * n + ·)) 0

/-- The character number that a letter behind a backslash stands for. -/
def escape? : Char → Option Nat
  | '"' => some 0x22
  | '\\' => some 0x5c
  | '/' => some 0x2f
  | 'b' => some 0x08
  | 'f' => some 0x0c
  | 'n' => some 0x0a
  | 'r' => some 0x0d
  | 't' => some 0x09
  | _ => none

/-- The character numbers of a text behind its opening quote, and what follows the closing one. -/
def units? : List Char → Option (List Nat × List Char)
  | [] => none
  | c :: rest =>
    if c = '"' then some ([], rest)
    else if c = '\\' then
      match rest with
      | 'u' :: a :: b :: d :: e :: rest => do
        let unit ← hexNumber? [a, b, d, e]
        let (units, rest) ← units? rest
        return (unit :: units, rest)
      | letter :: rest => do
        let unit ← escape? letter
        let (units, rest) ← units? rest
        return (unit :: units, rest)
      | [] => none
    else if c.toNat < 0x20 then none
    else do
      let (units, rest) ← units? rest
      return (c.toNat :: units, rest)

/-- The first half of a character beyond the sixteen-bit numbers. -/
def isHighSurrogate (n : Nat) : Bool :=
  0xd800 ≤ n && n < 0xdc00

/-- The second half of such a character. -/
def isLowSurrogate (n : Nat) : Bool :=
  0xdc00 ≤ n && n < 0xe000

/-- The numbers with each two halves that stand next to each other joined. -/
def joinHalves : List Nat → List Nat
  | [] => []
  | [n] => [n]
  | high :: low :: rest =>
    if isHighSurrogate high && isLowSurrogate low then
      (0x10000 + (high - 0xd800) * 0x400 + (low - 0xdc00)) :: joinHalves rest
    else high :: joinHalves (low :: rest)

/-- The character of a number, and the replacement character for half of one. -/
def charOf (n : Nat) : Char :=
  if n.isValidChar then Char.ofNat n else replacement

/-- What the replacement character of a number stands for, when the number is shown by it: the half
that the number is, or itself. -/
def halfOf? (n : Nat) : Option (Option Nat) :=
  if n = replacement.toNat then some none
  else if n.isValidChar then none
  else some (some n)

/-- A text behind its opening quote, and what follows. -/
def text? (s : List Char) : Option (JsonText × List Char) :=
  (units? s).map fun (units, rest) =>
    let numbers := joinHalves units
    (.ofHalves (String.ofList (numbers.map charOf)) (numbers.filterMap halfOf?), rest)

/-! ## Numbers -/

/-- The digits in front of what follows. -/
def digits (s : List Char) : List Nat × List Char :=
  ((s.takeWhile Char.isDigit).map fun c => c.toNat - '0'.toNat, s.dropWhile Char.isDigit)

/-- The digits of a fraction behind its point, none when there is no fraction. -/
def fraction : List Char → List Nat × List Char
  | '.' :: rest =>
    match digits rest with
    | ([], _) => ([], '.' :: rest)
    | found => found
  | s => ([], s)

/-- A sign in front of what follows, read as whether it is a minus. -/
def sign : List Char → Bool × List Char
  | '-' :: rest => (true, rest)
  | '+' :: rest => (false, rest)
  | s => (false, s)

/-- An exponent, if there is one. -/
def exponent : List Char → Option Int × List Char
  | c :: rest =>
    if c = 'e' || c = 'E' then
      let (negative, unsigned) := sign rest
      match digits unsigned with
      | ([], _) => (none, c :: rest)
      | (found, rest) =>
        let size : Int := Text.ofDigits found
        (some (if negative then -size else size), rest)
    else (none, c :: rest)
  | [] => (none, [])

/-- The whole part of a numeral: a zero, or digits that do not start with one. -/
def whole? (s : List Char) : Option (List Nat × List Char) :=
  match s with
  | '0' :: rest => some ([0], rest)
  | _ =>
    match digits s with
    | ([], _) => none
    | found => some found

/-- A number without its sign, and what follows. -/
def number? (negative : Bool) (s : List Char) : Option (Json × List Char) := do
  let (whole, rest) ← whole? s
  let (places, rest) := fraction rest
  let (power, rest) := exponent rest
  if places.isEmpty && power.isNone then
    if Text.maxDigits < whole.length then none
    else
      let size : Int := Text.ofDigits whole
      return (.int (if negative then -size else size), rest)
  else
    let power : Int := power.getD 0
    let value :=
      Double.ofDecimal negative (Text.ofDigits (whole ++ places)) (power - places.length)
    return (.double value, rest)

/-! ## Values -/

/-- What follows a word, when the document starts with it. -/
def word? (word s : List Char) : Option (List Char) :=
  if word.isPrefixOf s then some (s.drop word.length) else none

/-- A constant or a number, and what follows. -/
def scalar? (s : List Char) : Option (Json × List Char) :=
  match s with
  | 'n' :: _ => (word? ['n', 'u', 'l', 'l'] s).map (.null, ·)
  | 't' :: _ => (word? ['t', 'r', 'u', 'e'] s).map (.bool true, ·)
  | 'f' :: _ => (word? ['f', 'a', 'l', 's', 'e'] s).map (.bool false, ·)
  | 'N' :: _ => (word? ['N', 'a', 'N'] s).map (.double Double.nan, ·)
  | 'I' :: _ =>
    (word? ['I', 'n', 'f', 'i', 'n', 'i', 't', 'y'] s).map (.double Double.infinity, ·)
  | '-' :: 'I' :: rest =>
    (word? ['n', 'f', 'i', 'n', 'i', 't', 'y'] rest).map (.double (-Double.infinity), ·)
  | '-' :: rest => number? true rest
  | _ => number? false s

mutual

/-- A value that the document starts with, and what follows; `fuel` bounds the number of steps. -/
def value? : Nat → List Char → Option (Json × List Char)
  | 0, _ => none
  | _ + 1, '"' :: rest => (text? rest).map fun (s, rest) => (.text s, rest)
  | fuel + 1, '[' :: rest =>
    match skipSpaces rest with
    | ']' :: rest => some (.list [], rest)
    | rest => (items? fuel rest).map fun (items, rest) => (.list items, rest)
  | fuel + 1, '{' :: rest =>
    match skipSpaces rest with
    | '}' :: rest => some (.object [], rest)
    | rest => (fields? fuel rest).map fun (fields, rest) => (.object (distinct fields), rest)
  | _ + 1, s => scalar? s

/-- One or more items and the closing bracket. -/
def items? : Nat → List Char → Option (List Json × List Char)
  | 0, _ => none
  | fuel + 1, s => do
    let (item, rest) ← value? fuel s
    match skipSpaces rest with
    | ']' :: rest => return ([item], rest)
    | ',' :: rest => do
      let (items, rest) ← items? fuel (skipSpaces rest)
      return (item :: items, rest)
    | _ => none

/-- One or more fields and the closing brace. -/
def fields? : Nat → List Char → Option (List (JsonText × Json) × List Char)
  | 0, _ => none
  | fuel + 1, s => do
    match s with
    | '"' :: rest =>
      let (name, rest) ← text? rest
      match skipSpaces rest with
      | ':' :: rest =>
        let (value, rest) ← value? fuel (skipSpaces rest)
        match skipSpaces rest with
        | '}' :: rest => return ([(name, value)], rest)
        | ',' :: rest =>
          let (fields, rest) ← fields? fuel (skipSpaces rest)
          return ((name, value) :: fields, rest)
        | _ => none
      | _ => none
    | _ => none

end

end Reader

open Reader in
/-- The value of a document. -/
def read (document : String) : Option Json := do
  let s := document.toList
  let (value, rest) ← value? (2 * s.length + 2) (skipSpaces s)
  if (skipSpaces rest).isEmpty then some value else none

end LayerBlend.Json
