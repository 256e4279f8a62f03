import LayerBlend.Json
import LayerBlend.Numeral.Notation
import LayerBlend.Text.Radix

/-!
# Writing JSON

`Json.write` lays a document out over several lines: each item and each field stands on a line of
its own, two spaces further in than the value that holds it, and an empty list or object is written
as its two brackets. In texts only the quote, the backslash and the control characters are escaped,
and so a text in which halves of characters stand makes the document such a text.
-/

namespace LayerBlend.Json

namespace Writer

/-- One character of a text as it stands between the quotes. -/
def escape (c : Char) : List Char :=
  match c with
  | '"' => ['\\', '"']
  | '\\' => ['\\', '\\']
  | '\n' => ['\\', 'n']
  | '\r' => ['\\', 'r']
  | '\t' => ['\\', 't']
  | '\x08' => ['\\', 'b']
  | '\x0c' => ['\\', 'f']
  | c =>
    if c.toNat < 0x20 then ['\\', 'u'] ++ Text.Radix.writePadded 16 4 c.toNat else [c]

/-- A text between quotes. -/
def text (s : List Char) : List Char :=
  '"' :: s.flatMap escape ++ ['"']

/-- A double with the fewest digits that read back. -/
def double (x : Float) : List Char :=
  if x.isNaN then ['N', 'a', 'N']
  else if x == Double.infinity then ['I', 'n', 'f', 'i', 'n', 'i', 't', 'y']
  else if x == -Double.infinity then ['-', 'I', 'n', 'f', 'i', 'n', 'i', 't', 'y']
  else (Numeral.showExact x).toList

/-- A new line at a depth of nesting. -/
def newLine (depth : Nat) : List Char :=
  '\n' :: List.replicate (2 * depth) ' '

mutual

/-- A value that stands at a depth of nesting, with the replacement character in the place of each
half of a character. -/
def value (depth : Nat) : Json → List Char
  | .null => ['n', 'u', 'l', 'l']
  | .bool true => ['t', 'r', 'u', 'e']
  | .bool false => ['f', 'a', 'l', 's', 'e']
  | .int n => Text.Radix.writeInt 10 n
  | .double x => double x
  | .text s => text s.shown.toList
  | .list [] => ['[', ']']
  | .list (item :: items) =>
    '[' :: newLine (depth + 1) ++ value (depth + 1) item ++ moreItems (depth + 1) items ++
      newLine depth ++ [']']
  | .object [] => ['{', '}']
  | .object ((name, item) :: fields) =>
    '{' :: newLine (depth + 1) ++ text name.shown.toList ++ [':', ' '] ++ value (depth + 1) item ++
      moreFields (depth + 1) fields ++ newLine depth ++ ['}']

/-- The items behind the first one of a list. -/
def moreItems (depth : Nat) : List Json → List Char
  | [] => []
  | item :: items => ',' :: newLine depth ++ value depth item ++ moreItems depth items

/-- The fields behind the first one of an object. -/
def moreFields (depth : Nat) : List (JsonText × Json) → List Char
  | [] => []
  | (name, item) :: fields =>
    ',' :: newLine depth ++ text name.shown.toList ++ [':', ' '] ++ value depth item ++
      moreFields depth fields

end

end Writer

/-- The text of a document. -/
def write (document : Json) : JsonText :=
  .ofHalves (String.ofList (Writer.value 0 document)) document.halves

end LayerBlend.Json
