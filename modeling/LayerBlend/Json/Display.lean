import LayerBlend.Json
import LayerBlend.Numeral.Notation
import LayerBlend.Text.Quoted
import LayerBlend.Text.Radix

/-!
# JSON values in messages

`Json.oneLine` writes a value in one line: texts between quotes, `None` for null, `True` and
`False`, lists between brackets and objects between braces. `Json.display` is the same, but a text
that is the whole value stands without quotes.
-/

namespace LayerBlend

namespace JsonText

/-- A text with the given halves as it stands between quotes. A half is escaped as any character is
that cannot be printed. -/
def encodeHalves (quote : Char) : List Char → List (Option Nat) → List Char
  | [], _ => []
  | c :: s, halves =>
    if c = replacement then
      match halves with
      | some half :: halves => Text.Quoted.escapeNumber half ++ encodeHalves quote s halves
      | _ => Text.Quoted.encodeChar quote c ++ encodeHalves quote s halves.tail
    else Text.Quoted.encodeChar quote c ++ encodeHalves quote s halves

/-- A text between quotes. -/
def quoted : JsonText → String
  | .whole s => Text.quoted s
  | .halved t =>
    let quote := Text.Quoted.quoteFor t.shown.toList
    String.ofList (quote :: encodeHalves quote t.shown.toList t.halves ++ [quote])

end JsonText

namespace Json

/-- How the three constants are written. -/
def constant : Option Bool → String
  | none => "None"
  | some true => "True"
  | some false => "False"

mutual

/-- A value in one line. -/
def oneLine : Json → String
  | .null => constant none
  | .bool b => constant (some b)
  | .int n => String.ofList (Text.Radix.writeInt 10 n)
  | .double x => Numeral.showExact x
  | .text s => s.quoted
  | .list items => "[" ++ String.intercalate ", " (showItems items) ++ "]"
  | .object fields => "\x7b" ++ String.intercalate ", " (showFields fields) ++ "\x7d"

/-- The items of a list. -/
def showItems : List Json → List String
  | [] => []
  | item :: items => item.oneLine :: showItems items

/-- The fields of an object. -/
def showFields : List (JsonText × Json) → List String
  | [] => []
  | (name, value) :: fields => (name.quoted ++ ": " ++ value.oneLine) :: showFields fields

end

/-- A value in one line, a text without quotes. -/
def display : Json → JsonText
  | .text s => s
  | value => value.oneLine

end Json

end LayerBlend
