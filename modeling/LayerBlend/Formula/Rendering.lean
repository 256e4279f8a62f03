import LayerBlend.Formula.Token
import LayerBlend.Text.Blank

/-!
# Tokens written as text

`render` writes tokens one after the other: a comma is followed by a space, and an operator, a
question mark and a colon stand between spaces. Runs of spaces become one space, no space stays
behind an opening mark or in front of a closing mark or a comma, and none at the ends.
-/

namespace LayerBlend

namespace Rendering

/-- A token with the spaces that belong to it. -/
def spell (t : Token) : List Char :=
  match t.kind with
  | .comma => [',', ' ']
  | .operator | .question | .colon => ' ' :: t.text.toList ++ [' ']
  | _ => t.text.toList

/-- The text with each run of spaces written as one space. -/
def joinSpaces : List Char → List Char
  | [] => []
  | c :: rest =>
    if c = ' ' ∧ rest.head? = some ' ' then joinSpaces rest else c :: joinSpaces rest

/-- A mark after which no space is written. -/
def isOpening (c : Char) : Bool :=
  c == '(' || c == '['

/-- A mark before which no space is written. -/
def isClosing (c : Char) : Bool :=
  c == ')' || c == ']' || c == ','

/-- The text without a space right behind an opening mark; `opened` says that such a mark stands in
front of the text. -/
def tightenOpening (opened : Bool) : List Char → List Char
  | [] => []
  | c :: rest =>
    if c = ' ' ∧ opened then tightenOpening false rest
    else c :: tightenOpening (isOpening c) rest

/-- The text without a space right in front of a closing mark. -/
def tightenClosing : List Char → List Char
  | [] => []
  | c :: rest =>
    if c = ' ' ∧ rest.head?.any isClosing then tightenClosing rest
    else c :: tightenClosing rest

end Rendering

open Rendering in
/-- The text of a list of tokens. -/
def render (tokens : List Token) : String :=
  String.ofList
    (Text.trim (tightenClosing (tightenOpening false (joinSpaces (tokens.flatMap spell)))))

end LayerBlend
