import LayerBlend.Json.Text
import LayerBlend.Numeral.Double

/-!
# JSON values

A document as a tree. Integers of any size and doubles are told apart, as their numerals are, and
the fields of an object keep the order of their first appearance. `Json.isTruthy` is the reading of
a value as a condition: what is empty or zero counts as false.
-/

namespace LayerBlend

/-- A JSON value. -/
inductive Json where
  /-- The value that stands for no value. -/
  | null
  /-- A truth value. -/
  | bool (b : Bool)
  /-- A number written without point and exponent. -/
  | int (n : Int)
  /-- A number written with a point or an exponent, an infinity, or a NaN. -/
  | double (x : Float)
  /-- A text. -/
  | text (s : JsonText)
  /-- A list of values. -/
  | list (items : List Json)
  /-- Values with names. -/
  | object (fields : List (JsonText × Json))

namespace Json

instance : Inhabited Json := ⟨.null⟩

/-- The value of a field. -/
def find? (fields : List (JsonText × Json)) (name : JsonText) : Option Json :=
  (fields.find? (·.1 == name)).map Prod.snd

/-- The fields with one added at the end, or replaced where its name already stands. -/
def insert (fields : List (JsonText × Json)) (name : JsonText) (value : Json) :
    List (JsonText × Json) :=
  if fields.any (·.1 == name) then
    fields.map fun field => if field.1 == name then (name, value) else field
  else fields ++ [(name, value)]

/-- The fields in the order of their names' first appearance, each with its last value. -/
def distinct (fields : List (JsonText × Json)) : List (JsonText × Json) :=
  fields.foldl (fun kept field => insert kept field.1 field.2) []

/-- The field of a value; only objects have fields. -/
def field? (value : Json) (name : String) : Option Json :=
  match value with
  | .object fields => find? fields name
  | _ => none

/-- A value counts as true unless it is empty, zero, false or null. -/
def isTruthy : Json → Bool
  | .null => false
  | .bool b => b
  | .int n => n ≠ 0
  | .double x => !(x == 0)
  | .text s => !s.isEmpty
  | .list items => !items.isEmpty
  | .object fields => !fields.isEmpty

/-! ## Halves of characters -/

mutual

/-- What each replacement character in the texts of a value stands for, in the order in which they
are written: half of a character, or else itself. -/
def halves : Json → List (Option Nat)
  | .text s => s.halves
  | .list items => itemHalves items
  | .object fields => fieldHalves fields
  | .null | .bool _ | .int _ | .double _ => []

/-- The same of the items of a list. -/
def itemHalves : List Json → List (Option Nat)
  | [] => []
  | item :: items => item.halves ++ itemHalves items

/-- The same of the names and the values of fields. -/
def fieldHalves : List (JsonText × Json) → List (Option Nat)
  | [] => []
  | (name, item) :: fields => name.halves ++ item.halves ++ fieldHalves fields

end

/-- No text of a value has half of a character. -/
def isWhole (value : Json) : Bool :=
  !value.halves.any Option.isSome

end Json

end LayerBlend
