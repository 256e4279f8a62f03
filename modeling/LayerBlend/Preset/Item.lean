import LayerBlend.Text.Radix
import LayerBlend.Text.Whole
import LayerBlend.Workspace

/-!
# Presets

A `PresetItem` is a formula with a name, an identifier and the time of its making. Name, formula
and identifier are JSON values, since a document may hold anything in their place.

An identifier that is made here is the time in milliseconds, written in base thirty-six, and a
random part, with an underscore between them.
-/

namespace LayerBlend

/-- A formula with a name. -/
structure PresetItem where
  /-- The name. -/
  name : Json
  /-- The formula. -/
  expr : Json
  /-- The identifier. -/
  id : Json
  /-- When the preset was made, in milliseconds. -/
  createdAt : Int

namespace PresetItem

/-- The presets that a new file starts with. -/
def defaults : List (String × String) := [
  ("Normal", "[rs, gs, bs]"),
  ("Multiply", "[rb*rs, gb*gs, bb*bs]"),
  ("Screen", "[rb + rs - rb*rs, gb + gs - gb*gs, bb + bs - bb*bs]"),
  ("Overlay",
    "[rb<0.5?2*rb*rs:1-2*(1-rb)*(1-rs), gb<0.5?2*gb*gs:1-2*(1-gb)*(1-gs), " ++
      "bb<0.5?2*bb*bs:1-2*(1-bb)*(1-bs)]")]

/-- The identifier with the given time and random part. -/
def idOf (time : Int) (suffix : String) : String :=
  String.ofList (Text.Radix.writeInt 36 time) ++ "_" ++ suffix

/-- Makes an identifier. -/
def makeId : Work String := do
  let time ← Work.now
  return idOf time (← Work.drawSuffix)

/-- Makes a preset. -/
def make (name expr : Json) : Work PresetItem := do
  let id ← makeId
  return ⟨name, expr, .text id, ← Work.now⟩

/-- Makes the presets that a new file starts with. -/
def makeDefaults : Work (List PresetItem) :=
  defaults.mapM fun (name, expr) => make (.text name) (.text expr)

/-- The document entry of a preset. -/
def toJson (item : PresetItem) : Json :=
  .object [("id", item.id), ("name", item.name), ("formula", .object [("expr", item.expr)]),
    ("createdAt", .int item.createdAt)]

/-- The fault of a document with a bad entry. -/
def bad (cause : ItemFault) : Fault :=
  .document (.badItem cause)

/-- The field of an entry, which must be there. -/
def fieldOf (value : Json) (name : String) : Except Fault Json :=
  match value with
  | .object fields =>
    match Json.find? fields name with
    | some field => .ok field
    | none => .error (bad (.missingField name))
  | _ => .error (bad .notAnObject)

/-- The whole number of milliseconds that a value says. -/
def timeOf : Json → Except Fault Int
  | .bool b => .ok (if b then 1 else 0)
  | .int n => .ok n
  | .double x =>
    match (Quantity.fractional x).truncate with
    | .ok n => .ok n
    | .error .notANumber => .error (bad .notATime)
    | .error .infinite => .error .infiniteTime
  | .text (.whole s) =>
    match Text.readWhole? s.toList with
    | some n => .ok n
    | none => .error (bad .notATime)
  | .text (.halved _) | .null | .list _ | .object _ => .error (bad .notATime)

/-- A field's value, unless it is missing, empty, zero, false or null. -/
def truthy? (entry : Json) (name : String) : Option Json :=
  (entry.field? name).filter Json.isTruthy

/-- The preset of a document entry. An entry without an identifier gets a new one, and an entry
without a time gets the present. -/
def ofJson (entry : Json) : Work PresetItem := do
  let name ← Work.ofExcept (fieldOf entry "name")
  let expr ← Work.ofExcept (do fieldOf (← fieldOf entry "formula") "expr")
  let id ←
    match truthy? entry "id" with
    | some id => pure id
    | none => Json.text <$> JsonText.whole <$> makeId
  match truthy? entry "createdAt" with
  | some time => return ⟨name, expr, id, ← Work.ofExcept (timeOf time)⟩
  | none => return ⟨name, expr, id, ← Work.now⟩

end PresetItem

end LayerBlend
