import LayerBlend.Json.Equality
import LayerBlend.Json.Reader
import LayerBlend.Json.Writer
import LayerBlend.Preset.Item

/-!
# Documents of presets

Presets are kept and exchanged as a JSON document: an object with a version, which must count as
true, and a list of items. `write` makes such a document and `read` takes the presets from one.

`merge` brings two lists of presets together: presets with the same name and formula become one, at
the place of the first and with the contents of the last.
-/

namespace LayerBlend.PresetDocument

/-- The version of the documents that are written. -/
def version : Int := 1

/-- The document of a list of presets. -/
def toJson (items : List PresetItem) : Json :=
  .object [("version", .int version), ("items", .list (items.map PresetItem.toJson))]

/-- The text of the document of a list of presets. -/
def write (items : List PresetItem) : JsonText :=
  (toJson items).write

/-- The entries of a document, if it has a version and a list of items. -/
def entries? (document : Json) : Option (List Json) :=
  match document.field? "version", document.field? "items" with
  | some version, some (.list entries) => if version.isTruthy then some entries else none
  | _, _ => none

/-- The entries of the document that a text holds. -/
def entriesOf (text : String) : Except Fault (List Json) :=
  match Json.read text with
  | none => .error (.document .notJson)
  | some document =>
    match entries? document with
    | none => .error (.document .missingParts)
    | some entries => .ok entries

/-- The presets of the document that a text holds. -/
def read (text : String) : Work (List PresetItem) := do
  (← Work.ofExcept (entriesOf text)).mapM PresetItem.ofJson

/-! ## Merging -/

/-- Two presets have the same name and formula. -/
def sameKey (a b : PresetItem) : Bool :=
  a.name.sameKey b.name && a.expr.sameKey b.expr

/-- The presets with one added at the end, or put in the place of the one that has its name and
formula. -/
def insert (items : List PresetItem) (item : PresetItem) : List PresetItem :=
  if items.any (sameKey item) then
    items.map fun other => if sameKey item other then item else other
  else items ++ [item]

/-- The presets, those with the same name and formula become one. -/
def collapse (items : List PresetItem) : List PresetItem :=
  items.foldl insert []

/-- Name and formula of a preset can be compared. -/
def hasKey (item : PresetItem) : Bool :=
  item.name.isKey && item.expr.isKey

/-- Two lists of presets brought together. -/
def merge (stored imported : List PresetItem) : Except Fault (List PresetItem) :=
  let items := stored ++ imported
  if items.all hasKey then .ok (collapse items) else .error .notAKey

end LayerBlend.PresetDocument
