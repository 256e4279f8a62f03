import LayerBlend.Json.Display
import LayerBlend.Json.Equality

/-!
# Registries

A `Registry` keeps values under keys in the order in which they were registered. A key is taken only
once, and lists and objects are no keys.
-/

namespace LayerBlend

/-- Values under keys, in the order of registration. -/
structure Registry (α : Type) where
  /-- The keys and their values. -/
  entries : List (Json × α)

/-- Why a value cannot be registered. -/
inductive RegistryFault where
  /-- The key is taken. -/
  | duplicate (key : Json)
  /-- The key is a list or an object. -/
  | notAKey (key : Json)

/-- The sentence that names the key. -/
def RegistryFault.message : RegistryFault → String
  | .duplicate key => "Duplicate registry key: " ++ key.oneLine
  | .notAKey key => "Not a registry key: " ++ key.oneLine

namespace Registry

variable {α : Type}

/-- The registry without values. -/
def empty : Registry α := ⟨[]⟩

/-- The keys in the order of registration. -/
def keys (r : Registry α) : List Json :=
  r.entries.map Prod.fst

/-- The registry with a value under one more key. -/
def register (r : Registry α) (key : Json) (value : α) : Except RegistryFault (Registry α) :=
  if !key.isKey then .error (.notAKey key)
  else if r.keys.any key.sameKey then .error (.duplicate key)
  else .ok ⟨r.entries ++ [(key, value)]⟩

/-- The attributes that a registered value gets: its key under the name of the attribute, if the
registry marks its values with one. -/
def attributes (mark : Option String) (key : Json) : List (String × Json) :=
  match mark with
  | some name => if name.isEmpty then [] else [(name, key)]
  | none => []

end Registry

end LayerBlend
