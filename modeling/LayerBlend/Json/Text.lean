/-!
# Texts of documents

A character beyond the sixteen-bit numbers is spelled in two halves, and a document may spell one
of them alone. A `JsonText` is a text as any other, or one in which such halves stand
(`HalvedText`). A document with such a text can be read, but no file can hold it.
-/

namespace LayerBlend

/-- The character that is shown in the place of a half. -/
def replacement : Char := '\ufffd'

/-- A text in which halves of characters stand. -/
structure HalvedText where
  /-- The text with the replacement character in the place of each half. -/
  shown : String
  /-- What each replacement character of it stands for: a half, or else itself. -/
  halves : List (Option Nat)
  /-- There is a half. -/
  isHalved : halves.any Option.isSome = true
  deriving DecidableEq

/-- A text of a document. -/
inductive JsonText where
  /-- A text of whole characters. -/
  | whole (s : String)
  /-- A text in which halves of characters stand. -/
  | halved (t : HalvedText)
  deriving DecidableEq

namespace JsonText

instance : Coe String JsonText := ⟨.whole⟩

/-- The text that is shown, when its replacement characters stand for the given halves. -/
def ofHalves (shown : String) (halves : List (Option Nat)) : JsonText :=
  if h : halves.any Option.isSome = true then .halved ⟨shown, halves, h⟩ else .whole shown

/-- The text with the replacement character in the place of each half. -/
def shown : JsonText → String
  | .whole s => s
  | .halved t => t.shown

/-- What each replacement character that is shown stands for: a half, or else itself. -/
def halves : JsonText → List (Option Nat)
  | .whole s => (s.toList.filter (· == replacement)).map fun _ => none
  | .halved t => t.halves

/-- There is no half in the text. -/
def isWhole : JsonText → Bool
  | .whole _ => true
  | .halved _ => false

/-- There is nothing in the text. -/
def isEmpty : JsonText → Bool
  | .whole s => s.isEmpty
  | .halved _ => false

end JsonText

end LayerBlend
