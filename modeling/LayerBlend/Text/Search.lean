/-!
# Searching text

`holds needle s` says that `needle` stands somewhere in `s`, and `lower` writes ASCII letters small.
-/

namespace LayerBlend.Text

/-- The characters of `needle` stand in a row somewhere in the text. -/
def holds (needle : List Char) : List Char → Bool
  | [] => needle.isEmpty
  | c :: rest => needle.isPrefixOf (c :: rest) || holds needle rest

/-- The text with its ASCII letters written small. -/
def lower (s : List Char) : List Char :=
  s.map Char.toLower

end LayerBlend.Text
