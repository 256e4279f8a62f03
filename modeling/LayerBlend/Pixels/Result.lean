import LayerBlend.Pixels.Picture

/-!
# Results of a blend

A `BlendResult` is a tightly packed buffer of pixels and the rectangle of the document that it
belongs to. It can be taken as a picture of its own size (`toPicture?`) or be shown on a canvas at
its place (`onCanvas?`); both need as many bytes as the rectangle has.
-/

namespace LayerBlend

/-- Packed pixels and the place to write them to. -/
structure BlendResult where
  /-- The bytes of the pixels, row by row. -/
  data : Bytes
  /-- The place. -/
  rect : Rect

namespace BlendResult

/-- The number of columns. -/
def width (r : BlendResult) : Nat :=
  r.rect.width.toNat

/-- The number of rows. -/
def height (r : BlendResult) : Nat :=
  r.rect.height.toNat

/-- The pixels of a row. -/
def row (r : BlendResult) (y : Nat) : Bytes :=
  r.data.extract (4 * r.width * y) (4 * r.width * (y + 1))

/-- The rows of the pixels. -/
def rows (r : BlendResult) : Array Bytes :=
  Array.ofFn fun y : Fin r.height => r.row y

/-- There are as many bytes as the rectangle has. -/
def isFull (r : BlendResult) : Bool :=
  r.data.size == 4 * (r.width * r.height)

/-- The picture of the result alone. -/
def toPicture? (r : BlendResult) : Option Picture :=
  if r.isFull then some ⟨.rgba, r.width, r.height, r.data⟩ else none

/-- The picture of a canvas that shows the result at its place. -/
def onCanvas? (r : BlendResult) (canvas : Rect) : Option Picture :=
  if r.rect.isEmpty || r.isFull then
    some ⟨.rgba, canvas.width.toNat, canvas.height.toNat,
      Bytes.joinRows (view canvas r.rect r.row)⟩
  else none

end BlendResult

end LayerBlend
