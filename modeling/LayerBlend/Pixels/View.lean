import LayerBlend.Rect

/-!
# Views of pixel rows

Pixels are four bytes each (red, green, blue, alpha) and lie in rows. A `View` shows the rows of a
rectangle of pixels inside a viewport: where the two overlap it has the pixels of the rectangle,
and elsewhere it is transparent black. The rows of the rectangle are given by their numbers, and are
cut and joined as whole slices.
-/

namespace LayerBlend

/-- A sequence of bytes. -/
abbrev Bytes := Array UInt8

namespace Bytes

/-- Zero bytes. -/
def zeros (count : Nat) : Bytes :=
  Array.replicate count 0

/-- The bytes of all rows. -/
def joinRows (rows : Array Bytes) : Bytes :=
  rows.foldl (· ++ ·) #[]

end Bytes

namespace View

/-- One row of a viewport, `place` being the overlap in the coordinates of the viewport and `cut`
the overlap in the coordinates of the rows. -/
def row (width : Nat) (place cut : Rect) (rowAt : Nat → Bytes) (y : Nat) : Bytes :=
  if place.top ≤ y ∧ y < place.bottom then
    let source := rowAt (y - place.top + cut.top).toNat
    Bytes.zeros (4 * place.left).toNat ++
      source.extract (4 * cut.left).toNat (4 * cut.right).toNat ++
      Bytes.zeros (4 * (width - place.right)).toNat
  else Bytes.zeros (4 * width)

end View

/-- The rows of a viewport in which the pixels of `bounds` are shown. -/
def view (viewport bounds : Rect) (rowAt : Nat → Bytes) : Array Bytes :=
  let width := viewport.width.toNat
  let overlap := viewport.intersect bounds
  let place := overlap.relativeTo viewport
  let cut := overlap.relativeTo bounds
  Array.ofFn fun y : Fin viewport.height.toNat =>
    if overlap.isEmpty then Bytes.zeros (4 * width) else View.row width place cut rowAt y

end LayerBlend
