import LayerBlend.Composite
import LayerBlend.Numeral.Power

/-!
# Capacity

Rectangles may be of any size, and the memory is not. What blends and draws pixels asks here first
whether there is room for them. An array is refused when its bytes cannot be addressed, a picture
when one of its sides is beyond the numbers for sides, and either of them when it is larger than the
memory.
-/

namespace LayerBlend

/-- Why there is no room for pixels. -/
inductive CapacityFault where
  /-- The bytes of an array cannot be addressed. -/
  | unaddressable
  /-- A side or an edge of a picture is beyond the numbers for sides. -/
  | longSide
  /-- The pixels are larger than the memory. -/
  | outOfMemory
  deriving DecidableEq, Repr

/-- What there is no room for. -/
def CapacityFault.message : CapacityFault → String
  | .unaddressable => "Array is too large"
  | .longSide => "Side of a picture is too long"
  | .outOfMemory => "Out of memory"

namespace Capacity

/-- The most bytes of an array, and the greatest length of its axes. -/
def addressable : Nat := Numeral.twoTo 63 - 1

/-- The greatest length of a side of a picture. -/
def maxSide : Nat := Numeral.twoTo 31 - 1

/-- The most pixels of a row of a picture. -/
def maxRow : Nat := Numeral.twoTo 29 - 2

/-- The bytes of memory. -/
def memory : Nat := Numeral.twoTo 32

/-! ## Arrays and pictures -/

/-- There is room for an array with the given axes and the given number of bytes for a cell. An axis
of length zero leaves no cell, but the other axes are to be addressed all the same. -/
def forArray (axes : List Nat) (cell : Nat) : Except CapacityFault Unit :=
  let bytes := (axes.filter (· != 0)).foldl (· * ·) cell
  if axes.any (addressable < ·) || addressable < bytes then .error .unaddressable
  else if !axes.contains 0 && memory < bytes then .error .outOfMemory
  else .ok ()

/-- There is room for a picture with the given sides. -/
def forPicture (width height : Nat) : Except CapacityFault Unit :=
  if maxSide < width || maxSide < height then .error .longSide
  else if maxRow < width || memory < 4 * (width * height) then .error .outOfMemory
  else .ok ()

/-- The edges of a rectangle are among the numbers for sides. -/
def forEdges (r : Rect) : Except CapacityFault Unit :=
  let isFar (edge : Int) := edge < -(maxSide : Int) - 1 || (maxSide : Int) < edge
  if [r.left, r.top, r.right, r.bottom].any isFar then .error .longSide else .ok ()

/-! ## Blends -/

/-- There is room for the rows of a source. -/
def forRows (source : PixelSource) : Except CapacityFault Unit :=
  forArray [source.height.toNat, source.stride.toNat] 1

/-- There is room for a double for each component of a viewport, and for the rows of a source that
is seen in it. -/
def forView (source : PixelSource) (viewport : Rect) : Except CapacityFault Unit := do
  forArray [viewport.height.toNat, viewport.width.toNat, 4] 8
  match source.bounds with
  | .ok bounds => if !(viewport.intersect bounds).isEmpty then forRows source
  | .error _ => return

/-- There is room for the blend of two sources on a canvas, if they can be blended at all. -/
def forComposite (base blend : PixelSource) (canvas : Rect) : Except CapacityFault Unit :=
  match Placement.of base.rect blend.rect canvas with
  | .ok place => do
    forView base place.viewport
    if base.bounds.isOk then forView blend place.viewport
  | .error _ => .ok ()

/-! ## Results -/

/-- There is room for the picture of a result, if it has one. -/
def forResult (r : BlendResult) : Except CapacityFault Unit := do
  forArray [r.height, r.width, 4] 1
  if r.isFull then forPicture r.width r.height

/-- There is room for the picture of a canvas with a result on it, if there is one. -/
def forCanvas (r : BlendResult) (canvas : Rect) : Except CapacityFault Unit := do
  forPicture canvas.width.toNat canvas.height.toNat
  if !r.rect.isEmpty && r.isFull then forEdges (r.rect.relativeTo canvas)

end Capacity

end LayerBlend
