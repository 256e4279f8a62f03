import LayerBlend.Quantity

/-!
# Rectangles

A rectangle of whole document coordinates. The right and the bottom edge are exclusive, and a
rectangle without width or height covers no pixel. The edges are in order in every rectangle, so
the operations below have no failing case:

* `clamp` moves every edge into the bounds;
* `union` is the bounding box of two rectangles;
* `intersect` is their overlap, and the empty rectangle at the origin when there is none;
* `offset` and `relativeTo` move a rectangle.
-/

namespace LayerBlend

/-- A rectangle of whole coordinates. -/
structure Rect where
  /-- The first column. -/
  left : Int
  /-- The first row. -/
  top : Int
  /-- The column behind the last one. -/
  right : Int
  /-- The row behind the last one. -/
  bottom : Int
  /-- The vertical edges are in order. -/
  left_le_right : left ≤ right
  /-- The horizontal edges are in order. -/
  top_le_bottom : top ≤ bottom
  deriving DecidableEq

/-- Why four numbers are no rectangle. -/
inductive RectFault where
  /-- An edge is not a whole number. -/
  | edge (cause : QuantityFault)
  /-- The right edge lies in front of the left one. -/
  | rightBeforeLeft (right left : Int)
  /-- The bottom edge lies above the top one. -/
  | bottomBeforeTop (bottom top : Int)
  deriving DecidableEq, Repr

/-- The sentence that names the two edges. -/
def RectFault.message : RectFault → String
  | .edge .notANumber => "an edge is not a number"
  | .edge .infinite => "an edge is infinite"
  | .rightBeforeLeft right left =>
    "right=" ++ toString right ++ " must not be less than left=" ++ toString left
  | .bottomBeforeTop bottom top =>
    "bottom=" ++ toString bottom ++ " must not be less than top=" ++ toString top

namespace Rect

/-! ## Making rectangles -/

/-- The rectangle with the given edges. -/
def ofEdges (left top right bottom : Int) : Except RectFault Rect :=
  if h : left ≤ right then
    if h' : top ≤ bottom then .ok ⟨left, top, right, bottom, h, h'⟩
    else .error (.bottomBeforeTop bottom top)
  else .error (.rightBeforeLeft right left)

/-- The rectangle of the given size at the given corner. -/
def ofSize (width height left top : Int) : Except RectFault Rect :=
  ofEdges left top (left + width) (top + height)

/-- A whole edge. -/
def edge (q : Quantity) : Except RectFault Int :=
  q.truncate.mapError .edge

/-- The rectangle whose edges are the whole parts of four quantities. -/
def ofQuantities (left top right bottom : Quantity) : Except RectFault Rect := do
  ofEdges (← edge left) (← edge top) (← edge right) (← edge bottom)

/-- The rectangle of the given size at the given corner, from quantities. -/
def ofSizeQuantities (width height left top : Quantity) : Except RectFault Rect :=
  ofQuantities left top (left + width) (top + height)

/-- The rectangle at the origin that covers nothing. -/
def empty : Rect := ⟨0, 0, 0, 0, Int.le_refl 0, Int.le_refl 0⟩

/-- The rectangle from the origin to the given corner; a negative coordinate counts as zero. -/
def fromOrigin (right bottom : Int) : Rect :=
  ⟨0, 0, max right 0, max bottom 0, by omega, by omega⟩

/-! ## Measures -/

/-- The number of columns. -/
def width (r : Rect) : Int :=
  r.right - r.left

/-- The number of rows. -/
def height (r : Rect) : Int :=
  r.bottom - r.top

/-- A width is not negative. -/
theorem width_nonneg (r : Rect) : 0 ≤ r.width := by
  have := r.left_le_right
  simp only [width]
  omega

/-- A height is not negative. -/
theorem height_nonneg (r : Rect) : 0 ≤ r.height := by
  have := r.top_le_bottom
  simp only [height]
  omega

/-- The rectangle covers no pixel. -/
def isEmpty (r : Rect) : Bool :=
  r.width == 0 || r.height == 0

/-! ## Operations -/

/-- The rectangle with every edge moved into the bounds. -/
def clamp (r bounds : Rect) : Rect where
  left := max bounds.left (min bounds.right r.left)
  top := max bounds.top (min bounds.bottom r.top)
  right := max bounds.left (min bounds.right r.right)
  bottom := max bounds.top (min bounds.bottom r.bottom)
  left_le_right := by have := r.left_le_right; omega
  top_le_bottom := by have := r.top_le_bottom; omega

/-- The bounding box of two rectangles. -/
def union (r s : Rect) : Rect where
  left := min r.left s.left
  top := min r.top s.top
  right := max r.right s.right
  bottom := max r.bottom s.bottom
  left_le_right := by have := r.left_le_right; omega
  top_le_bottom := by have := r.top_le_bottom; omega

/-- The overlap of two rectangles. -/
def intersect (r s : Rect) : Rect :=
  if h : max r.left s.left < min r.right s.right ∧ max r.top s.top < min r.bottom s.bottom then
    ⟨max r.left s.left, max r.top s.top, min r.right s.right, min r.bottom s.bottom,
      by omega, by omega⟩
  else empty

/-- The rectangle moved by whole distances. -/
def offset (r : Rect) (dx dy : Int) : Rect where
  left := r.left + dx
  top := r.top + dy
  right := r.right + dx
  bottom := r.bottom + dy
  left_le_right := by have := r.left_le_right; omega
  top_le_bottom := by have := r.top_le_bottom; omega

/-- The rectangle in the coordinates whose origin is the corner of another. -/
def relativeTo (r origin : Rect) : Rect :=
  r.offset (-origin.left) (-origin.top)

/-- The rectangle whose edges are those of another moved by quantities. -/
def move (r : Rect) (dx dy : Quantity) : Except RectFault Rect :=
  ofQuantities (.whole r.left + dx) (.whole r.top + dy) (.whole r.right + dx)
    (.whole r.bottom + dy)

/-- The rectangle as messages show it. -/
def display (r : Rect) : String :=
  "Rect(left=" ++ toString r.left ++ ", top=" ++ toString r.top ++ ", right=" ++
    toString r.right ++ ", bottom=" ++ toString r.bottom ++ ")"

end Rect

end LayerBlend
