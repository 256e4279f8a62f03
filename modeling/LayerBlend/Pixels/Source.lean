import LayerBlend.Pixels.View

/-!
# Pixel sources

A `PixelSource` is a buffer of pixels at a place of the document. Its rows may be padded: `stride`
is the number of bytes from the start of a row to the start of the next one, and never smaller than
a row (`row_le_stride`). A stride that is not given is inferred from the length of the buffer
(`inferStride`). Bytes that a short buffer lacks read as zero.
-/

namespace LayerBlend

/-- The number of bytes from row to row that a buffer of `length` bytes suggests: its even share
when that is a whole number of pixels and no smaller than a row, and otherwise a row. -/
def inferStride (length width height : Int) : Int :=
  if height ≤ 0 then 4 * width
  else
    let share := length / height
    if 4 * width ≤ share ∧ share % 4 = 0 then share else 4 * width

/-- An inferred stride has room for a row. -/
theorem row_le_inferStride (length width height : Int) :
    4 * width ≤ inferStride length width height := by
  simp only [inferStride]
  split
  · exact Int.le_refl _
  · split
    · next h => exact h.1
    · exact Int.le_refl _

/-- A buffer of pixels at a place of the document. -/
structure PixelSource where
  /-- The bytes of the rows. -/
  data : Bytes
  /-- The place; the first byte belongs to its corner. -/
  rect : Rect
  /-- The number of pixels that are sampled of each row. -/
  width : Int
  /-- The number of rows that are sampled. -/
  height : Int
  /-- The number of bytes from row to row. -/
  stride : Int
  /-- A row fits into the stride. -/
  row_le_stride : 4 * width ≤ stride

/-- Why a buffer is no pixel source. -/
inductive SourceFault where
  /-- The given stride is smaller than a row. -/
  | shortStride (stride width : Int)
  deriving DecidableEq, Repr

/-- The sentence that names the stride and the row. -/
def SourceFault.message : SourceFault → String
  | .shortStride stride width =>
    "stride=" ++ toString stride ++ " is smaller than a row of " ++ toString width ++ " pixels"

namespace PixelSource

/-- The source of a buffer. The sampled size is that of the rectangle unless it is given, and the
stride is inferred unless it is given. -/
def make (data : Bytes) (rect : Rect) (width? height? stride? : Option Int) :
    Except SourceFault PixelSource :=
  let width := width?.getD rect.width
  let height := height?.getD rect.height
  match stride? with
  | none =>
    .ok ⟨data, rect, width, height, inferStride data.size width height, row_le_inferStride ..⟩
  | some stride =>
    if h : 4 * width ≤ stride then .ok ⟨data, rect, width, height, stride, h⟩
    else .error (.shortStride stride width)

/-- The source of a buffer that fills its rectangle. -/
def filling (data : Bytes) (rect : Rect) : PixelSource :=
  ⟨data, rect, rect.width, rect.height, inferStride data.size rect.width rect.height,
    row_le_inferStride ..⟩

/-- The rectangle of the sampled pixels. -/
def bounds (s : PixelSource) : Except RectFault Rect :=
  Rect.ofSize s.width s.height s.rect.left s.rect.top

/-- The sampled pixels of a row, with zeros for the bytes that the buffer lacks. -/
def row (s : PixelSource) (y : Nat) : Bytes :=
  let start := s.stride.toNat * y
  let size := (4 * s.width).toNat
  let found := s.data.extract start (start + size)
  found ++ Bytes.zeros (size - found.size)

/-- The sampled rows. -/
def rows (s : PixelSource) : Array Bytes :=
  Array.ofFn fun y : Fin s.height.toNat => s.row y

/-- The rows of a viewport in which the source is shown. -/
def viewIn (s : PixelSource) (viewport : Rect) : Except RectFault (Array Bytes) :=
  s.bounds.map fun bounds => view viewport bounds s.row

end PixelSource

end LayerBlend
