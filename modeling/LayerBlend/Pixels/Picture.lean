import LayerBlend.Pixels.Source

/-!
# Pictures

A `Picture` is what an image file holds: pixels of one to four bytes, by its mode. `toSource` gives
each pixel four bytes, a grey value standing for each of the three colours and a missing alpha
being full, and places the picture in the document.
-/

namespace LayerBlend

/-- What the bytes of a pixel mean. -/
inductive PixelMode where
  /-- Red, green, blue and alpha. -/
  | rgba
  /-- Red, green and blue. -/
  | rgb
  /-- A grey value. -/
  | grey
  /-- A grey value and alpha. -/
  | greyAlpha
  deriving DecidableEq, Repr

namespace PixelMode

/-- The modes. -/
def all : List PixelMode := [.rgba, .rgb, .grey, .greyAlpha]

/-- The short name of a mode. -/
def name : PixelMode → String
  | .rgba => "RGBA"
  | .rgb => "RGB"
  | .grey => "L"
  | .greyAlpha => "LA"

/-- The mode of a short name. -/
def ofName? (name : String) : Option PixelMode :=
  all.find? (·.name == name)

/-- The number of bytes of a pixel. -/
def size : PixelMode → Nat
  | .rgba => 4
  | .rgb => 3
  | .grey => 1
  | .greyAlpha => 2

/-- The byte of a pixel that component `c` is read from, none for a full alpha. -/
def source? (mode : PixelMode) (c : Nat) : Option Nat :=
  match mode with
  | .rgba => some c
  | .rgb => if c < 3 then some c else none
  | .grey => if c < 3 then some 0 else none
  | .greyAlpha => if c < 3 then some 0 else some 1

end PixelMode

/-- An image. -/
structure Picture where
  /-- What the bytes of a pixel mean. -/
  mode : PixelMode
  /-- The number of columns. -/
  width : Nat
  /-- The number of rows. -/
  height : Nat
  /-- The bytes of the pixels, row by row. -/
  data : Bytes
  deriving DecidableEq

namespace Picture

/-- The bytes of the picture with four bytes for each pixel. -/
def toRgba (p : Picture) : Bytes :=
  Array.ofFn fun i : Fin (4 * (p.width * p.height)) =>
    match p.mode.source? (i % 4) with
    | some c => p.data.getD (p.mode.size * (i / 4) + c) 0
    | none => 255

/-- The picture with its corner at a point of the document. -/
def toSource (p : Picture) (left top : Int) : PixelSource :=
  PixelSource.filling p.toRgba
    ⟨left, top, left + p.width, top + p.height, by omega, by omega⟩

end Picture

end LayerBlend
