import LayerBlend.Numeral.Power
import LayerBlend.Pixels.Format
import LayerBlend.Pixels.Picture

/-!
# Encodings of pictures

The bytes of a picture with alpha in the formats that leave the pixels as they are: a header of
numbers, the low byte of each first, and the components of the pixels in the order of the format.
-/

namespace LayerBlend.PictureFormat

/-! ## Numbers -/

/-- The bytes of a number, the low byte first. -/
def littleEndian (width n : Nat) : List UInt8 :=
  (List.range width).map fun k => UInt8.ofNat (n / Numeral.twoTo (8 * k))

/-- The bytes of numbers, each behind the number of its bytes. -/
def fieldBytes (fields : List (Nat × Nat)) : List UInt8 :=
  fields.flatMap fun (width, n) => littleEndian width n

/-! ## Pixels -/

/-- The given components of the pixels of a row. -/
def rowBytes (p : Picture) (components : List Nat) (y : Nat) : List UInt8 :=
  (List.range p.width).flatMap fun x =>
    components.map fun c => p.data.getD (4 * (p.width * y + x) + c) 0

/-- The given components of all pixels, from the top row to the bottom one. -/
def downward (p : Picture) (components : List Nat) : List UInt8 :=
  (List.range p.height).flatMap (rowBytes p components)

/-- The given components of all pixels, from the bottom row to the top one. -/
def upward (p : Picture) (components : List Nat) : List UInt8 :=
  (List.range p.height).reverse.flatMap (rowBytes p components)

/-- Red, green and blue. -/
def colours : List Nat := [0, 1, 2]

/-- Blue, green, red and alpha. -/
def swapped : List Nat := [2, 1, 0, 3]

/-! ## Formats -/

/-- The dots of a metre, for the ninety-six dots of an inch. -/
def dotsPerMetre : Nat := 3780

/-- The number of bytes of the header of a bitmap file. -/
def fileHeaderSize : Nat := 14

/-- The number of bytes of the header of a bitmap. -/
def bitmapHeaderSize : Nat := 40

/-- The number of bytes of the pixels of a picture with alpha. -/
def pixelSize (p : Picture) : Nat :=
  4 * (p.width * p.height)

/-- The header of a bitmap file: a mark, the size of the file, and where the pixels start. -/
def fileHeader (p : Picture) : List UInt8 :=
  let start := fileHeaderSize + bitmapHeaderSize
  "BM".toUTF8.toList ++ fieldBytes [(4, start + pixelSize p), (4, 0), (4, start)]

/-- The header of a bitmap: its own size, the sides, one plane of thirty-two bits, no packing, the
size of the pixels, the dots of a metre, and no palette. -/
def bitmapHeader (p : Picture) : List UInt8 :=
  fieldBytes [(4, bitmapHeaderSize), (4, p.width), (4, p.height), (2, 1), (2, 32), (4, 0),
    (4, pixelSize p), (4, dotsPerMetre), (4, dotsPerMetre), (4, 0), (4, 0)]

/-- The header of a pixel map: a mark, the sides, and the largest value. -/
def pixelMapHeader (p : Picture) : List UInt8 :=
  ("P6\n" ++ toString p.width ++ " " ++ toString p.height ++ "\n255\n").toUTF8.toList

/-- The bytes of a picture with alpha in a format, unless the format packs them. -/
def encode? (format : PictureFormat) (p : Picture) : Option (List UInt8) :=
  match format with
  | .packed => none
  | .bitmap => some (fileHeader p ++ bitmapHeader p ++ upward p swapped)
  | .bareBitmap => some (bitmapHeader p ++ upward p swapped)
  | .pixelMap => some (pixelMapHeader p ++ downward p colours)

end LayerBlend.PictureFormat
