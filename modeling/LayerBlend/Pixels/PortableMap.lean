import LayerBlend.Pixels.Picture
import LayerBlend.Text.Whole

/-!
# Portable maps

How a picture stands in a file: a header of lines, which begins with the mark of the format and
ends with a line of its own, and then the bytes of the pixels. The lines between say how many
columns and rows there are, how many bytes a pixel has and what they mean.
-/

namespace LayerBlend.PortableMap

/-- The first line of the header. -/
def mark : String := "P7"

/-- The last line of the header. -/
def headerEnd : String := "ENDHDR"

/-- The name of a mode. -/
def modeName : PixelMode → String
  | .rgba => "RGB_ALPHA"
  | .rgb => "RGB"
  | .grey => "GRAYSCALE"
  | .greyAlpha => "GRAYSCALE_ALPHA"

/-- The lines of the header of a picture. -/
def headerLines (p : Picture) : List String := [
  mark, "WIDTH " ++ toString p.width, "HEIGHT " ++ toString p.height,
  "DEPTH " ++ toString p.mode.size, "MAXVAL 255", "TUPLTYPE " ++ modeName p.mode, headerEnd]

/-- The bytes of a picture in a file. -/
def write (p : Picture) : Bytes :=
  (String.join ((headerLines p).map (· ++ "\n"))).toUTF8.data ++ p.data

/-- The lines of a header without the last one, and the bytes behind it. The line that is being
read and the lines before it stand in reverse. -/
def cutHeader (line : List Char) (lines : List String) :
    List UInt8 → Option (List String × List UInt8)
  | [] => none
  | b :: rest =>
    let c := Char.ofNat b.toNat
    if c = '\n' then
      let text := String.ofList line.reverse
      if text = headerEnd then some (lines.reverse, rest) else cutHeader [] (text :: lines) rest
    else cutHeader (c :: line) lines rest

/-- What stands behind a name in one of the lines. -/
def field? (lines : List String) (name : String) : Option (List Char) :=
  let start := (name ++ " ").toList
  (lines.find? fun line => start.isPrefixOf line.toList).map fun line =>
    line.toList.drop start.length

/-- The number behind a name in one of the lines. -/
def number? (lines : List String) (name : String) : Option Nat := do
  let n ← Text.readWhole? (← field? lines name)
  if n < 0 then none else some n.toNat

/-- The picture that the bytes of a file hold. -/
def read? (data : Bytes) : Option Picture := do
  if !mark.toUTF8.data.isPrefixOf data then none
  else
    let (lines, pixels) ← cutHeader [] [] data.toList
    let width ← number? lines "WIDTH"
    let height ← number? lines "HEIGHT"
    let name ← field? lines "TUPLTYPE"
    let mode ← PixelMode.all.find? fun mode => (modeName mode).toList == name
    if pixels.length = width * height * mode.size && number? lines "MAXVAL" == some 255 then
      some ⟨mode, width, height, pixels.toArray⟩
    else none

end LayerBlend.PortableMap
