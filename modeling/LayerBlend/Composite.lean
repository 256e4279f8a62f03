import LayerBlend.Formula.Engine
import LayerBlend.Pixels.Result
import LayerBlend.Pixels.Source

/-!
# Composition

`composite` blends two pixel sources with a compiled formula. Both are clamped to the canvas, and
the bounding box of the two clamped rectangles is the viewport. The formula is evaluated for every
pixel of the viewport, where a source that does not cover a pixel is transparent black.

Bytes become numbers from zero to one. The formula reads colours that are premultiplied by the alpha
of their layer, and its colours are taken as premultiplied by the alpha of the result, which is its
fourth value or else the alpha of the blend layer laid over the base layer. The result has straight
colours.
-/

namespace LayerBlend

/-- Why two sources cannot be blended. -/
inductive CompositeFault where
  /-- A source does not touch the canvas. -/
  | emptySource (base blend : Rect)
  /-- The viewport covers no pixel. -/
  | emptyUnion (viewport : Rect)
  /-- The sampled pixels of a source form no rectangle. -/
  | badBounds (cause : RectFault)
  /-- The formula has no value. -/
  | noValue (cause : EvalFault)
  deriving DecidableEq

/-- The sentence that names the empty rectangles. -/
def CompositeFault.message : CompositeFault → String
  | .emptySource base blend =>
    "Source rectangle is empty: base=" ++ base.display ++ ", blend=" ++ blend.display
  | .emptyUnion viewport => "Union rectangle is empty: " ++ viewport.display
  | .badBounds cause => cause.message
  | .noValue _ => "Formula cannot be evaluated"

/-- Where two sources meet on a canvas. -/
structure Placement where
  /-- The part of the canvas that the base source may cover. -/
  base : Rect
  /-- The part of the canvas that the blend source may cover. -/
  blend : Rect
  /-- The bounding box of both. -/
  viewport : Rect
  deriving DecidableEq

/-- The placement of two rectangles on a canvas. -/
def Placement.of (base blend canvas : Rect) : Except CompositeFault Placement :=
  let base := base.clamp canvas
  let blend := blend.clamp canvas
  if base.isEmpty || blend.isEmpty then .error (.emptySource base blend)
  else
    let viewport := (base.union blend).clamp canvas
    if viewport.isEmpty then .error (.emptyUnion viewport) else .ok ⟨base, blend, viewport⟩

/-! ## Arithmetic of colours -/

namespace Arithmetic

variable {α : Type} [Arithmetic α]

/-- The alpha of a layer laid over another. -/
def alphaOver (base blend : α) : α :=
  sub (add blend base) (mul blend base)

/-- The straight colour of a premultiplied one, which is lowered to the alpha first. Where the alpha
is not positive, the colour is zero. -/
def straighten (color alpha : α) : α :=
  if less zero alpha then div (minimum color alpha) alpha else zero

/-- The number from zero to one that a byte stands for. -/
def ofChannelByte (b : UInt8) : α :=
  div (ofByte b) fullByte

/-- The byte nearest to a number from zero to one, a half going up. -/
def toChannelByte (x : α) : UInt8 :=
  toByte (floor (add (mul x fullByte) half))

end Arithmetic

/-- The straight colours of premultiplied ones. -/
def unpremultiply {α : Type} [Arithmetic α] (color alpha : Samples α) :
    Except EvalFault (Samples α) :=
  Samples.lift (fun
    | [c, a] => Arithmetic.straighten c a
    | _ => Arithmetic.zero) [color, alpha]

/-- The bytes of numbers from zero to one. -/
def toBytes {α : Type} [Arithmetic α] (values : Samples α) : Bytes :=
  values.cells.map Arithmetic.toChannelByte

/-! ## Pixels of a viewport -/

namespace Composite

variable {α : Type} [Arithmetic α]

open Arithmetic

/-- One component of the pixels of a viewport. -/
def plane (shape : Shape) (pixels : Bytes) (c : Nat) : Samples α :=
  Samples.build shape fun i => ofChannelByte (pixels.getD (4 * i + c) 0)

/-- One component of the pixels of a viewport, premultiplied when it is a colour. -/
def premultiplied (shape : Shape) (pixels : Bytes) : Component → Samples α
  | .alpha => plane shape pixels 3
  | .red => weighted 0
  | .green => weighted 1
  | .blue => weighted 2
where
  /-- A colour multiplied by the alpha of its pixel. -/
  weighted (c : Nat) : Samples α :=
    Samples.build shape fun i =>
      mul (ofChannelByte (pixels.getD (4 * i + c) 0))
        (ofChannelByte (pixels.getD (4 * i + 3) 0))

/-- The channels of the pixels of two layers in a viewport. -/
def channels (shape : Shape) (base blend : Bytes) : Channels α
  | ⟨component, .base⟩ => some (premultiplied shape base component)
  | ⟨component, .blend⟩ => some (premultiplied shape blend component)

/-- The alpha of the result at each pixel. -/
def outputAlpha (engine : Engine) (shape : Shape) (base blend : Bytes)
    (values : List (Samples α)) : Samples α :=
  let laid := Samples.build shape fun i =>
    alphaOver (ofChannelByte (base.getD (4 * i + 3) 0)) (ofChannelByte (blend.getD (4 * i + 3) 0))
  let alpha := if engine.hasAlpha then values.getD 3 laid else laid
  (alpha.map Arithmetic.normalize).stretch shape

/-- The bytes of the result. -/
def outputBytes (shape : Shape) (alpha : Samples α) (values : List (Samples α)) : Bytes :=
  let colors := (values.take 3).map fun color => color.stretch shape
  Array.ofFn fun i : Fin (4 * shape.size) =>
    let a := alpha.cell (i / 4)
    match colors[i.val % 4]? with
    | some color => toChannelByte (straighten (color.cell (i / 4)) a)
    | none => toChannelByte a

end Composite

open Composite in
/-- The blend of two sources on a canvas, computed with numbers of the given type. -/
def composite (α : Type) [Arithmetic α] (base blend : PixelSource) (canvas : Rect)
    (engine : Engine) : Except CompositeFault BlendResult := do
  let place ← Placement.of base.rect blend.rect canvas
  let baseRows ← (base.viewIn place.viewport).mapError .badBounds
  let blendRows ← (blend.viewIn place.viewport).mapError .badBounds
  let basePixels := Bytes.joinRows baseRows
  let blendPixels := Bytes.joinRows blendRows
  let shape : Shape := [place.viewport.width.toNat, place.viewport.height.toNat]
  let values : List (Samples α) ←
    (engine.call (channels shape basePixels blendPixels)).mapError .noValue
  let alpha := outputAlpha engine shape basePixels blendPixels values
  return ⟨outputBytes shape alpha values, place.viewport⟩

end LayerBlend
