import LayerBlend.Composite
import LayerBlend.Proofs.Formula.Elementwise
import LayerBlend.Proofs.Formula.Pictures
import LayerBlend.Proofs.Pixels.Viewing

/-!
# Composition pixel by pixel

* `Pixel` — the four bytes of a pixel; `PixelSource.pixelAt`, `BlendResult.pixelAt` — the pixel of a
  source or of a result at a point of the document.
* `Engine.pixel base blend` — the blend of two pixels: each colour is premultiplied by its own
  alpha, the formula is called on eight numbers, and its values are read back as bytes.
* `Composite.bytes_pixel` — the bytes that a viewport is given are, pixel by pixel, the blends of
  the pixels of its two layers.
* `Placement.of_eq` — two sources are placed on a canvas unless one of them does not touch it, and
  the viewport is the bounding box of what they cover of it.
* `composite_eq_ok`, `composite_eq_tooDeep` — two sources that touch the canvas are blended pixel by
  pixel by a formula whose evaluation over pictures stays within the nesting limit, and by no other.
* `composite_pixelwise` — a blend fails when a source does not touch the canvas or the formula nests
  too deeply for pictures, and is otherwise the blend of the pixels at each point of its rectangle.
-/

namespace LayerBlend

/-- The four bytes of a pixel. -/
structure Pixel where
  /-- Red. -/
  red : UInt8
  /-- Green. -/
  green : UInt8
  /-- Blue. -/
  blue : UInt8
  /-- Alpha. -/
  alpha : UInt8
  deriving DecidableEq, Repr

open Arithmetic

namespace Pixel

variable {α : Type} [Arithmetic α]

/-- The number that a formula reads for a component of a pixel: a colour is premultiplied by the
alpha. -/
def number (p : Pixel) : Component → α
  | .red => mul (ofChannelByte p.red) (ofChannelByte p.alpha)
  | .green => mul (ofChannelByte p.green) (ofChannelByte p.alpha)
  | .blue => mul (ofChannelByte p.blue) (ofChannelByte p.alpha)
  | .alpha => ofChannelByte p.alpha

/-- The eight numbers of two pixels. -/
def channels (base blend : Pixel) : Channels α
  | ⟨component, .base⟩ => some (Samples.single (base.number component))
  | ⟨component, .blend⟩ => some (Samples.single (blend.number component))

end Pixel

/-- The blend of two pixels. The alpha is the fourth value of the formula, or else the alpha of the
blend layer over the base layer; the colours are straightened with it. -/
def Engine.pixel (α : Type) [Arithmetic α] (engine : Engine) (base blend : Pixel) :
    Except EvalFault Pixel := do
  let values : List (Samples α) ← engine.call (Pixel.channels base blend)
  let value (k : Nat) : α := (values.getD k (Samples.single zero)).cell 0
  let laid : α := alphaOver (ofChannelByte base.alpha) (ofChannelByte blend.alpha)
  let alpha := Arithmetic.normalize (if engine.hasAlpha then value 3 else laid)
  let color (k : Nat) : UInt8 := toChannelByte (straighten (value k) alpha)
  return ⟨color 0, color 1, color 2, toChannelByte alpha⟩

/-- The pixel at a place of a buffer. -/
def Bytes.pixel (bytes : Bytes) (i : Nat) : Pixel :=
  ⟨bytes.getD (4 * i) 0, bytes.getD (4 * i + 1) 0, bytes.getD (4 * i + 2) 0,
    bytes.getD (4 * i + 3) 0⟩

/-- A pixel of a buffer, from its four bytes. -/
theorem Bytes.pixel_of_getD {bytes : Bytes} {i : Nat} {f : Nat → UInt8}
    (h : ∀ c < 4, bytes.getD (4 * i + c) 0 = f c) : bytes.pixel i = ⟨f 0, f 1, f 2, f 3⟩ := by
  have hred := h 0 (by decide)
  rw [Nat.add_zero] at hred
  unfold pixel
  rw [hred, h 1 (by decide), h 2 (by decide), h 3 (by decide)]

/-- The pixel of a source at a point of the document. -/
def PixelSource.pixelAt (s : PixelSource) (x y : Int) : Pixel :=
  ⟨s.byteAt x y 0, s.byteAt x y 1, s.byteAt x y 2, s.byteAt x y 3⟩

/-- The pixel of a result at a point of the document. -/
def BlendResult.pixelAt (r : BlendResult) (x y : Int) : Pixel :=
  r.data.pixel ((y - r.rect.top) * r.rect.width + (x - r.rect.left)).toNat

namespace Composite

variable {α : Type} [Arithmetic α] {S : Shape} {p : Nat}

/-! ## What the formula reads -/

/-- A component of the pixels of a viewport is that of each pixel. -/
theorem premultiplied_represents (S : Shape) (pixels : Bytes) (component : Component) :
    (premultiplied S pixels component : Samples α).Represents S fun p =>
      (pixels.pixel p).number component := by
  cases component with
  | red => exact Samples.represents_build S _
  | green => exact Samples.represents_build S _
  | blue => exact Samples.represents_build S _
  | alpha => exact Samples.represents_build S _

theorem uniform_channels (S : Shape) (base blend : Bytes) :
    (channels S base blend : Channels α).Uniform S := by
  rintro ⟨component, side⟩ block h
  cases side with
  | base =>
    cases h
    exact (premultiplied_represents S base component).1
  | blend =>
    cases h
    exact (premultiplied_represents S blend component).1

theorem painted_channels (hS : S ≠ []) (base blend : Bytes) :
    (channels S base blend : Channels α).Painted S := by
  refine ⟨hS, ?_⟩
  rintro ⟨component, side⟩
  cases side <;> cases component <;> exact ⟨_, rfl, rfl⟩

/-- What a formula reads for a component of the pixels of a viewport at a place is what it reads for
the pixel there. -/
theorem read_premultiplied (pixels : Bytes) (component : Component) (hp : p < S.size) :
    ((premultiplied S pixels component : Samples α).map orZero).read S p =
      ((Samples.single ((pixels.pixel p).number component)).map orZero).read [] 0 := by
  obtain ⟨hfits, hread⟩ := premultiplied_represents (α := α) S pixels component
  rw [hfits.read_map orZero hp, hread p hp,
    (Samples.fits_single [] _).read_map orZero Nat.one_pos, Samples.read_single rfl,
    Samples.cell_single]

/-- At each place of a viewport a formula reads the eight numbers of the two pixels there. -/
theorem place_channels (base blend : Bytes) (hp : p < S.size) :
    (channels S base blend : Channels α).place S p =
      (Pixel.channels (base.pixel p) (blend.pixel p)).place [] 0 := by
  funext ⟨component, side⟩
  cases side with
  | base => exact read_premultiplied base component hp
  | blend => exact read_premultiplied blend component hp

/-! ## What becomes of its values -/

/-- The alpha of the result at a place, from the values that are picked there. -/
theorem cell_outputAlpha (base blend : Bytes) {engine : Engine} {values : List (Samples α)}
    (hlength : values.length = engine.arity) (hfits : ∀ block ∈ values, block.Fits S)
    (hp : p < S.size) :
    (outputAlpha engine S base blend values).cell p =
      Arithmetic.normalize (if engine.hasAlpha
        then ((values.map (Samples.pick S p)).getD 3 (Samples.single zero)).cell 0
        else alphaOver (ofChannelByte (base.pixel p).alpha)
          (ofChannelByte (blend.pixel p).alpha)) := by
  unfold outputAlpha
  dsimp only
  by_cases halpha : engine.hasAlpha
  · have hthree : 3 < values.length := by
      rw [hlength, show engine.arity = 4 from beq_iff_eq.mp halpha]
      decide
    have hvalue : (values.map (Samples.pick S p)).getD 3 (Samples.single zero) =
        Samples.pick S p values[3] := by
      rw [List.getD_eq_getElem?_getD, List.getElem?_map, List.getElem?_eq_getElem hthree]
      rfl
    rw [if_pos halpha, if_pos halpha, hvalue, Samples.cell_stretch hp,
      List.getD_eq_getElem?_getD, List.getElem?_eq_getElem hthree]
    exact (hfits _ (List.getElem_mem hthree)).read_map _ hp
  · have hlaid := Samples.represents_build S fun i => alphaOver
      (ofChannelByte (base.getD (4 * i + 3) 0)) (ofChannelByte (blend.getD (4 * i + 3) 0) : α)
    rw [if_neg halpha, if_neg halpha, Samples.cell_stretch hp, hlaid.1.read_map _ hp, hlaid.2 p hp]
    rfl

/-- A byte of the result, from the values that are picked at its pixel. -/
theorem getD_outputBytes (alpha : Samples α) (values : List (Samples α)) (hp : p < S.size)
    {c : Nat} (hc : c < 4) :
    (outputBytes S alpha values).getD (4 * p + c) 0 =
      match (values.take 3)[c]? with
      | some color => toChannelByte (straighten (color.read S p) (alpha.cell p))
      | none => toChannelByte (alpha.cell p) := by
  have hdiv : (4 * p + c) / 4 = p := by omega
  have hmod : (4 * p + c) % 4 = c := by omega
  unfold outputBytes
  rw [Array.getD_eq_getD_getElem?, Array.getElem?_ofFn, dif_pos (by omega)]
  simp only [hdiv, hmod, List.getElem?_map, Option.getD_some]
  cases (values.take 3)[c]? with
  | none => rfl
  | some color =>
    show toChannelByte (straighten ((color.stretch S).cell p) (alpha.cell p)) = _
    rw [Samples.cell_stretch hp]

/-- A pixel of the result, from the three colours and the alpha there. -/
theorem pixel_outputBytes (alpha red green blue : Samples α) (rest : List (Samples α))
    (hp : p < S.size) :
    (outputBytes S alpha (red :: green :: blue :: rest)).pixel p =
      ⟨toChannelByte (straighten (red.read S p) (alpha.cell p)),
        toChannelByte (straighten (green.read S p) (alpha.cell p)),
        toChannelByte (straighten (blue.read S p) (alpha.cell p)),
        toChannelByte (alpha.cell p)⟩ := by
  have hpixel := Bytes.pixel_of_getD fun c (hc : c < 4) =>
    getD_outputBytes alpha (red :: green :: blue :: rest) hp hc
  exact hpixel

omit [Arithmetic α] in
/-- A well-formed formula has three values for the colours, and then others or none. -/
theorem exists_colors {engine : Engine} (h : engine.WellFormed) {values : List (Samples α)}
    (hlength : values.length = engine.arity) :
    ∃ red green blue rest, values = red :: green :: blue :: rest := by
  match values, hlength with
  | red :: green :: blue :: rest, _ => exact ⟨red, green, blue, rest, rfl⟩
  | [], hshort | [_], hshort | [_, _], hshort =>
    rcases h.arity with harity | harity <;> rw [harity] at hshort <;> cases hshort

/-- Within the nesting limit, the bytes that a viewport is given are, pixel by pixel, the blends of
the pixels of its two layers. -/
theorem bytes_pixel {engine : Engine} (h : engine.WellFormed) {S : Shape} (hS : S ≠ [])
    (base blend : Bytes) :
    ∃ values : List (Samples α),
      engine.call (channels S base blend) =
        within Engine.nestingLimit (engine.tree.pictureLevels α) (.ok values) ∧
      (engine.tree.pictureLevels α ≤ Engine.nestingLimit → ∀ p < S.size,
        engine.pixel α (base.pixel p) (blend.pixel p) =
          .ok ((outputBytes S (outputAlpha engine S base blend values) values).pixel p)) := by
  have hpicture := uniform_channels (α := α) S base blend
  have hlevels := Node.levels_eq_pictureLevels (painted_channels (α := α) hS base blend)
    h.arraysPlaced h.callsFit
  obtain ⟨values, hvalues, hlength, hrep⟩ := h.call_represents hpicture
  rw [hlevels] at hvalues
  refine ⟨values, hvalues, fun hlimit p hp => ?_⟩
  have huniform : (Pixel.channels (base.pixel p) (blend.pixel p) : Channels α).Uniform [] := by
    rintro ⟨component, side⟩ block hblock
    cases side <;> cases hblock <;> exact Samples.fits_single [] _
  -- the evaluation for one pixel nests no deeper than the one for the picture
  have hsingle : engine.tree.levels (Pixel.channels (base.pixel p) (blend.pixel p) : Channels α) ≤
      Engine.nestingLimit := by
    refine Nat.le_trans ?_ (hlevels ▸ hlimit)
    exact Node.levels_le_of_decides (Channels.decides_of_place hpicture hp huniform
      (place_channels base blend hp).symm) h.arraysPlaced h.callsFit
  obtain ⟨picked, hpicked, _, hprep⟩ := h.call_represents huniform
  rw [within_of_le hsingle] at hpicked
  have heq : picked = values.map (Samples.pick S p) :=
    hrep.eq_map_pick hp hprep (by rw [place_channels base blend hp])
  have halpha := cell_outputAlpha base blend hlength hrep.1 hp
  obtain ⟨red, green, blue, rest, rfl⟩ := exists_colors h hlength
  rw [pixel_outputBytes _ red green blue rest hp, halpha]
  unfold Engine.pixel
  rw [hpicked, heq]
  rfl

end Composite

/-! ## The viewport -/

/-- Two rectangles are placed on a canvas unless one of them does not touch it. -/
theorem Placement.of_eq (base blend canvas : Rect) :
    Placement.of base blend canvas =
      if (base.clamp canvas).isEmpty || (blend.clamp canvas).isEmpty then
        .error (.emptySource (base.clamp canvas) (blend.clamp canvas))
      else .ok ⟨base.clamp canvas, blend.clamp canvas,
        (base.clamp canvas).union (blend.clamp canvas)⟩ := by
  unfold Placement.of
  dsimp only
  have hinside := (Rect.inside_clamp base canvas).union (Rect.inside_clamp blend canvas)
  rw [Rect.clamp_of_inside hinside]
  cases hbase : (base.clamp canvas).isEmpty with
  | true => rfl
  | false =>
    rw [Rect.isEmpty_union hbase]
    rfl

/-- The view of a source has its pixel at each point of the viewport. -/
theorem PixelSource.viewIn_pixel {s : PixelSource} (hwidth : 0 ≤ s.width) (hheight : 0 ≤ s.height)
    (viewport : Rect) :
    ∃ rows, s.viewIn viewport = .ok rows ∧ ∀ x y, x < viewport.width.toNat →
      y < viewport.height.toNat →
        (Bytes.joinRows rows).pixel (viewport.width.toNat * y + x) =
          s.pixelAt (viewport.left + x) (viewport.top + y) := by
  obtain ⟨rows, hrows, hbytes⟩ := viewIn_getD hwidth hheight viewport
  refine ⟨rows, hrows, fun x y hx hy => ?_⟩
  exact Bytes.pixel_of_getD fun c hc => hbytes x y c hx hy hc

/-- The pixel of a result, from the column and the line of the point. -/
theorem BlendResult.pixelAt_offsets (data : Bytes) (rect : Rect) (column line : Nat) :
    BlendResult.pixelAt ⟨data, rect⟩ (rect.left + column) (rect.top + line) =
      data.pixel (rect.width.toNat * line + column) := by
  have hwidth : ((rect.width.toNat : Nat) : Int) = rect.width :=
    Int.toNat_of_nonneg rect.width_nonneg
  have hindex : ((rect.top + line - rect.top) * rect.width +
      (rect.left + column - rect.left)).toNat = rect.width.toNat * line + column := by
    rw [show rect.top + line - rect.top = (line : Int) by omega,
      show rect.left + column - rect.left = (column : Int) by omega, ← hwidth,
      ← Int.natCast_mul, ← Int.natCast_add, Int.toNat_natCast, Int.toNat_natCast, Nat.mul_comm]
  unfold pixelAt
  rw [hindex]

/-- What two sources with sampled sizes that are not negative, and a viewport for them, are blended
to: the values of the formula for their pixels, laid out as bytes. -/
theorem composite_eq (α : Type) [Arithmetic α] (engine : Engine) {base blend : PixelSource}
    {canvas : Rect} {place : Placement}
    (hplace : Placement.of base.rect blend.rect canvas = .ok place)
    {baseRows blendRows : Array Bytes} (hbase : base.viewIn place.viewport = .ok baseRows)
    (hblend : blend.viewIn place.viewport = .ok blendRows) :
    let shape : Shape := [place.viewport.width.toNat, place.viewport.height.toNat]
    let basePixels := Bytes.joinRows baseRows
    let blendPixels := Bytes.joinRows blendRows
    composite α base blend canvas engine =
      ((engine.call (Composite.channels shape basePixels blendPixels)).mapError
        CompositeFault.noValue).map fun values : List (Samples α) =>
          ⟨Composite.outputBytes shape
            (Composite.outputAlpha engine shape basePixels blendPixels values) values,
            place.viewport⟩ := by
  intro shape basePixels blendPixels
  unfold composite
  rw [hplace]
  show ((base.viewIn place.viewport).mapError CompositeFault.badBounds >>= _) = _
  rw [hbase]
  show ((blend.viewIn place.viewport).mapError CompositeFault.badBounds >>= _) = _
  rw [hblend]
  show ((engine.call (Composite.channels shape basePixels blendPixels)).mapError
    CompositeFault.noValue >>= _) = _
  cases engine.call (Composite.channels (α := α) shape basePixels blendPixels) <;> rfl

section Blended

variable {engine : Engine} (h : engine.WellFormed) {base blend : PixelSource}
  (hbase : 0 ≤ base.width ∧ 0 ≤ base.height) (hblend : 0 ≤ blend.width ∧ 0 ≤ blend.height)
  {canvas : Rect} {place : Placement}
  (hplace : Placement.of base.rect blend.rect canvas = .ok place)

include h hbase hblend hplace

/-- Two sources that touch the canvas are blended pixel by pixel, by a formula that stays within the
nesting limit over pictures. -/
theorem composite_eq_ok (α : Type) [Arithmetic α]
    (hlimit : engine.tree.pictureLevels α ≤ Engine.nestingLimit) :
    ∃ result, composite α base blend canvas engine = .ok result ∧ result.rect = place.viewport ∧
      result.data.size = 4 * (result.width * result.height) ∧
      ∀ x y, result.rect.Holds x y →
        engine.pixel α (base.pixelAt x y) (blend.pixelAt x y) = .ok (result.pixelAt x y) := by
  obtain ⟨baseRows, hbaseRows, hbasePixel⟩ :=
    PixelSource.viewIn_pixel hbase.1 hbase.2 place.viewport
  obtain ⟨blendRows, hblendRows, hblendPixel⟩ :=
    PixelSource.viewIn_pixel hblend.1 hblend.2 place.viewport
  let shape : Shape := [place.viewport.width.toNat, place.viewport.height.toNat]
  let baseBytes := Bytes.joinRows baseRows
  let blendBytes := Bytes.joinRows blendRows
  obtain ⟨values, hvalues, hpixel⟩ := Composite.bytes_pixel (α := α) h
    (List.cons_ne_nil _ _ : shape ≠ []) baseBytes blendBytes
  rw [within_of_le hlimit] at hvalues
  have hresult : composite α base blend canvas engine = .ok
      ⟨Composite.outputBytes shape
        (Composite.outputAlpha engine shape baseBytes blendBytes values) values,
        place.viewport⟩ := by
    rw [composite_eq α engine hplace hbaseRows hblendRows, hvalues]
    rfl
  refine ⟨_, hresult, rfl, ?_, fun x y hpoint => ?_⟩
  · unfold Composite.outputBytes
    rw [Array.size_ofFn]
    show 4 * (_ * (_ * 1)) = _
    rw [Nat.mul_one]
    rfl
  · have hviewport : place.viewport.Holds x y := hpoint
    obtain ⟨column, line, rfl, rfl, hcolumn, hline⟩ := hviewport.exists_offsets
    have hlt : place.viewport.width.toNat * line + column < shape.size := by
      show _ < place.viewport.width.toNat * (place.viewport.height.toNat * 1)
      rw [Nat.mul_one]
      have := Nat.mul_le_mul_left place.viewport.width.toNat (Nat.succ_le_of_lt hline)
      rw [Nat.mul_succ] at this
      omega
    have hblended := hpixel hlimit _ hlt
    rw [hbasePixel column line hcolumn hline, hblendPixel column line hcolumn hline] at hblended
    rw [hblended, BlendResult.pixelAt_offsets]

/-- A formula that nests too deeply over pictures blends no sources at all. -/
theorem composite_eq_tooDeep (α : Type) [Arithmetic α]
    (hlimit : Engine.nestingLimit < engine.tree.pictureLevels α) :
    composite α base blend canvas engine = .error (.noValue .tooDeep) := by
  obtain ⟨baseRows, hbaseRows, -⟩ := PixelSource.viewIn_pixel hbase.1 hbase.2 place.viewport
  obtain ⟨blendRows, hblendRows, -⟩ := PixelSource.viewIn_pixel hblend.1 hblend.2 place.viewport
  obtain ⟨values, hvalues, -⟩ := Composite.bytes_pixel (α := α) h
    (List.cons_ne_nil place.viewport.width.toNat [place.viewport.height.toNat])
    (Bytes.joinRows baseRows) (Bytes.joinRows blendRows)
  rw [composite_eq α engine hplace hbaseRows hblendRows, hvalues, within_of_lt hlimit]
  rfl

end Blended

/-- The blend of two sources fails when one of them does not touch the canvas. Otherwise it is the
blend of their pixels at each point of the bounding box of what they cover of the canvas, if the
evaluation of the formula over pictures stays within the nesting limit; if not, it fails for
nesting. -/
theorem composite_pixelwise (α : Type) [Arithmetic α] {text : String} {engine : Engine}
    (h : compile text = .ok engine) (base blend : PixelSource) (canvas : Rect)
    (hbase : 0 ≤ base.width ∧ 0 ≤ base.height) (hblend : 0 ≤ blend.width ∧ 0 ≤ blend.height) :
    (((base.rect.clamp canvas).width = 0 ∨ (base.rect.clamp canvas).height = 0) ∨
        ((blend.rect.clamp canvas).width = 0 ∨ (blend.rect.clamp canvas).height = 0) →
      composite α base blend canvas engine =
        .error (.emptySource (base.rect.clamp canvas) (blend.rect.clamp canvas))) ∧
    (¬(((base.rect.clamp canvas).width = 0 ∨ (base.rect.clamp canvas).height = 0) ∨
        ((blend.rect.clamp canvas).width = 0 ∨ (blend.rect.clamp canvas).height = 0)) →
      (engine.tree.pictureLevels α ≤ Engine.nestingLimit →
        ∃ result, composite α base blend canvas engine = .ok result ∧
          result.rect = (base.rect.clamp canvas).union (blend.rect.clamp canvas) ∧
          result.rect.Inside canvas ∧ result.data.size = 4 * (result.width * result.height) ∧
          ∀ x y, result.rect.Holds x y →
            engine.pixel α (base.pixelAt x y) (blend.pixelAt x y) = .ok (result.pixelAt x y)) ∧
      (Engine.nestingLimit < engine.tree.pictureLevels α →
        composite α base blend canvas engine = .error (.noValue .tooDeep))) := by
  have hwell := Engine.wellFormed_of_compile h
  have hplace := Placement.of_eq base.rect blend.rect canvas
  rw [← Rect.isEmpty_iff, ← Rect.isEmpty_iff, ← Bool.or_eq_true]
  refine ⟨fun hempty => ?_, fun hfull => ⟨fun hlimit => ?_, fun hlimit => ?_⟩⟩
  · rw [if_pos hempty] at hplace
    unfold composite
    rw [hplace]
    rfl
  · rw [if_neg hfull] at hplace
    obtain ⟨result, hresult, hrect, hsize, hpixels⟩ :=
      composite_eq_ok hwell hbase hblend hplace α hlimit
    refine ⟨result, hresult, hrect, ?_, hsize, hpixels⟩
    rw [hrect]
    exact (Rect.inside_clamp _ _).union (Rect.inside_clamp _ _)
  · rw [if_neg hfull] at hplace
    exact composite_eq_tooDeep hwell hbase hblend hplace α hlimit

/-- A buffer that is too short under a padded one that sticks out of the canvas, blended by a
formula and by one that nests too deeply. -/
theorem composite_pixelwise_short_buffer :
    let base : PixelSource :=
      ⟨#[10, 20, 30, 255, 40], ⟨0, 0, 2, 1, by decide, by decide⟩, 2, 1, 8, by decide⟩
    let blend : PixelSource := ⟨#[1, 2, 3, 4, 5, 6, 7, 8, 0, 0, 0, 0, 9, 10, 11, 12],
      ⟨1, -1, 3, 1, by decide, by decide⟩, 2, 2, 12, by decide⟩
    let canvas : Rect := ⟨0, 0, 3, 2, by decide, by decide⟩
    ∃ engine result other, compile "[rb, gs, 0.5]" = .ok engine ∧
      composite Float base blend canvas engine = .ok result ∧
      result.rect = ⟨0, 0, 3, 1, by decide, by decide⟩ ∧ result.data.size = 12 ∧
      compile (longSum 600) = .ok other ∧
      composite Float base blend canvas other = .error (.noValue .tooDeep) := by
  intro base blend canvas
  obtain ⟨engine, h, hlimit⟩ : ∃ engine, compile "[rb, gs, 0.5]" = .ok engine ∧
      engine.tree.pictureLevels Float ≤ Engine.nestingLimit :=
    exists_eq_ok_and (by decide +kernel)
  obtain ⟨other, hother, -, hdeep⟩ := compile_longSum
  obtain ⟨-, hblended⟩ := composite_pixelwise Float h base blend canvas (by decide) (by decide)
  obtain ⟨result, hresult, hrect, -, hsize, -⟩ := (hblended (by decide)).1 hlimit
  obtain ⟨-, hfails⟩ := composite_pixelwise Float hother base blend canvas (by decide) (by decide)
  refine ⟨engine, result, other, h, hresult, hrect.trans (by decide), ?_, hother, ?_⟩
  · rw [hsize, BlendResult.width, BlendResult.height, hrect]
    decide
  · exact (hfails (by decide)).2 hdeep

end LayerBlend
