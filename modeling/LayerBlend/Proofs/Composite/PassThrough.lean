import LayerBlend.Proofs.Composite.ChannelBytes
import LayerBlend.Proofs.Composite.Mirror

/-!
# Formulas that give a layer as it is

* `Double.Stands.normalize` — clipping leaves a double alone that stands for a number up to one.
* `Engine.pixel_passThrough` — the formula of the components of one layer gives the pixel of that
  layer, byte by byte, and transparent black where its alpha is zero.
* `BlendResult.Shows` — a result shows a source as it is.
* `composite_passThrough` — what such a formula makes of two sources, unless a sampled size is
  negative.
-/

namespace LayerBlend

open Arithmetic Double

/-! ## Values that clipping leaves alone -/

namespace Double

/-- A double that stands for a number up to one is not clipped. -/
theorem Stands.normalize {x : Float} {q : ℚ} (h : Stands x q) (hq : q ≤ 1) :
    Arithmetic.normalize x = x := by
  have hzero : lessEq zero x = true := decide_eq_true ((stands_zero.le_iff h).mpr h.nonneg)
  have hone : lessEq x one = true := decide_eq_true ((h.le_iff stands_one).mpr hq)
  have hfinite : Arithmetic.isFinite x = true := h.isFinite
  rw [Arithmetic.normalize, if_pos hfinite, maximum, hzero, Bool.true_or, if_pos rfl, minimum,
    hone, Bool.true_or, if_pos rfl]

theorem Stands.orZero {x : Float} {q : ℚ} (h : Stands x q) : Arithmetic.orZero x = x :=
  if_pos h.isFinite

end Double

/-- The number that a formula reads for a component of a pixel is at most one. -/
theorem Pixel.stands_number (p : Pixel) (component : Component) :
    ∃ q ≤ 1, Stands (p.number component : Float) q := by
  have hbyte : ∀ b : UInt8, ∃ q ≤ 1, Stands (ofChannelByte b : Float) q := fun b => by
    obtain ⟨v, hv, hstands⟩ := stands_ofChannelByte b
    exact ⟨v, le_one_of_roundsTo hv, hstands⟩
  have hproduct : ∀ b a : UInt8, ∃ q ≤ 1,
      Stands (mul (ofChannelByte b) (ofChannelByte a) : Float) q := fun b a => by
    obtain ⟨v, hv, hcolor⟩ := hbyte b
    obtain ⟨w, hw, halpha⟩ := hbyte a
    have hle : v * w ≤ 1 := mul_le_one₀ hv halpha.nonneg hw
    obtain ⟨p, hp, hstands⟩ := hcolor.mul halpha (le_range (by linarith))
    have hone := hp.le (representable_natCast (n := 1) (by norm_num))
    rw [Nat.cast_one] at hone
    exact ⟨p, hone hle, hstands⟩
  cases component with
  | red => exact hproduct p.red p.alpha
  | green => exact hproduct p.green p.alpha
  | blue => exact hproduct p.blue p.alpha
  | alpha => exact hbyte p.alpha

/-- Reading and clipping the numbers of a pixel changes nothing. -/
theorem Pixel.normalize_number (p : Pixel) (component : Component) :
    Arithmetic.normalize (Arithmetic.orZero (p.number component : Float)) = p.number component ∧
      Arithmetic.normalize (p.number component : Float) = p.number component := by
  obtain ⟨q, hq, hstands⟩ := p.stands_number component
  rw [hstands.orZero, hstands.normalize hq]
  exact ⟨rfl, rfl⟩

/-! ## The formulas -/

namespace Node

/-- The formula that gives the components of one layer. -/
def passThrough (side : Side) : Node :=
  .array (Component.all.map fun component => .channel ⟨component, side⟩)

end Node

/-- The text of the formula that gives the components of one layer. -/
def passThroughText : Side → String
  | .base => "[rb, gb, bb, ab]"
  | .blend => "[rs, gs, bs, as]"

/-- The tokens of that text. -/
def passThroughTokens (side : Side) : List Token :=
  let name (component : Component) := (Channel.mk component side).name
  [⟨.leftBracket, "[", 0⟩, ⟨.identifier, name .red, 1⟩, ⟨.comma, ",", 3⟩,
    ⟨.identifier, name .green, 5⟩, ⟨.comma, ",", 7⟩, ⟨.identifier, name .blue, 9⟩,
    ⟨.comma, ",", 11⟩, ⟨.identifier, name .alpha, 13⟩, ⟨.rightBracket, "]", 15⟩]

namespace Engine

/-- The compiled formula that gives the components of one layer. -/
def passThrough (side : Side) : Engine :=
  ⟨passThroughText side, passThroughText side, .passThrough side, 4⟩

theorem compile_passThrough (side : Side) :
    compile (passThroughText side) = .ok (passThrough side) := by
  have htokens : tokenize (passThroughText side) = .ok (passThroughTokens side) := by
    cases side <;> decide +kernel
  have hexpand : expandShorthand (passThroughTokens side) = passThroughTokens side := by
    cases side <;> decide +kernel
  refine compile_eq_ok_iff.mpr ⟨passThroughTokens side, htokens, ?_⟩
  rw [hexpand]
  refine ⟨?_, rfl, ?_, rfl, ?_⟩
  · cases side <;> rfl
  · cases side <;> decide +kernel
  · cases side <;> decide +kernel

/-- The formula gives the components that it reads, clipped. -/
theorem call_passThrough (side : Side) (channels : Channels Float) :
    (passThrough side).call channels = .ok (Component.all.map fun component =>
      (channels.read ⟨component, side⟩).map Arithmetic.normalize) :=
  rfl

theorem pictureLevels_passThrough (side : Side) :
    (passThrough side).tree.pictureLevels Float ≤ nestingLimit := by
  apply Nat.le_trans (Node.levels_le_depth _)
  cases side <;> decide

end Engine

/-- The pixel of one of two layers. -/
def Side.pixel (side : Side) (base blend : Pixel) : Pixel :=
  match side with
  | .base => base
  | .blend => blend

/-- A pixel as it is, or transparent black where its alpha is zero. -/
def Pixel.visible (p : Pixel) : Pixel :=
  if p.alpha = 0 then ⟨0, 0, 0, 0⟩ else p

/-- Writing the numbers of a pixel gives its bytes back, as far as it is visible. -/
theorem Pixel.visible_eq (p : Pixel) :
    p.visible = ⟨toChannelByte (straighten (p.number .red) (p.number .alpha) : Float),
      toChannelByte (straighten (p.number .green) (p.number .alpha) : Float),
      toChannelByte (straighten (p.number .blue) (p.number .alpha) : Float),
      toChannelByte (p.number .alpha : Float)⟩ := by
  unfold visible number
  by_cases hp : p.alpha = 0
  · rw [if_pos hp, hp, toChannelByte_straighten_zero, toChannelByte_straighten_zero,
      toChannelByte_straighten_zero, toChannelByte_ofChannelByte]
  · rw [if_neg hp, toChannelByte_straighten _ hp, toChannelByte_straighten _ hp,
      toChannelByte_straighten _ hp, toChannelByte_ofChannelByte]

/-- The formula gives the pixel of the layer, as far as it is visible. -/
theorem Engine.pixel_passThrough (side : Side) (base blend : Pixel) :
    (Engine.passThrough side).pixel Float base blend = .ok (side.pixel base blend).visible := by
  have hread : ∀ component, (Pixel.channels base blend : Channels Float).read ⟨component, side⟩ =
      (Samples.single ((side.pixel base blend).number component)).map orZero := fun component => by
    cases side <;> rfl
  generalize side.pixel base blend = p at hread
  have hsingle : ∀ component,
      ((Samples.single (p.number component : Float)).map orZero).map Arithmetic.normalize =
        Samples.single (p.number component) := fun component => by
    rw [Samples.map_single, Samples.map_single, (p.normalize_number component).1]
  have hvalues : (Engine.passThrough side).call (Pixel.channels base blend : Channels Float) =
      .ok (Component.all.map fun component => Samples.single (p.number component)) := by
    rw [call_passThrough]
    simp only [hread, hsingle]
  have halpha := (p.normalize_number .alpha).2
  unfold Engine.pixel
  rw [hvalues]
  show Except.ok (Pixel.mk
    (toChannelByte (straighten (p.number .red) (Arithmetic.normalize (p.number .alpha)) : Float))
    (toChannelByte (straighten (p.number .green) (Arithmetic.normalize (p.number .alpha)) : Float))
    (toChannelByte (straighten (p.number .blue) (Arithmetic.normalize (p.number .alpha)) : Float))
    (toChannelByte (Arithmetic.normalize (p.number .alpha) : Float))) = _
  rw [halpha, p.visible_eq]

/-! ## Layers shown as they are -/

/-- The point lies in the rectangle of the sampled pixels. -/
def PixelSource.Covers (s : PixelSource) (x y : Int) : Prop :=
  ∃ bounds, s.bounds = .ok bounds ∧ bounds.Holds x y

/-- A result shows a source as it is. -/
structure BlendResult.Shows (r : BlendResult) (s : PixelSource) : Prop where
  /-- There are as many bytes as the rectangle has. -/
  size : r.data.size = 4 * (r.width * r.height)
  /-- Where the source covers the result and is not transparent, the result has its pixels. -/
  visible : ∀ x y, r.rect.Holds x y → s.Covers x y → (s.pixelAt x y).alpha ≠ 0 →
    r.pixelAt x y = s.pixelAt x y
  /-- Everywhere else the result is transparent black. -/
  blank : ∀ x y, r.rect.Holds x y → ¬ s.Covers x y ∨ (s.pixelAt x y).alpha = 0 →
    r.pixelAt x y = ⟨0, 0, 0, 0⟩

/-- Outside its rectangle a source is transparent black. -/
theorem PixelSource.pixelAt_of_not_covers {s : PixelSource} (hwidth : 0 ≤ s.width)
    (hheight : 0 ≤ s.height) {x y : Int} (h : ¬ s.Covers x y) : s.pixelAt x y = ⟨0, 0, 0, 0⟩ := by
  obtain ⟨bounds, hbounds, hleft, htop, hright, hbottom⟩ := bounds_eq_ok hwidth hheight
  have hbyte : ∀ c, s.byteAt x y c = 0 := fun c =>
    if_neg fun ⟨hl, hr, ht, hb⟩ =>
      h ⟨bounds, hbounds, by omega, by omega, by omega, by omega⟩
  unfold pixelAt
  rw [hbyte, hbyte, hbyte, hbyte]

/-- A source with a negative size cannot be viewed. -/
theorem PixelSource.viewIn_of_negative {s : PixelSource} (h : ¬(0 ≤ s.width ∧ 0 ≤ s.height))
    (viewport : Rect) : ∃ cause, s.viewIn viewport = .error cause := by
  cases hview : s.viewIn viewport with
  | error cause => exact ⟨cause, rfl⟩
  | ok rows =>
    unfold viewIn bounds Rect.ofSize Rect.ofEdges at hview
    split at hview
    · split at hview
      · omega
      · cases hview
    · cases hview

/-- A result whose pixels are those of a source, as far as they are visible, shows it. -/
theorem BlendResult.shows_of_visible {r : BlendResult} {s : PixelSource} (hwidth : 0 ≤ s.width)
    (hheight : 0 ≤ s.height) (hsize : r.data.size = 4 * (r.width * r.height))
    (h : ∀ x y, r.rect.Holds x y → r.pixelAt x y = (s.pixelAt x y).visible) : r.Shows s where
  size := hsize
  visible x y hpoint _ halpha := by
    rw [h x y hpoint, Pixel.visible, if_neg halpha]
  blank x y hpoint hblank := by
    rw [h x y hpoint]
    rcases hblank with hcovers | halpha
    · rw [PixelSource.pixelAt_of_not_covers hwidth hheight hcovers]
      rfl
    · rw [Pixel.visible, if_pos halpha]

/-- The source of one of two layers. -/
def Side.source (side : Side) (base blend : PixelSource) : PixelSource :=
  match side with
  | .base => base
  | .blend => blend

section

variable {base blend : PixelSource} {canvas : Rect}
  (hbase : (base.rect.clamp canvas).isEmpty = false)
  (hblend : (blend.rect.clamp canvas).isEmpty = false)

include hbase hblend

theorem Placement.of_eq_ok : Placement.of base.rect blend.rect canvas =
    .ok ⟨base.rect.clamp canvas, blend.rect.clamp canvas,
      (base.rect.clamp canvas).union (blend.rect.clamp canvas)⟩ := by
  rw [Placement.of_eq, hbase, hblend]
  rfl

/-- The formula of a layer shows the layer, on the bounding box of both. -/
theorem composite_shows (side : Side) (hbaseSize : 0 ≤ base.width ∧ 0 ≤ base.height)
    (hblendSize : 0 ≤ blend.width ∧ 0 ≤ blend.height) :
    ∃ result, composite Float base blend canvas (.passThrough side) = .ok result ∧
      result.rect = (base.rect.clamp canvas).union (blend.rect.clamp canvas) ∧
      result.Shows (side.source base blend) := by
  have hwell := Engine.wellFormed_of_compile (Engine.compile_passThrough side)
  obtain ⟨result, hresult, hrect, hsize, hpixels⟩ :=
    composite_eq_ok hwell hbaseSize hblendSize (Placement.of_eq_ok hbase hblend) Float
      (Engine.pictureLevels_passThrough side)
  have hsource : 0 ≤ (side.source base blend).width ∧ 0 ≤ (side.source base blend).height := by
    cases side
    · exact hbaseSize
    · exact hblendSize
  refine ⟨result, hresult, hrect, BlendResult.shows_of_visible hsource.1 hsource.2 hsize ?_⟩
  intro x y hpoint
  have hpixel := hpixels x y hpoint
  rw [Engine.pixel_passThrough] at hpixel
  cases side <;> exact (Except.ok.inj hpixel).symm

/-- Sources of which one has a negative size are refused, with one fault for every formula. -/
theorem composite_of_negative
    (hsize : ¬((0 ≤ base.width ∧ 0 ≤ base.height) ∧ 0 ≤ blend.width ∧ 0 ≤ blend.height)) :
    ∃ cause, ∀ engine, composite Float base blend canvas engine = .error (.badBounds cause) := by
  have hplace := Placement.of_eq_ok hbase hblend
  by_cases hbaseSize : 0 ≤ base.width ∧ 0 ≤ base.height
  · obtain ⟨rows, hrows, -⟩ := PixelSource.viewIn_pixel hbaseSize.1 hbaseSize.2
      ((base.rect.clamp canvas).union (blend.rect.clamp canvas))
    obtain ⟨cause, hcause⟩ := PixelSource.viewIn_of_negative (s := blend)
      (fun hblendSize => hsize ⟨hbaseSize, hblendSize⟩)
      ((base.rect.clamp canvas).union (blend.rect.clamp canvas))
    exact ⟨cause, fun engine => composite_of_blend_fault Float engine hplace hrows hcause⟩
  · obtain ⟨cause, hcause⟩ := PixelSource.viewIn_of_negative hbaseSize
      ((base.rect.clamp canvas).union (blend.rect.clamp canvas))
    exact ⟨cause, fun engine => composite_of_base_fault Float engine hplace hcause⟩

end

/-- On a canvas that both sources touch, the formula of the components of one layer shows the layer
as it is, unless a sampled size is negative: then either formula is refused. -/
theorem composite_passThrough (base blend : PixelSource) (canvas : Rect)
    (hbase : (base.rect.clamp canvas).isEmpty = false)
    (hblend : (blend.rect.clamp canvas).isEmpty = false) :
    ∃ lower upper, compile "[rb, gb, bb, ab]" = .ok lower ∧ compile "[rs, gs, bs, as]" = .ok upper ∧
      ((0 ≤ base.width ∧ 0 ≤ base.height) ∧ 0 ≤ blend.width ∧ 0 ≤ blend.height →
        ∃ below above, composite Float base blend canvas lower = .ok below ∧
          composite Float base blend canvas upper = .ok above ∧
          below.rect = (base.rect.clamp canvas).union (blend.rect.clamp canvas) ∧
          above.rect = (base.rect.clamp canvas).union (blend.rect.clamp canvas) ∧
          below.Shows base ∧ above.Shows blend) ∧
      (¬((0 ≤ base.width ∧ 0 ≤ base.height) ∧ 0 ≤ blend.width ∧ 0 ≤ blend.height) →
        ∃ cause, composite Float base blend canvas lower = .error (.badBounds cause) ∧
          composite Float base blend canvas upper = .error (.badBounds cause)) := by
  refine ⟨.passThrough .base, .passThrough .blend, Engine.compile_passThrough .base,
    Engine.compile_passThrough .blend, ?_, ?_⟩
  · rintro ⟨hbaseSize, hblendSize⟩
    obtain ⟨below, hbelow, hbelowRect, hbelowShows⟩ :=
      composite_shows hbase hblend .base hbaseSize hblendSize
    obtain ⟨above, habove, haboveRect, haboveShows⟩ :=
      composite_shows hbase hblend .blend hbaseSize hblendSize
    exact ⟨below, above, hbelow, habove, hbelowRect, haboveRect, hbelowShows, haboveShows⟩
  · intro hsize
    obtain ⟨cause, hcause⟩ := composite_of_negative hbase hblend hsize
    exact ⟨cause, hcause _, hcause _⟩

/-- A visible pixel and a transparent one of a base layer, beside a blend layer. -/
theorem composite_passThrough_partial :
    ∃ lower below, compile "[rb, gb, bb, ab]" = .ok lower ∧
      composite Float
        (.filling #[10, 20, 30, 1, 40, 50, 60, 0] ⟨0, 0, 2, 1, by decide, by decide⟩)
        (.filling #[1, 2, 3, 4] ⟨2, 0, 3, 1, by decide, by decide⟩)
        ⟨0, 0, 3, 2, by decide, by decide⟩ lower = .ok below ∧
      below.pixelAt 0 0 = ⟨10, 20, 30, 1⟩ ∧ below.pixelAt 1 0 = ⟨0, 0, 0, 0⟩ ∧
      below.pixelAt 2 0 = ⟨0, 0, 0, 0⟩ := by
  obtain ⟨lower, _, hlower, _, hshows, _⟩ := composite_passThrough
    (.filling #[10, 20, 30, 1, 40, 50, 60, 0] ⟨0, 0, 2, 1, by decide, by decide⟩)
    (.filling #[1, 2, 3, 4] ⟨2, 0, 3, 1, by decide, by decide⟩)
    ⟨0, 0, 3, 2, by decide, by decide⟩ (by decide) (by decide)
  obtain ⟨below, _, hbelow, _, hrect, _, hbase, _⟩ := hshows (by decide)
  have hholds : ∀ x : Int, (⟨0, 0, 3, 1, by decide, by decide⟩ : Rect).Holds x 0 →
      below.rect.Holds x 0 := fun x hx => by
    rw [hrect]
    exact hx
  refine ⟨lower, below, hlower, hbelow, ?_, ?_, ?_⟩
  · exact hbase.visible 0 0 (hholds 0 (by decide)) ⟨_, rfl, by decide⟩ (by decide)
  · exact hbase.blank 1 0 (hholds 1 (by decide)) (Or.inr (by decide))
  · exact hbase.blank 2 0 (hholds 2 (by decide)) (Or.inr (by decide))

/-- A source with a negative width has no result, although both sources touch the canvas. -/
theorem composite_fails_of_negative_width :
    (Rect.clamp ⟨0, 0, 1, 1, by decide, by decide⟩
      ⟨0, 0, 1, 1, by decide, by decide⟩).isEmpty = false ∧
    ∃ lower, compile "[rb, gb, bb, ab]" = .ok lower ∧
      ¬ ∃ result, composite Float
        ⟨#[], ⟨0, 0, 1, 1, by decide, by decide⟩, -1, 1, 0, by decide⟩
        (.filling #[255, 255, 255, 255] ⟨0, 0, 1, 1, by decide, by decide⟩)
        ⟨0, 0, 1, 1, by decide, by decide⟩ lower = .ok result := by
  refine ⟨by decide, .passThrough .base, Engine.compile_passThrough .base,
    fun ⟨result, hresult⟩ => ?_⟩
  have hrefused : composite Float
      ⟨#[], ⟨0, 0, 1, 1, by decide, by decide⟩, -1, 1, 0, by decide⟩
      (.filling #[255, 255, 255, 255] ⟨0, 0, 1, 1, by decide, by decide⟩)
      ⟨0, 0, 1, 1, by decide, by decide⟩ (.passThrough .base) =
        .error (.badBounds (.rightBeforeLeft (-1) 0)) :=
    composite_of_base_fault Float (.passThrough .base) rfl rfl
  rw [hrefused] at hresult
  cases hresult

end LayerBlend
