import LayerBlend.Proofs.Arithmetic.Commutativity
import LayerBlend.Proofs.Composite.PerPixel
import LayerBlend.Proofs.Formula.Mirror
import LayerBlend.Proofs.Rect.Algebra

/-!
# Blending with the layers exchanged

Neither layer is special: when two sources change places and the layers are exchanged in the text of
the formula, the blend is the same.

* `Arithmetic.alphaOver_comm`: what alpha the layers have together does not depend on which is
  which, as where they meet does not.
* `Composite.call_mirror`, `Composite.outputAlpha_mirror`: a formula and its mirrored one have the
  same values, and the same alpha.
* `SameBlend` says that two blends end the same, and `composite_mirror` that exchanging the layers
  gives such blends, of a formula that does not nest too deeply. A negative size is refused in
  either order.
-/

namespace LayerBlend

/-- The alpha of two layers does not depend on which is laid over the other. -/
theorem Arithmetic.alphaOver_comm (base blend : Float) :
    alphaOver base blend = alphaOver blend base := by
  show (blend + base) - blend * base = (base + blend) - base * blend
  rw [Double.add_comm, Double.mul_comm]

namespace Composite

variable {α : Type} [Arithmetic α]

/-- A channel of two layers is the mirrored channel of the layers exchanged. -/
theorem read_channels_mirror (shape : Shape) (base blend : Bytes) {c d : Channel}
    (h : IsMirror c d) :
    (channels (α := α) shape base blend).read c = (channels shape blend base).read d := by
  obtain rfl : d = c.mirror := h
  obtain ⟨component, side⟩ := c
  cases side <;> rfl

/-- A formula has the values of the mirrored one for the layers exchanged. -/
theorem call_mirror {engine other : Engine} (h : engine.tree.Like IsMirror other.tree)
    (shape : Shape) (base blend : Bytes) :
    engine.call (channels (α := α) shape base blend) = other.call (channels shape blend base) :=
  Engine.call_eq_of_like (fun _ _ => read_channels_mirror shape base blend) h

/-- The alpha of a blend does not depend on which layer is which. -/
theorem outputAlpha_mirror {engine other : Engine} (h : other.arity = engine.arity) (shape : Shape)
    (base blend : Bytes) (values : List (Samples Float)) :
    outputAlpha engine shape base blend values = outputAlpha other shape blend base values := by
  unfold outputAlpha Engine.hasAlpha
  rw [h]
  simp only [Arithmetic.alphaOver_comm]

end Composite

/-! ## Blends -/

/-- Two blends of layers in either order end the same: with one result, or because one of the layers
does not touch the canvas. -/
inductive SameBlend :
    Except CompositeFault BlendResult → Except CompositeFault BlendResult → Prop where
  /-- They have the same result. -/
  | result (result : BlendResult) : SameBlend (.ok result) (.ok result)
  /-- A layer does not touch the canvas. -/
  | empty (base blend : Rect) :
      SameBlend (.error (.emptySource base blend)) (.error (.emptySource blend base))

section

variable (α : Type) [Arithmetic α] {base blend : PixelSource} {canvas : Rect} {place : Placement}

/-- A base layer whose sampled size is no rectangle is refused. -/
theorem composite_of_base_fault (engine : Engine)
    (hplace : Placement.of base.rect blend.rect canvas = .ok place) {cause : RectFault}
    (hbase : base.viewIn place.viewport = .error cause) :
    composite α base blend canvas engine = .error (.badBounds cause) := by
  simp [composite, hplace, hbase]

/-- A blend layer whose sampled size is no rectangle is refused. -/
theorem composite_of_blend_fault (engine : Engine)
    (hplace : Placement.of base.rect blend.rect canvas = .ok place) {rows : Array Bytes}
    {cause : RectFault} (hbase : base.viewIn place.viewport = .ok rows)
    (hblend : blend.viewIn place.viewport = .error cause) :
    composite α base blend canvas engine = .error (.badBounds cause) := by
  simp [composite, hplace, hbase, hblend]

end

/-- A source that cannot be viewed has a negative size. -/
theorem PixelSource.negative_of_viewIn_error {s : PixelSource} {viewport : Rect} {cause : RectFault}
    (h : s.viewIn viewport = .error cause) : s.width < 0 ∨ s.height < 0 := by
  by_contra hsize
  simp only [not_or, Int.not_lt] at hsize
  obtain ⟨rows, hrows, -⟩ := viewIn_pixel hsize.1 hsize.2 viewport
  cases hrows.symm.trans h

/-- Blends with the layers exchanged end the same, or both find a negative size, when the formula
does not nest too deeply. -/
theorem composite_sameBlend {engine other : Engine} (hengine : engine.WellFormed)
    (hlike : engine.tree.Like IsMirror other.tree) (harity : other.arity = engine.arity)
    {base blend : PixelSource} {canvas : Rect}
    (hnesting : composite Float base blend canvas engine ≠ .error (.noValue .tooDeep)) :
    SameBlend (composite Float base blend canvas engine)
        (composite Float blend base canvas other) ∨
      (base.width < 0 ∨ base.height < 0 ∨ blend.width < 0 ∨ blend.height < 0) ∧
        ∃ cause cause', composite Float base blend canvas engine = .error (.badBounds cause) ∧
          composite Float blend base canvas other = .error (.badBounds cause') := by
  have hplace := Placement.of_eq base.rect blend.rect canvas
  have hmirror := Placement.of_eq blend.rect base.rect canvas
  rw [Bool.or_comm, Rect.union_comm] at hmirror
  by_cases hempty : ((base.rect.clamp canvas).isEmpty || (blend.rect.clamp canvas).isEmpty) = true
  · rw [if_pos hempty] at hplace hmirror
    left
    have hone : composite Float base blend canvas engine =
        .error (.emptySource (base.rect.clamp canvas) (blend.rect.clamp canvas)) := by
      simp [composite, hplace]
    have hother : composite Float blend base canvas other =
        .error (.emptySource (blend.rect.clamp canvas) (base.rect.clamp canvas)) := by
      simp [composite, hmirror]
    rw [hone, hother]
    exact .empty _ _
  · rw [if_neg hempty] at hplace hmirror
    generalize hviewport : (base.rect.clamp canvas).union (blend.rect.clamp canvas) = viewport
      at hplace hmirror
    cases hbase : base.viewIn viewport with
    | error cause =>
      have hnegative := PixelSource.negative_of_viewIn_error hbase
      refine .inr ⟨by omega, cause, ?_⟩
      cases hblend : blend.viewIn viewport with
      | error cause' =>
        exact ⟨cause', composite_of_base_fault Float engine hplace hbase,
          composite_of_base_fault Float other hmirror hblend⟩
      | ok others =>
        exact ⟨cause, composite_of_base_fault Float engine hplace hbase,
          composite_of_blend_fault Float other hmirror hblend hbase⟩
    | ok rows =>
    cases hblend : blend.viewIn viewport with
    | error cause =>
      have hnegative := PixelSource.negative_of_viewIn_error hblend
      exact .inr ⟨by omega, cause, cause, composite_of_blend_fault Float engine hplace hbase hblend,
        composite_of_base_fault Float other hmirror hblend⟩
    | ok others =>
      left
      have hone := composite_eq Float engine hplace hbase hblend
      have hother := composite_eq Float other hmirror hblend hbase
      dsimp only at hone hother
      rw [← Composite.call_mirror hlike] at hother
      obtain ⟨values, hvalues, -⟩ := Composite.bytes_pixel (α := Float) hengine
        (List.cons_ne_nil viewport.width.toNat [viewport.height.toNat]) (Bytes.joinRows rows)
        (Bytes.joinRows others)
      rw [hvalues] at hone hother
      by_cases hlevels : engine.tree.pictureLevels Float ≤ Engine.nestingLimit
      · rw [within_of_le hlevels] at hone hother
        rw [hone, hother]
        simp only [Composite.outputAlpha_mirror harity]
        exact .result _
      · rw [within_of_lt (Nat.not_le.mp hlevels)] at hone
        exact absurd hone hnesting

/-- Exchanging the layers in the text of a formula keeps whether it compiles, and its arity.
Blending two layers in the other order with the mirrored formula gives the same result, or finds
that one of them does not touch the canvas as before, when the blend does not nest too deeply. Only
where a sampled size is negative is there neither: then both orders refuse it. -/
theorem composite_mirror (text : String) :
    (∀ n, (∃ engine, compile text = .ok engine ∧ engine.arity = n) ↔
      ∃ other, compile (mirrorText text) = .ok other ∧ other.arity = n) ∧
    ∀ engine other, compile text = .ok engine → compile (mirrorText text) = .ok other →
      ∀ (base blend : PixelSource) (canvas : Rect),
        composite Float base blend canvas engine ≠ .error (.noValue .tooDeep) →
        SameBlend (composite Float base blend canvas engine)
            (composite Float blend base canvas other) ∨
          (base.width < 0 ∨ base.height < 0 ∨ blend.width < 0 ∨ blend.height < 0) ∧
            ∃ cause cause', composite Float base blend canvas engine = .error (.badBounds cause) ∧
              composite Float blend base canvas other = .error (.badBounds cause') := by
  constructor
  · intro n
    constructor
    · rintro ⟨engine, hengine, rfl⟩
      obtain ⟨other, hother, _, harity⟩ := compile_mirrorText hengine
      exact ⟨other, hother, harity⟩
    · rintro ⟨other, hother, rfl⟩
      obtain ⟨engine, hengine, _, harity⟩ := compile_mirrorText hother
      rw [mirrorText_mirrorText] at hengine
      exact ⟨engine, hengine, harity⟩
  · intro engine other hengine hother base blend canvas hnesting
    obtain ⟨mirrored, hmirrored, hlike, harity⟩ := compile_mirrorText hengine
    cases hother.symm.trans hmirrored
    exact composite_sameBlend (Engine.wellFormed_of_compile hengine) hlike harity hnesting

/-- A mirrored formula with a shorthand, on layers that overlap in part. -/
theorem composite_mirror_shorthand :
    mirrorText "mix(B, T, as) > rb1 ? 2rb : B" = "mix(T, B, ab) > rb1 ? 2rs : T" ∧
    let base : PixelSource :=
      .filling #[10, 20, 30, 255, 40, 50, 60, 128] ⟨0, 0, 2, 1, by decide, by decide⟩
    let blend : PixelSource := .filling #[1, 2, 3, 4] ⟨1, 0, 2, 1, by decide, by decide⟩
    let canvas : Rect := ⟨0, 0, 3, 2, by decide, by decide⟩
    ∃ engine other result, compile "B > 0.5 ? T : max(B, as)" = .ok engine ∧
      compile "T > 0.5 ? B : max(T, ab)" = .ok other ∧
      composite Float base blend canvas engine = .ok result ∧
      composite Float blend base canvas other = .ok result := by
  refine ⟨by decide +kernel, ?_⟩
  intro base blend canvas
  obtain ⟨engine, hengine, hlimit⟩ : ∃ engine, compile "B > 0.5 ? T : max(B, as)" = .ok engine ∧
      engine.tree.pictureLevels Float ≤ Engine.nestingLimit :=
    exists_eq_ok_and (by decide +kernel)
  obtain ⟨other, hother⟩ : ∃ other, compile "T > 0.5 ? B : max(T, ab)" = .ok other :=
    exists_eq_ok (by decide +kernel)
  have hmirror : mirrorText "B > 0.5 ? T : max(B, as)" = "T > 0.5 ? B : max(T, ab)" := by
    decide +kernel
  obtain ⟨place, hplace⟩ : ∃ place, Placement.of base.rect blend.rect canvas = .ok place :=
    exists_eq_ok (by decide)
  obtain ⟨result, hresult, -⟩ := composite_eq_ok (Engine.wellFormed_of_compile hengine)
    (by decide) (by decide) hplace Float hlimit
  have hnesting : composite Float base blend canvas engine ≠ .error (.noValue .tooDeep) := by
    rw [hresult]
    simp
  have hmirrored := hother
  rw [← hmirror] at hmirrored
  have hsame := ((composite_mirror "B > 0.5 ? T : max(B, as)").2 engine other hengine hmirrored
    base blend canvas hnesting).resolve_right fun hnegative => absurd hnegative.1 (by decide)
  rw [hresult] at hsame
  refine ⟨engine, other, result, hengine, hother, hresult, ?_⟩
  generalize composite Float blend base canvas other = outcome at hsame
  cases hsame
  rfl

/-- With a negative width neither order has a result, and neither finds a layer off the canvas. -/
theorem not_sameBlend_of_negative_width :
    ∃ engine other, compile "[rb, gb, bb]" = .ok engine ∧
      compile (mirrorText "[rb, gb, bb]") = .ok other ∧
      ¬ SameBlend
        (composite Float
          ⟨#[], ⟨0, 0, 1, 1, by decide, by decide⟩, -1, 1, 0, by decide⟩
          (.filling #[255, 255, 255, 255] ⟨0, 0, 1, 1, by decide, by decide⟩)
          ⟨0, 0, 1, 1, by decide, by decide⟩ engine)
        (composite Float
          (.filling #[255, 255, 255, 255] ⟨0, 0, 1, 1, by decide, by decide⟩)
          ⟨#[], ⟨0, 0, 1, 1, by decide, by decide⟩, -1, 1, 0, by decide⟩
          ⟨0, 0, 1, 1, by decide, by decide⟩ other) := by
  obtain ⟨engine, hengine⟩ : ∃ engine, compile "[rb, gb, bb]" = .ok engine :=
    exists_eq_ok (by decide +kernel)
  obtain ⟨other, hother, _, _⟩ := compile_mirrorText hengine
  refine ⟨engine, other, hengine, hother, fun h => ?_⟩
  have hrefused : composite Float
      ⟨#[], ⟨0, 0, 1, 1, by decide, by decide⟩, -1, 1, 0, by decide⟩
      (.filling #[255, 255, 255, 255] ⟨0, 0, 1, 1, by decide, by decide⟩)
      ⟨0, 0, 1, 1, by decide, by decide⟩ engine = .error (.badBounds (.rightBeforeLeft (-1) 0)) :=
    composite_of_base_fault Float engine rfl rfl
  rw [hrefused] at h
  cases h

end LayerBlend
