import LayerBlend.BlendPass
import LayerBlend.Proofs.Outcome
import LayerBlend.Proofs.Retry.Runs
import Mathlib.Tactic.Push

/-!
# What a blend pass asks of its host

* `BlendPass.Refused` lists, in order, why a pass asks nothing of its host, and `BlendPass.Ready` is
  what is known when it goes on. A pass is one or the other (`BlendPass.refused_or_ready`), and
  `BlendPass.plan_of_refused` and `BlendPass.plan_of_ready` say how it is planned.
* `BlendPass.Fills` lists the five endings of a pass whose layer is made: each stops with the first
  step that fails.
* `blendPass_of_created`, `blendPass_of_not_created` and `blendPass_of_goesOn` are what a pass does
  once it is planned, by how the attempts to make its layer end.
* `blendPass_trace` is the whole pass: what is asked of the host, in order, and how it ends.
-/

namespace LayerBlend

namespace BlendPass

/-! ## Before the host is asked to change -/

/-- No layer has an identifier. -/
def Missing (layers : List Layer) (id : Json) : Prop :=
  ∀ layer ∈ layers, layer.id.same id = false

/-- A layer is the first one with an identifier. -/
def IsFirst (layers : List Layer) (id : Json) (layer : Layer) : Prop :=
  layer.id.same id = true ∧
    ∃ before after, layers = before ++ layer :: after ∧ Missing before id

/-- Why a pass asks nothing of its host. -/
inductive Refused (host : Host) (baseId blendId : Json) (formula : String) : Fault → Prop where
  /-- The formula does not compile. -/
  | formula {cause : FormulaFault} (h : compile formula = .error cause) :
      Refused host baseId blendId formula (.formula cause)
  /-- The document cannot be measured. -/
  | canvas {engine : Engine} {fault : Fault} (hengine : compile formula = .ok engine)
      (h : host.canvas = .error fault) : Refused host baseId blendId formula fault
  /-- The layers cannot be listed. -/
  | layers {engine : Engine} {canvas : Rect} {fault : Fault}
      (hengine : compile formula = .ok engine) (hcanvas : host.canvas = .ok canvas)
      (h : host.layers = .error fault) : Refused host baseId blendId formula fault
  /-- There is no base layer. -/
  | base {engine : Engine} {canvas : Rect} {layers : List Layer}
      (hengine : compile formula = .ok engine) (hcanvas : host.canvas = .ok canvas)
      (hlayers : host.layers = .ok layers) (h : Missing layers baseId) :
      Refused host baseId blendId formula (.layerNotFound baseId)
  /-- There is a base layer but no blend layer. -/
  | blend {engine : Engine} {canvas : Rect} {layers : List Layer} {base : Layer}
      (hengine : compile formula = .ok engine) (hcanvas : host.canvas = .ok canvas)
      (hlayers : host.layers = .ok layers) (hbase : IsFirst layers baseId base)
      (h : Missing layers blendId) : Refused host baseId blendId formula (.layerNotFound blendId)
  /-- One of the layers covers nothing of the document. -/
  | empty {engine : Engine} {canvas : Rect} {layers : List Layer} {base blend : Layer}
      (hengine : compile formula = .ok engine) (hcanvas : host.canvas = .ok canvas)
      (hlayers : host.layers = .ok layers) (hbase : IsFirst layers baseId base)
      (hblend : IsFirst layers blendId blend)
      (h : (base.bounds.clamp canvas).isEmpty = true ∨ (blend.bounds.clamp canvas).isEmpty = true) :
      Refused host baseId blendId formula .emptyLayer

/-- What is known of a pass that goes on. -/
structure Ready (host : Host) (baseId blendId : Json) (formula : String) (plan : Plan) : Prop where
  /-- The formula compiles. -/
  engine : compile formula = .ok plan.engine
  /-- The document is measured. -/
  canvas : host.canvas = .ok plan.canvas
  /-- Both layers are listed, and what they cover of the document is planned for. -/
  layers : ∃ layers base blend, host.layers = .ok layers ∧
    IsFirst layers baseId base ∧ IsFirst layers blendId blend ∧
    plan.base = base.bounds.clamp plan.canvas ∧ plan.blend = blend.bounds.clamp plan.canvas
  /-- The base layer covers something. -/
  base : plan.base.isEmpty = false
  /-- The blend layer covers something. -/
  blend : plan.blend.isEmpty = false

variable {host : Host} {baseId blendId : Json} {formula : String} {fault : Fault} {plan : Plan}

/-- The first layer with an identifier is found. -/
theorem findLayer_of_isFirst {layers : List Layer} {id : Json} {layer : Layer}
    (h : IsFirst layers id layer) : findLayer layers id = .ok layer := by
  obtain ⟨hsame, before, after, rfl, hmissing⟩ := h
  have hbefore : before.find? (fun layer => layer.id.same id) = none := by
    simpa [Missing] using hmissing
  simp [findLayer, List.find?_append, hbefore, hsame]

/-- Without a layer that has the identifier none is found. -/
theorem findLayer_of_missing {layers : List Layer} {id : Json} (h : Missing layers id) :
    findLayer layers id = .error (.layerNotFound id) := by
  have hnone : layers.find? (fun layer => layer.id.same id) = none := by
    simpa [Missing] using h
  simp [findLayer, hnone]

/-- A list of layers has a first one with an identifier, or none. -/
theorem missing_or_isFirst (layers : List Layer) (id : Json) :
    Missing layers id ∨ ∃ layer, IsFirst layers id layer := by
  cases h : layers.find? fun layer => layer.id.same id with
  | none =>
    left
    simpa [Missing] using h
  | some layer =>
    obtain ⟨hsame, before, after, hlayers, hbefore⟩ := List.find?_eq_some_iff_append.mp h
    exact .inr ⟨layer, hsame, before, after, hlayers, by simpa [Missing] using hbefore⟩

/-- Planning fails with the reason why a pass is refused. -/
theorem plan_of_refused (h : Refused host baseId blendId formula fault) :
    BlendPass.plan host baseId blendId formula = .error fault := by
  cases h with
  | formula h => simp [BlendPass.plan, h]
  | canvas hengine h => simp [BlendPass.plan, hengine, h]
  | layers hengine hcanvas h => simp [BlendPass.plan, hengine, hcanvas, h]
  | base hengine hcanvas hlayers h =>
    simp [BlendPass.plan, hengine, hcanvas, hlayers, findLayer_of_missing h]
  | blend hengine hcanvas hlayers hbase h =>
    simp [BlendPass.plan, hengine, hcanvas, hlayers, findLayer_of_isFirst hbase,
      findLayer_of_missing h]
  | empty hengine hcanvas hlayers hbase hblend h =>
    simp [BlendPass.plan, hengine, hcanvas, hlayers, findLayer_of_isFirst hbase,
      findLayer_of_isFirst hblend, h, throw, throwThe, MonadExceptOf.throw]

/-- A pass that goes on is planned as it is known. -/
theorem plan_of_ready (h : Ready host baseId blendId formula plan) :
    BlendPass.plan host baseId blendId formula = .ok plan := by
  obtain ⟨layers, base, blend, hlayers, hbase, hblend, hbaseRect, hblendRect⟩ := h.layers
  simp [BlendPass.plan, h.engine, h.canvas, hlayers, findLayer_of_isFirst hbase,
    findLayer_of_isFirst hblend, pure, Except.pure, ← hbaseRect, ← hblendRect, h.base, h.blend]

/-- A pass is refused, or it goes on. -/
theorem refused_or_ready (host : Host) (baseId blendId : Json) (formula : String) :
    (∃ fault, Refused host baseId blendId formula fault) ∨
      ∃ plan, Ready host baseId blendId formula plan := by
  cases hengine : compile formula with
  | error cause => exact .inl ⟨_, .formula hengine⟩
  | ok engine =>
  cases hcanvas : host.canvas with
  | error fault => exact .inl ⟨_, .canvas hengine hcanvas⟩
  | ok canvas =>
  cases hlayers : host.layers with
  | error fault => exact .inl ⟨_, .layers hengine hcanvas hlayers⟩
  | ok layers =>
  obtain hmissing | ⟨base, hbase⟩ := missing_or_isFirst layers baseId
  · exact .inl ⟨_, .base hengine hcanvas hlayers hmissing⟩
  obtain hmissing | ⟨blend, hblend⟩ := missing_or_isFirst layers blendId
  · exact .inl ⟨_, .blend hengine hcanvas hlayers hbase hmissing⟩
  by_cases hempty : (base.bounds.clamp canvas).isEmpty = true ∨
      (blend.bounds.clamp canvas).isEmpty = true
  · exact .inl ⟨_, .empty hengine hcanvas hlayers hbase hblend hempty⟩
  · push Not at hempty
    exact .inr ⟨⟨engine, canvas, base.bounds.clamp canvas, blend.bounds.clamp canvas⟩, hengine,
      hcanvas, ⟨layers, base, blend, hlayers, hbase, hblend, rfl, rfl⟩, by simpa using hempty.1,
      by simpa using hempty.2⟩

/-! ## After the layer is made -/

/-- The endings of a pass whose layer is made: what is asked of the host, and how it ends. -/
inductive Fills (host : Host) (plan : Plan) (baseId blendId layerId : Json) :
    List HostEvent → Except Fault Unit → Prop where
  /-- The base layer cannot be read. -/
  | baseUnread {fault : Fault} (h : host.readPixels 0 baseId plan.base = .error fault) :
      Fills host plan baseId blendId layerId [.readPixels baseId plan.base] (.error fault)
  /-- The base layer is read, but the blend layer cannot be. -/
  | blendUnread {base : PixelSource} {fault : Fault}
      (hbase : host.readPixels 0 baseId plan.base = .ok base)
      (h : host.readPixels 1 blendId plan.blend = .error fault) :
      Fills host plan baseId blendId layerId
        [.readPixels baseId plan.base, .readPixels blendId plan.blend] (.error fault)
  /-- Both layers are read, but cannot be blended. -/
  | unblended {base blend : PixelSource} {cause : CompositeFault}
      (hbase : host.readPixels 0 baseId plan.base = .ok base)
      (hblend : host.readPixels 1 blendId plan.blend = .ok blend)
      (h : composite Float base blend plan.canvas plan.engine = .error cause) :
      Fills host plan baseId blendId layerId
        [.readPixels baseId plan.base, .readPixels blendId plan.blend]
        (.error (.composite cause))
  /-- Both layers are read and blended, and the result is written with this outcome. -/
  | written {base blend : PixelSource} {result : BlendResult}
      (hbase : host.readPixels 0 baseId plan.base = .ok base)
      (hblend : host.readPixels 1 blendId plan.blend = .ok blend)
      (h : composite Float base blend plan.canvas plan.engine = .ok result) :
      Fills host plan baseId blendId layerId
        [.readPixels baseId plan.base, .readPixels blendId plan.blend,
          .writePixels layerId result]
        (host.writePixels layerId result)

/-- A made layer is filled with one of the endings. -/
theorem fills_fill (host : Host) (plan : Plan) (baseId blendId layerId : Json) :
    Fills host plan baseId blendId layerId (fill host plan baseId blendId layerId).1
      (fill host plan baseId blendId layerId).2 := by
  cases hbase : host.readPixels 0 baseId plan.base with
  | error fault =>
    simp only [fill, hbase]
    exact .baseUnread hbase
  | ok base =>
  cases hblend : host.readPixels 1 blendId plan.blend with
  | error fault =>
    simp only [fill, hbase, hblend]
    exact .blendUnread hbase hblend
  | ok blend =>
  cases hresult : composite Float base blend plan.canvas plan.engine with
  | error cause =>
    simp only [fill, hbase, hblend, hresult]
    exact .unblended hbase hblend hresult
  | ok result =>
    simp only [fill, hbase, hblend, hresult]
    exact .written hbase hblend hresult

end BlendPass

open BlendPass RetryPolicy

variable {host : Host} {baseId blendId : Json} {formula name : String} {plan : Plan}
  {policy : RetryPolicy Fault} {wait : Nat → Float} {patience : Nat}

/-- A pass whose attempts to make a layer stop with a failure ends with it. -/
theorem blendPass_of_not_created (hplan : BlendPass.plan host baseId blendId formula = .ok plan)
    {fault : Fault} {failed : List (RetriedFailure Fault)}
    (hrun : policy.run host.createLayer patience = some ⟨.error fault, failed⟩) :
    blendPass host baseId blendId formula name policy patience =
      ⟨.error fault, failedCreations name failed ++ [.createLayer name],
        failed.map (RetriedFailure.warning Fault.message)⟩ := by
  simp [blendPass, hplan, hrun, creationEvents, RetryRun.warnings]

/-- A pass whose attempts to make a layer stop with one goes on to fill it. -/
theorem blendPass_of_created (name : String)
    (hplan : BlendPass.plan host baseId blendId formula = .ok plan) {layerId : Json}
    {failed : List (RetriedFailure Fault)}
    (hrun : policy.run host.createLayer patience = some ⟨.ok layerId, failed⟩) :
    ∃ events done, Fills host plan baseId blendId layerId events done ∧
      blendPass host baseId blendId formula name policy patience =
        ⟨done.map fun _ => layerId, failedCreations name failed ++ .createLayer name :: events,
          failed.map (RetriedFailure.warning Fault.message)⟩ := by
  refine ⟨_, _, fills_fill host plan baseId blendId layerId, ?_⟩
  simp [blendPass, hplan, hrun, creationEvents, RetryRun.warnings]

/-- A pass whose attempts to make a layer do not stop asks for nothing else. -/
theorem blendPass_of_goesOn (hplan : BlendPass.plan host baseId blendId formula = .ok plan)
    (hrun : policy.run host.createLayer patience = none) :
    blendPass host baseId blendId formula name policy patience =
      ⟨.error .outOfPatience, failedCreations name (policy.retried host.createLayer patience),
        (policy.retried host.createLayer patience).map (RetriedFailure.warning Fault.message)⟩ := by
  simp [blendPass, hplan, hrun]

end LayerBlend
