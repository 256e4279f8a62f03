import LayerBlend.Fault
import LayerBlend.Json.Equality

/-!
# Blend passes

A `Host` is a document with layers that can be read and written. A blend pass blends two of its
layers with a formula into a new layer:

* the formula is compiled, and both layers are looked up and clamped to the canvas, before anything
  is asked of the host that could change it;
* the new layer is made, as often as the policy says when the host is busy;
* the pixels of both layers are read, blended, and written into the new layer.

The report of a pass holds its result and everything that was asked of the host, in order.
-/

namespace LayerBlend

/-- A layer as its host lists it. -/
structure Layer where
  /-- The identifier. -/
  id : Json
  /-- The name. -/
  name : String
  /-- The rectangle that it covers. -/
  bounds : Rect

/-- A document with layers. A host may answer differently each time: attempts to make a layer and
readings of pixels are numbered from zero. -/
structure Host where
  /-- The rectangle of the document. -/
  canvas : Except Fault Rect
  /-- The layers. -/
  layers : Except Fault (List Layer)
  /-- The identifier of a new layer, by attempt. -/
  createLayer : Nat → Except Fault Json
  /-- The pixels of a layer inside a rectangle, by reading. -/
  readPixels : Nat → Json → Rect → Except Fault PixelSource
  /-- Writes a result into a layer. -/
  writePixels : Json → BlendResult → Except Fault Unit

/-- Something that is asked of a host, or a wait between two attempts. -/
inductive HostEvent where
  /-- A new layer of this name. -/
  | createLayer (name : String)
  /-- A wait. -/
  | wait (seconds : Float)
  /-- The pixels of a layer inside a rectangle. -/
  | readPixels (id : Json) (rect : Rect)
  /-- A result to be written into a layer. -/
  | writePixels (id : Json) (result : BlendResult)

/-- What a blend pass did. -/
structure PassReport where
  /-- The identifier of the new layer, or why there is none. -/
  result : Except Fault Json
  /-- What was asked of the host. -/
  events : List HostEvent
  /-- The warnings about attempts that failed. -/
  log : List LogEntry

namespace BlendPass

/-- The name of the new layer, unless it is chosen otherwise. -/
def resultName : String := "Custom Blend Result"

/-- The wait after a failed attempt to make a layer, unless it is chosen otherwise. -/
def defaultBackoff : Backoff := .fixed 0.6

/-- The number of attempts to make a layer, unless it is chosen otherwise. -/
def defaultLimit : Nat := 3

/-- When to try again to make a layer, unless it is chosen otherwise: when the host is busy. -/
def defaultPolicy : RetryPolicy Fault :=
  .ofBackoff (some defaultLimit) (by simp [defaultLimit]) defaultBackoff .endlessWait
    Fault.isHostConflict

/-- The layer with an identifier. -/
def findLayer (layers : List Layer) (id : Json) : Except Fault Layer :=
  match layers.find? fun layer => layer.id.same id with
  | some layer => .ok layer
  | none => .error (.layerNotFound id)

/-- What is known before a host is asked to change. -/
structure Plan where
  /-- The compiled formula. -/
  engine : Engine
  /-- The rectangle of the document. -/
  canvas : Rect
  /-- The part of the document that the base layer covers. -/
  base : Rect
  /-- The part of the document that the blend layer covers. -/
  blend : Rect

/-- The plan of a pass. -/
def plan (host : Host) (baseId blendId : Json) (formula : String) : Except Fault Plan := do
  let engine ← (compile formula).mapError .formula
  let canvas ← host.canvas
  let layers ← host.layers
  let base := (← findLayer layers baseId).bounds.clamp canvas
  let blend := (← findLayer layers blendId).bounds.clamp canvas
  if base.isEmpty || blend.isEmpty then throw .emptyLayer
  return ⟨engine, canvas, base, blend⟩

/-- What is asked of the host by attempts to make a layer that fail and are tried again. -/
def failedCreations (name : String) (retried : List (RetriedFailure Fault)) : List HostEvent :=
  retried.flatMap fun failed => [.createLayer name, .wait failed.seconds]

/-- What is asked of the host by a run of attempts to make a layer. -/
def creationEvents {β : Type} (name : String) (run : RetryRun Fault β) : List HostEvent :=
  failedCreations name run.retried ++ [.createLayer name]

/-- The part of a pass behind the making of a layer: what is asked of the host, and how it ends. -/
def fill (host : Host) (plan : Plan) (baseId blendId layerId : Json) :
    List HostEvent × Except Fault Unit :=
  let readBase := .readPixels baseId plan.base
  let readBlend := .readPixels blendId plan.blend
  match host.readPixels 0 baseId plan.base with
  | .error fault => ([readBase], .error fault)
  | .ok base =>
    match host.readPixels 1 blendId plan.blend with
    | .error fault => ([readBase, readBlend], .error fault)
    | .ok blend =>
      match composite Float base blend plan.canvas plan.engine with
      | .error cause => ([readBase, readBlend], .error (.composite cause))
      | .ok result =>
        ([readBase, readBlend, .writePixels layerId result], host.writePixels layerId result)

end BlendPass

open BlendPass in
/-- The blend of two layers of a host into a new layer. At most `patience` attempts are made to
make the layer. -/
def blendPass (host : Host) (baseId blendId : Json) (formula name : String)
    (policy : RetryPolicy Fault) (patience : Nat) : PassReport :=
  match plan host baseId blendId formula with
  | .error fault => ⟨.error fault, [], []⟩
  | .ok plan =>
    match policy.run host.createLayer patience with
    | none =>
      let retried := policy.retried host.createLayer patience
      ⟨.error .outOfPatience, failedCreations name retried,
        retried.map (RetriedFailure.warning Fault.message)⟩
    | some run =>
      let created := creationEvents name run
      let log := run.warnings Fault.message
      match run.result with
      | .error fault => ⟨.error fault, created, log⟩
      | .ok layerId =>
        let (events, done) := fill host plan baseId blendId layerId
        ⟨done.map fun _ => layerId, created ++ events, log⟩

end LayerBlend
