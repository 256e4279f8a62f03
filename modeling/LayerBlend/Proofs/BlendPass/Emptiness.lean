import LayerBlend.Proofs.BlendPass.Trace
import LayerBlend.Proofs.Composite.PassThrough
import LayerBlend.Proofs.Formula.Compilation
import LayerBlend.Proofs.Rect.Algebra

/-!
# A pass finds empty layers before it changes anything

A pass checks that both layers cover something of the document before it makes a layer, and the
blend checks the sources it is given once more. For a host that answers sources where its layers
are, the second check finds nothing that the first one has not found. What is left to go wrong in
the blend is a negative size of the pixels, or a formula that nests too deeply.

* `BlendPass.AnswersInPlace` — what is asked of the host, and `BlendPass.HandedOn` — the faults that
  are not those of a pass, but of its host or its policy.
* `BlendPass.Ready.clamp_rect` — the sources that are read cover what was planned for.
* `BlendPass.Ready.exists_result` — so they are blended, on the bounding box of what both layers
  cover, unless the formula nests too deeply; and `BlendPass.Ready.composite_ne_empty` — a blend
  that fails does not find them empty.
* `blendPass_finds_empty_first` — all of this of a whole pass.
-/

namespace LayerBlend

namespace BlendPass

/-- A host answers each reading of a layer with a source at the place of the layer, or at the place
that is asked for. -/
def AnswersInPlace (host : Host) : Prop :=
  ∀ layers id layer reading rect source, host.layers = .ok layers → IsFirst layers id layer →
    host.readPixels reading id rect = .ok source → source.rect = layer.bounds ∨ source.rect = rect

/-- A fault that is handed on: it is what the host answers to the last thing that is asked of it, or
the policy has no wait behind the last attempt to make a layer. -/
inductive HandedOn (host : Host) (policy : RetryPolicy Fault) (events : List HostEvent)
    (fault : Fault) : Prop where
  /-- A layer cannot be made. -/
  | creation (name : String) (attempt : Nat) (hlast : events.getLast? = some (.createLayer name))
      (h : host.createLayer attempt = .error fault)
  /-- There is no wait after a failed attempt. -/
  | wait (name : String) (attempt : Nat) (hlast : events.getLast? = some (.createLayer name))
      (h : policy.backoff attempt = .error fault)
  /-- A layer cannot be read. -/
  | reading (reading : Nat) (id : Json) (rect : Rect)
      (hlast : events.getLast? = some (.readPixels id rect))
      (h : host.readPixels reading id rect = .error fault)
  /-- A result cannot be written. -/
  | writing (id : Json) (result : BlendResult)
      (hlast : events.getLast? = some (.writePixels id result))
      (h : host.writePixels id result = .error fault)

/-! ## Layers that are found -/

/-- A layer that is found is listed. -/
theorem IsFirst.mem {layers : List Layer} {id : Json} {layer : Layer}
    (h : IsFirst layers id layer) : layer ∈ layers := by
  obtain ⟨-, before, after, rfl, -⟩ := h
  simp

/-- Of two layers with different identifiers, both are found. -/
theorem isFirst_pair (lower upper : Layer) (id other : Json) (hlower : lower.id.same id = true)
    (hupper : upper.id.same other = true) (hother : lower.id.same other = false) :
    IsFirst [lower, upper] id lower ∧ IsFirst [lower, upper] other upper := by
  refine ⟨⟨hlower, [], [upper], rfl, ?_⟩, hupper, [lower], [], rfl, ?_⟩
  · simp [Missing]
  · simpa [Missing] using hother

/-! ## What both layers cover -/

namespace Ready

variable {host : Host} {baseId blendId : Json} {formula : String} {plan : Plan}
  {base blend : PixelSource}

/-- What is planned for lies on the canvas. -/
theorem inside (h : Ready host baseId blendId formula plan) :
    (plan.base.union plan.blend).Inside plan.canvas := by
  obtain ⟨_, lower, upper, -, -, -, hbase, hblend⟩ := h.layers
  rw [hbase, hblend]
  exact (Rect.inside_clamp lower.bounds plan.canvas).union
    (Rect.inside_clamp upper.bounds plan.canvas)

section

variable (h : Ready host baseId blendId formula plan) (hplace : AnswersInPlace host)
  (hbase : host.readPixels 0 baseId plan.base = .ok base)
  (hblend : host.readPixels 1 blendId plan.blend = .ok blend)

include h hplace hbase hblend

/-- What a host answers in place covers what was planned for: a rectangle that is clamped already is
not changed by clamping it again. -/
theorem clamp_rect : base.rect.clamp plan.canvas = plan.base ∧
    blend.rect.clamp plan.canvas = plan.blend := by
  obtain ⟨layers, lower, upper, hlayers, hlower, hupper, hplanBase, hplanBlend⟩ := h.layers
  constructor
  · rcases hplace _ _ _ _ _ _ hlayers hlower hbase with hrect | hrect
    · rw [hrect, hplanBase]
    · rw [hrect, hplanBase, Rect.clamp_clamp]
  · rcases hplace _ _ _ _ _ _ hlayers hupper hblend with hrect | hrect
    · rw [hrect, hplanBlend]
    · rw [hrect, hplanBlend, Rect.clamp_clamp]

/-- The blend of what is read does not find a source empty. -/
theorem clamp_ne_empty : (base.rect.clamp plan.canvas).isEmpty = false ∧
    (blend.rect.clamp plan.canvas).isEmpty = false := by
  obtain ⟨hbaseRect, hblendRect⟩ := h.clamp_rect hplace hbase hblend
  rw [hbaseRect, hblendRect]
  exact ⟨h.base, h.blend⟩

/-- What is read is blended, on the bounding box of what both layers cover, or the formula nests too
deeply for that. -/
theorem exists_result (hbaseSize : 0 ≤ base.width ∧ 0 ≤ base.height)
    (hblendSize : 0 ≤ blend.width ∧ 0 ≤ blend.height) :
    (∃ result, composite Float base blend plan.canvas plan.engine = .ok result ∧
      result.rect = plan.base.union plan.blend) ∨
    composite Float base blend plan.canvas plan.engine = .error (.noValue .tooDeep) := by
  obtain ⟨hbaseFull, hblendFull⟩ := h.clamp_ne_empty hplace hbase hblend
  have hwell := Engine.wellFormed_of_compile h.engine
  have hlaid := Placement.of_eq_ok hbaseFull hblendFull
  by_cases hlimit : plan.engine.tree.pictureLevels Float ≤ Engine.nestingLimit
  · left
    obtain ⟨result, hresult, hrect, -⟩ :=
      composite_eq_ok hwell hbaseSize hblendSize hlaid Float hlimit
    obtain ⟨hbaseRect, hblendRect⟩ := h.clamp_rect hplace hbase hblend
    rw [hbaseRect, hblendRect] at hrect
    exact ⟨result, hresult, hrect⟩
  · right
    exact composite_eq_tooDeep hwell hbaseSize hblendSize hlaid Float (Nat.not_le.mp hlimit)

/-- Pixels of a negative size are refused. -/
theorem exists_cause
    (hsize : ¬((0 ≤ base.width ∧ 0 ≤ base.height) ∧ 0 ≤ blend.width ∧ 0 ≤ blend.height)) :
    ∃ cause, composite Float base blend plan.canvas plan.engine = .error (.badBounds cause) := by
  obtain ⟨hbaseFull, hblendFull⟩ := h.clamp_ne_empty hplace hbase hblend
  obtain ⟨cause, hcause⟩ := composite_of_negative hbaseFull hblendFull hsize
  exact ⟨cause, hcause plan.engine⟩

/-- A blend of what is read may fail, but not because something is empty. -/
theorem composite_ne_empty {cause : CompositeFault}
    (hcause : composite Float base blend plan.canvas plan.engine = .error cause) :
    (Fault.composite cause).kind ≠ .emptyIntersection := by
  by_cases hsize : (0 ≤ base.width ∧ 0 ≤ base.height) ∧ 0 ≤ blend.width ∧ 0 ≤ blend.height
  · rcases h.exists_result hplace hbase hblend hsize.1 hsize.2 with ⟨result, hresult, -⟩ | hdeep
    · cases hcause.symm.trans hresult
    · cases hcause.symm.trans hdeep
      decide
  · obtain ⟨refusal, hrefusal⟩ := h.exists_cause hplace hbase hblend hsize
    cases hcause.symm.trans hrefusal
    cases refusal with
    | edge cause => cases cause <;> decide
    | _ => simp [Fault.kind, Fault.ofRect]

end

/-- What is planned for is the bounding box of both layers, as far as it is on the canvas. -/
theorem union_eq (h : Ready host baseId blendId formula plan) :
    ∃ layers lower upper, host.layers = .ok layers ∧ IsFirst layers baseId lower ∧
      IsFirst layers blendId upper ∧
      plan.base.union plan.blend =
        (lower.bounds.clamp plan.canvas).union (upper.bounds.clamp plan.canvas) ∧
      plan.base.union plan.blend = (lower.bounds.union upper.bounds).clamp plan.canvas := by
  obtain ⟨layers, lower, upper, hlayers, hlower, hupper, hbase, hblend⟩ := h.layers
  refine ⟨layers, lower, upper, hlayers, hlower, hupper, ?_, ?_⟩
  · rw [hbase, hblend]
  · rw [hbase, hblend, Rect.union_clamp]

end Ready

/-- The fault of an unfilled layer is that of the host, or of a blend of what was read. -/
theorem Fills.fault_cases {host : Host} {plan : Plan} {baseId blendId layerId : Json}
    {events : List HostEvent} {fault : Fault} (policy : RetryPolicy Fault) (before : List HostEvent)
    (h : Fills host plan baseId blendId layerId events (.error fault)) :
    HandedOn host policy (before ++ events) fault ∨ ∃ base blend cause,
      host.readPixels 0 baseId plan.base = .ok base ∧
      host.readPixels 1 blendId plan.blend = .ok blend ∧
      composite Float base blend plan.canvas plan.engine = .error cause ∧
      fault = .composite cause := by
  generalize hdone : Except.error fault = done at h
  cases h with
  | baseUnread h =>
    cases hdone
    exact .inl (.reading _ _ _ (by simp) h)
  | blendUnread _ h =>
    cases hdone
    exact .inl (.reading _ _ _ (by simp) h)
  | unblended hbase hblend h =>
    cases hdone
    exact .inr ⟨_, _, _, hbase, hblend, h, rfl⟩
  | written _ _ _ => exact .inl (.writing _ _ (by simp) hdone.symm)

end BlendPass

open BlendPass

section

variable {host : Host} {baseId blendId layerId : Json} {formula name : String} {plan : Plan}
  {policy : RetryPolicy Fault} {patience : Nat} {failed : List (RetriedFailure Fault)}
  {base blend : PixelSource}

/-- A pass that makes its layer and reads both layers writes what they are blended to. -/
theorem blendPass_of_blended (hready : Ready host baseId blendId formula plan)
    (hrun : policy.run host.createLayer patience = some ⟨.ok layerId, failed⟩)
    (hbase : host.readPixels 0 baseId plan.base = .ok base)
    (hblend : host.readPixels 1 blendId plan.blend = .ok blend) {result : BlendResult}
    (hresult : composite Float base blend plan.canvas plan.engine = .ok result) :
    blendPass host baseId blendId formula name policy patience =
      ⟨(host.writePixels layerId result).map fun _ => layerId,
        failedCreations name failed ++ [.createLayer name, .readPixels baseId plan.base,
          .readPixels blendId plan.blend, .writePixels layerId result],
        failed.map (RetriedFailure.warning Fault.message)⟩ := by
  simp [blendPass, plan_of_ready hready, hrun, fill, hbase, hblend, hresult, creationEvents,
    RetryRun.warnings]

/-- A pass that makes its layer and reads both layers, but cannot blend them, writes nothing. -/
theorem blendPass_of_unblended (hready : Ready host baseId blendId formula plan)
    (hrun : policy.run host.createLayer patience = some ⟨.ok layerId, failed⟩)
    (hbase : host.readPixels 0 baseId plan.base = .ok base)
    (hblend : host.readPixels 1 blendId plan.blend = .ok blend) {cause : CompositeFault}
    (hcause : composite Float base blend plan.canvas plan.engine = .error cause) :
    blendPass host baseId blendId formula name policy patience =
      ⟨.error (.composite cause),
        failedCreations name failed ++ [.createLayer name, .readPixels baseId plan.base,
          .readPixels blendId plan.blend],
        failed.map (RetriedFailure.warning Fault.message)⟩ := by
  simp [blendPass, plan_of_ready hready, hrun, fill, hbase, hblend, hcause, creationEvents,
    RetryRun.warnings, Except.map]

/-- A pass that finds nothing to blend has asked nothing of its host, unless the host or the policy
says so. -/
theorem events_eq_nil_of_empty (hplace : AnswersInPlace host) {fault : Fault}
    (hfault : (blendPass host baseId blendId formula name policy patience).result = .error fault)
    (hkind : fault.kind = .emptyIntersection) :
    let events := (blendPass host baseId blendId formula name policy patience).events
    events = [] ∨ HandedOn host policy events fault := by
  obtain ⟨refusal, h⟩ | ⟨plan, h⟩ := refused_or_ready host baseId blendId formula
  · left
    simp [blendPass, plan_of_refused h]
  right
  have hplan := plan_of_ready h
  cases hrun : policy.run host.createLayer patience with
  | none =>
    rw [blendPass_of_goesOn hplan hrun] at hfault
    cases hfault
    cases hkind
  | some run =>
  obtain ⟨result, failed⟩ := run
  cases result with
  | error last =>
    rw [blendPass_of_not_created hplan hrun] at hfault ⊢
    cases hfault
    rcases RetryPolicy.fault_of_run hrun with hmade | hwait
    · exact .creation name failed.length (by simp) hmade
    · exact .wait name failed.length (by simp) hwait
  | ok layerId =>
    obtain ⟨events, done, hfills, hpass⟩ := blendPass_of_created name hplan hrun
    rw [hpass] at hfault ⊢
    obtain rfl := eq_error_of_map hfault
    obtain hhanded | ⟨base, blend, cause, hbase, hblend, hcause, rfl⟩ :=
      hfills.fault_cases policy (failedCreations name failed ++ [.createLayer name])
    · simpa using hhanded
    · exact absurd hkind (h.composite_ne_empty hplace hbase hblend hcause)

end

/-- For a host that answers sources in place, a pass finds layers empty before it changes anything.
Once the new layer is made and both layers are read, they are blended and the result is written,
unless the formula nests too deeply: its rectangle is the bounding box of both layers clamped to the
canvas, which is not empty. Pixels of a negative size are refused then, because they form no
rectangle. So a pass that ends because there is nothing to blend has asked nothing of its host,
unless it was the host or the policy that said so. -/
theorem blendPass_finds_empty_first {host : Host} (hplace : AnswersInPlace host)
    (baseId blendId : Json) (formula name : String) (policy : RetryPolicy Fault) (patience : Nat) :
    let pass := blendPass host baseId blendId formula name policy patience
    (∀ plan layerId failed base blend, Ready host baseId blendId formula plan →
      policy.run host.createLayer patience = some ⟨.ok layerId, failed⟩ →
      host.readPixels 0 baseId plan.base = .ok base →
      host.readPixels 1 blendId plan.blend = .ok blend →
      ((0 ≤ base.width ∧ 0 ≤ base.height) ∧ 0 ≤ blend.width ∧ 0 ≤ blend.height →
        composite Float base blend plan.canvas plan.engine ≠ .error (.noValue .tooDeep) →
        ∃ result layers lower upper,
          composite Float base blend plan.canvas plan.engine = .ok result ∧
          pass = ⟨(host.writePixels layerId result).map fun _ => layerId,
            failedCreations name failed ++ [.createLayer name, .readPixels baseId plan.base,
              .readPixels blendId plan.blend, .writePixels layerId result],
            failed.map (RetriedFailure.warning Fault.message)⟩ ∧
          host.layers = .ok layers ∧ IsFirst layers baseId lower ∧ IsFirst layers blendId upper ∧
          result.rect = (lower.bounds.clamp plan.canvas).union (upper.bounds.clamp plan.canvas) ∧
          result.rect = (lower.bounds.union upper.bounds).clamp plan.canvas ∧
          result.rect.isEmpty = false ∧ result.rect.Inside plan.canvas) ∧
      (¬((0 ≤ base.width ∧ 0 ≤ base.height) ∧ 0 ≤ blend.width ∧ 0 ≤ blend.height) → ∃ cause,
        composite Float base blend plan.canvas plan.engine = .error (.badBounds cause) ∧
        pass = ⟨.error (.composite (.badBounds cause)),
          failedCreations name failed ++ [.createLayer name, .readPixels baseId plan.base,
            .readPixels blendId plan.blend],
          failed.map (RetriedFailure.warning Fault.message)⟩)) ∧
    ∀ fault, pass.result = .error fault → fault.kind = .emptyIntersection →
      pass.events = [] ∨ HandedOn host policy pass.events fault := by
  intro pass
  refine ⟨fun plan layerId failed base blend hready hrun hbase hblend => ⟨?_, ?_⟩,
    fun fault hfault hkind => events_eq_nil_of_empty hplace hfault hkind⟩
  · rintro ⟨hbaseSize, hblendSize⟩ hnesting
    obtain ⟨result, hresult, hrect⟩ :=
      (hready.exists_result hplace hbase hblend hbaseSize hblendSize).resolve_right hnesting
    obtain ⟨layers, lower, upper, hlayers, hlower, hupper, hunion, hclamp⟩ := hready.union_eq
    refine ⟨result, layers, lower, upper, hresult,
      blendPass_of_blended hready hrun hbase hblend hresult, hlayers, hlower, hupper,
      hrect.trans hunion, hrect.trans hclamp, ?_, ?_⟩
    · rw [hrect]
      exact Rect.isEmpty_union hready.base
    · rw [hrect]
      exact hready.inside
  · intro hsize
    obtain ⟨cause, hcause⟩ := hready.exists_cause hplace hbase hblend hsize
    exact ⟨cause, hcause, blendPass_of_unblended hready hrun hbase hblend hcause⟩

/-- Two layers that stick out of the canvas; one source is answered at the place of its layer, the
other one at the place that is asked for. -/
theorem blendPass_finds_empty_first_sticking_out :
    let canvas : Rect := ⟨0, 0, 2, 1, by decide, by decide⟩
    let bounds : Rect := ⟨-1, 0, 5, 1, by decide, by decide⟩
    let host : Host :=
      { canvas := .ok canvas
        layers := .ok [⟨.int 1, "Backdrop", bounds⟩, ⟨.int 2, "Top", bounds⟩]
        createLayer := fun _ => .ok (.int 3)
        readPixels := fun reading _ rect =>
          .ok (.filling #[] (if reading = 0 then bounds else rect))
        writePixels := fun _ _ => .ok () }
    AnswersInPlace host ∧ ∃ result,
      (blendPass host (.int 1) (.int 2) "[rs, gs, bs]" "Result" defaultPolicy 1).events =
        [.createLayer "Result", .readPixels (.int 1) canvas, .readPixels (.int 2) canvas,
          .writePixels (.int 3) result] ∧
      result.rect = canvas := by
  intro canvas bounds host
  have hbounds : ∀ layers id layer, host.layers = .ok layers → IsFirst layers id layer →
      layer.bounds = bounds := by
    intro layers id layer hlayers hlayer
    cases hlayers
    rcases List.mem_pair.mp hlayer.mem with rfl | rfl
    · rfl
    · rfl
  have hplace : AnswersInPlace host := by
    intro layers id layer reading rect source hlayers hlayer hread
    rw [hbounds layers id layer hlayers hlayer]
    cases hread
    by_cases hfirst : reading = 0
    · left
      simp [PixelSource.filling, hfirst]
    · right
      simp [PixelSource.filling, hfirst]
  obtain ⟨engine, hengine, hlimit⟩ : ∃ engine, compile "[rs, gs, bs]" = .ok engine ∧
      engine.tree.pictureLevels Float ≤ Engine.nestingLimit :=
    exists_eq_ok_and (by decide +kernel)
  obtain ⟨hlower, hupper⟩ :=
    isFirst_pair ⟨.int 1, "Backdrop", bounds⟩ ⟨.int 2, "Top", bounds⟩ (.int 1) (.int 2) rfl rfl rfl
  have hready : Ready host (.int 1) (.int 2) "[rs, gs, bs]" ⟨engine, canvas, canvas, canvas⟩ :=
    ⟨hengine, rfl, ⟨_, _, _, rfl, hlower, hupper, rfl, rfl⟩, rfl, rfl⟩
  obtain ⟨hfilled, -⟩ :=
    (blendPass_finds_empty_first hplace (.int 1) (.int 2) "[rs, gs, bs]" "Result" defaultPolicy
      1).1 _ (.int 3) [] (.filling #[] bounds) (.filling #[] canvas) hready rfl rfl rfl
  have hlaid : Placement.of (PixelSource.filling #[] bounds).rect
      (PixelSource.filling #[] canvas).rect canvas = .ok ⟨canvas, canvas, canvas⟩ := rfl
  obtain ⟨blended, hblended, -⟩ := composite_eq_ok (Engine.wellFormed_of_compile hengine)
    (by decide) (by decide) hlaid Float hlimit
  obtain ⟨result, layers, first, second, -, hpass, hlayers, hfirst, hsecond, -, hrect, -⟩ :=
    hfilled (by decide) (by simp [hblended])
  refine ⟨hplace, result, ?_, ?_⟩
  · rw [hpass]
    rfl
  · have hcovered : (bounds.union bounds).clamp canvas = canvas := by decide
    rw [hrect, hbounds _ _ _ hlayers hfirst, hbounds _ _ _ hlayers hsecond]
    exact hcovered

/-- A source of a negative width is answered in place, but the pass does not come to write. -/
theorem blendPass_unwritten_of_negative_width :
    let canvas : Rect := ⟨0, 0, 1, 1, by decide, by decide⟩
    let host : Host :=
      { canvas := .ok canvas
        layers := .ok [⟨.int 1, "a", canvas⟩, ⟨.int 2, "b", canvas⟩]
        createLayer := fun _ => .ok (.int 101)
        readPixels := fun _ id rect =>
          .ok (if id.same (.int 1) then ⟨#[], rect, -1, 1, 0, by decide⟩
            else .filling #[255, 255, 255, 255] rect)
        writePixels := fun _ _ => .ok () }
    let pass := blendPass host (.int 1) (.int 2) "[rb, gb, bb]" resultName defaultPolicy 1
    AnswersInPlace host ∧ ∃ plan base blend, Ready host (.int 1) (.int 2) "[rb, gb, bb]" plan ∧
      defaultPolicy.run host.createLayer 1 = some ⟨.ok (.int 101), []⟩ ∧
      host.readPixels 0 (.int 1) plan.base = .ok base ∧
      host.readPixels 1 (.int 2) plan.blend = .ok blend ∧
      pass.result = .error (.composite (.badBounds (.rightBeforeLeft (-1) 0))) ∧
      ∀ id result, .writePixels id result ∉ pass.events := by
  intro canvas host pass
  have hplace : AnswersInPlace host := by
    intro layers id layer reading rect source _ _ hread
    right
    cases hread
    split
    · rfl
    · rfl
  obtain ⟨engine, hengine⟩ : ∃ engine, compile "[rb, gb, bb]" = .ok engine :=
    exists_eq_ok (by decide +kernel)
  obtain ⟨hlower, hupper⟩ :=
    isFirst_pair ⟨.int 1, "a", canvas⟩ ⟨.int 2, "b", canvas⟩ (.int 1) (.int 2) rfl rfl rfl
  have hready : Ready host (.int 1) (.int 2) "[rb, gb, bb]" ⟨engine, canvas, canvas, canvas⟩ :=
    ⟨hengine, rfl, ⟨_, _, _, rfl, hlower, hupper, rfl, rfl⟩, rfl, rfl⟩
  have hrefused : composite Float ⟨#[], canvas, -1, 1, 0, by decide⟩
      (.filling #[255, 255, 255, 255] canvas) canvas engine =
        .error (.badBounds (.rightBeforeLeft (-1) 0)) :=
    composite_of_base_fault Float engine rfl rfl
  have hpass : pass = _ := blendPass_of_unblended hready rfl rfl rfl hrefused
  refine ⟨hplace, _, _, _, hready, rfl, rfl, rfl, ?_, ?_⟩
  · rw [hpass]
  · intro id result
    rw [hpass]
    simp [failedCreations]

end LayerBlend
