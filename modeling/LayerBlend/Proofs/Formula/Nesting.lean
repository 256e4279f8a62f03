import LayerBlend.Proofs.Formula.Pointwise
import LayerBlend.Proofs.Outcome

/-!
# Nesting levels of an evaluation

* `within room levels outcome` — an outcome that takes a number of nesting levels, of which there
  are `room`: without enough of them there is the fault of nesting instead.
* `Node.levels channels` — the nesting levels that the evaluation of a node takes: two for each
  level of the tree along the branches that are evaluated, which are both branches of a conditional
  over a block and one branch of any other. They are at most twice the levels of the tree
  (`Node.levels_le_depth`).
* `Node.samplesWithin_eq`, `Node.valueWithin_eq` — a node that has a value has it within its levels,
  and within fewer its evaluation has the fault of nesting.
* `Channels.Decides` — conditions that are decided for the one channels, because they are single
  values, are decided alike for the others. An evaluation for the others then takes no more levels
  (`Node.levels_le_of_decides`).
-/

namespace LayerBlend

/-- An outcome that takes a number of nesting levels, where there are `room`. -/
def within {β : Type} (room levels : Nat) (outcome : Except EvalFault β) : Except EvalFault β :=
  if levels ≤ room then outcome else .error .tooDeep

section Within

variable {β γ : Type} {room levels others : Nat} {outcome : Except EvalFault β}

theorem within_of_le (h : levels ≤ room) : within room levels outcome = outcome :=
  if_pos h

theorem within_of_lt (h : room < levels) : within room levels outcome = .error .tooDeep :=
  if_neg (Nat.not_le.mpr h)

@[simp] theorem within_zero : within room 0 outcome = outcome :=
  within_of_le (Nat.zero_le room)

@[simp] theorem within_add_two :
    within (room + 2) (levels + 2) outcome = within room levels outcome := by
  simp [within]

/-- What follows an outcome takes the levels that the outcome took. -/
@[simp] theorem within_bind (f : β → Except EvalFault γ) :
    (within room levels outcome >>= f) = within room levels (outcome >>= f) := by
  unfold within
  split <;> simp

@[simp] theorem map_within (f : β → γ) :
    (within room levels outcome).map f = within room levels (outcome.map f) := by
  unfold within
  split <;> rfl

/-- Two steps take as many levels as the one that takes more. -/
@[simp] theorem within_within :
    within room levels (within room others outcome) = within room (max levels others) outcome := by
  by_cases hlevels : levels ≤ room
  · by_cases hothers : others ≤ room
    · rw [within_of_le hlevels, within_of_le hothers,
        within_of_le (Nat.max_le.mpr ⟨hlevels, hothers⟩)]
    · have hmax : room < max levels others :=
        Nat.lt_of_lt_of_le (Nat.not_le.mp hothers) (Nat.le_max_right _ _)
      rw [within_of_le hlevels, within_of_lt (Nat.not_le.mp hothers), within_of_lt hmax]
  · have hmax : room < max levels others :=
      Nat.lt_of_lt_of_le (Nat.not_le.mp hlevels) (Nat.le_max_left _ _)
    rw [within_of_lt (Nat.not_le.mp hlevels), within_of_lt hmax]

end Within

namespace Node

variable {α : Type} [Arithmetic α] {channels : Channels α}

mutual

/-- The nesting levels that an evaluation takes. -/
def levels (channels : Channels α) : Node → Nat
  | .number _ | .channel _ => 2
  | .call _ args => levelsOf channels args + 2
  | .binary _ left right => max (levels channels left) (levels channels right) + 2
  | .choose condition positive negative =>
    match condition.samples channels with
    | .error _ => levels channels condition + 2
    | .ok c =>
      max (levels channels condition)
        (if c.isSingle then
          if Arithmetic.truthy (c.cell 0) then levels channels positive
          else levels channels negative
        else max (levels channels positive) (levels channels negative)) + 2
  | .array items => levelsOf channels items + 2

/-- The nesting levels that the deepest of several evaluations takes. -/
def levelsOf (channels : Channels α) : List Node → Nat
  | [] => 0
  | node :: nodes => max (levels channels node) (levelsOf channels nodes)

end

/-- Every evaluation takes a level of the tree. -/
theorem two_le_levels (node : Node) : 2 ≤ node.levels channels := by
  cases node with
  | number _ | channel _ => exact Nat.le_refl 2
  | call _ _ | binary _ _ _ | array _ =>
    rw [levels]
    exact Nat.le_add_left 2 _
  | choose condition positive negative =>
    rw [levels]
    split <;> exact Nat.le_add_left 2 _

/-- No evaluation fits into less than one level of the tree. -/
theorem within_levels_of_lt_two {β : Type} {room : Nat} (h : room < 2) (node : Node)
    (outcome : Except EvalFault β) :
    within room (node.levels channels) outcome = .error .tooDeep :=
  within_of_lt (Nat.lt_of_lt_of_le h (two_le_levels node))

/-- The deepest of several evaluations takes no more than two levels for each level of the trees. -/
theorem levelsOf_le_depthOf {nodes : List Node}
    (h : ∀ node ∈ nodes, node.levels channels ≤ 2 * node.depth) :
    levelsOf channels nodes ≤ 2 * depthOf nodes := by
  induction nodes with
  | nil => exact Nat.le_refl 0
  | cons node nodes ih =>
    have hnode := h node List.mem_cons_self
    have hnodes := ih fun other hother => h other (List.mem_cons_of_mem _ hother)
    rw [levelsOf, depthOf]
    omega

/-- An evaluation takes no more than two levels for each level of the tree. -/
theorem levels_le_depth (node : Node) : node.levels channels ≤ 2 * node.depth := by
  induction node using induct with
  | number value => exact Nat.le_refl 2
  | channel c => exact Nat.le_refl 2
  | call f args ih =>
    have hargs := levelsOf_le_depthOf ih
    rw [levels, depth]
    omega
  | binary op left right ihl ihr =>
    rw [levels, depth]
    omega
  | choose condition positive negative ihc ihp ihn =>
    rw [levels, depth]
    split
    · omega
    · split
      · split <;> omega
      · omega
  | array items ih =>
    have hitems := levelsOf_le_depthOf ih
    rw [levels, depth]
    omega

/-! ## Conditionals -/

section Choose

variable {condition positive negative : Node} {c : Samples α}

/-- A conditional over a single value takes the levels of its condition and of the chosen branch. -/
theorem levels_choose_of_single (hc : condition.samples channels = .ok c)
    (hsingle : c.isSingle = true) :
    (Node.choose condition positive negative).levels channels =
      max (condition.levels channels)
        (if Arithmetic.truthy (c.cell 0) then positive.levels channels
          else negative.levels channels) + 2 := by
  rw [levels, hc]
  dsimp only
  rw [if_pos hsingle]

/-- A conditional over a block takes the levels of its condition and of both branches. -/
theorem levels_choose_of_block (hc : condition.samples channels = .ok c)
    (hblock : ¬c.isSingle = true) :
    (Node.choose condition positive negative).levels channels =
      max (condition.levels channels)
        (max (positive.levels channels) (negative.levels channels)) + 2 := by
  rw [levels, hc]
  dsimp only
  rw [if_neg hblock]

/-- A conditional that has a value has a condition, and values of the branches that are evaluated:
of the chosen one, or of both. -/
theorem exists_of_choose {β : Type} {f : Node → Except EvalFault β}
    {g : Samples α → β → β → Except EvalFault β} {value : β}
    (h : (do
      let c ← condition.samples channels
      if c.isSingle then
        if Arithmetic.truthy (c.cell 0) then f positive else f negative
      else g c (← f positive) (← f negative)) = .ok value) :
    ∃ c, condition.samples channels = .ok c ∧
      (c.isSingle = true ∧
          (if Arithmetic.truthy (c.cell 0) then f positive else f negative) = .ok value ∨
        ¬c.isSingle = true ∧ ∃ a b, f positive = .ok a ∧ f negative = .ok b ∧
          g c a b = .ok value) := by
  obtain ⟨c, hc, h⟩ := bind_eq_ok.mp h
  refine ⟨c, hc, ?_⟩
  by_cases hsingle : c.isSingle = true
  · rw [if_pos hsingle] at h
    exact Or.inl ⟨hsingle, h⟩
  · rw [if_neg hsingle] at h
    obtain ⟨a, ha, h⟩ := bind_eq_ok.mp h
    obtain ⟨b, hb, h⟩ := bind_eq_ok.mp h
    exact Or.inr ⟨hsingle, a, b, ha, hb, h⟩

end Choose

/-! ## One level -/

section Level

variable {part : Node → Except EvalFault (Samples α)} {room : Nat}

/-- Several expressions have their values within the levels of the deepest of them. -/
theorem mapM_eq_within
    (hpart : ∀ {child : Node} {block}, child.samples channels = .ok block →
      part child = within room (child.levels channels) (.ok block))
    {nodes : List Node} {blocks : List (Samples α)} (h : samplesOf channels nodes = .ok blocks) :
    nodes.mapM part = within room (levelsOf channels nodes) (.ok blocks) := by
  induction nodes generalizing blocks with
  | nil =>
    rw [samplesOf] at h
    rw [levelsOf, within_zero, ← h]
    rfl
  | cons node nodes ih =>
    rw [samplesOf] at h
    obtain ⟨block, hblock, h⟩ := bind_eq_ok.mp h
    obtain ⟨others, hothers, hcons⟩ := bind_eq_ok.mp h
    cases hcons
    rw [List.mapM_cons, hpart hblock, ih hothers, levelsOf]
    simp [pure, Except.pure]

/-- An expression whose parts have their values within their levels has its own within one level of
the tree more. -/
theorem samplesBy_eq
    (hpart : ∀ {child : Node} {block}, child.samples channels = .ok block →
      part child = within room (child.levels channels) (.ok block))
    {node : Node} {block : Samples α} (h : node.samples channels = .ok block) :
    node.samplesBy channels part = within (room + 2) (node.levels channels) (.ok block) := by
  cases node with
  | number value =>
    rw [samples] at h
    rw [samplesBy, levels, h, within_of_le (Nat.le_add_left 2 room)]
  | channel c =>
    rw [samples] at h
    rw [samplesBy, levels, h, within_of_le (Nat.le_add_left 2 room)]
  | call f args =>
    rw [samples] at h
    obtain ⟨blocks, hblocks, happly⟩ := bind_eq_ok.mp h
    rw [samplesBy, levels, mapM_eq_within hpart hblocks]
    simp [happly]
  | binary op left right =>
    rw [samples] at h
    obtain ⟨a, ha, h⟩ := bind_eq_ok.mp h
    obtain ⟨b, hb, hoperate⟩ := bind_eq_ok.mp h
    rw [samplesBy, levels, hpart ha, hpart hb]
    simp [hoperate]
  | choose condition positive negative =>
    rw [samples] at h
    obtain ⟨c, hc, ⟨hsingle, hbranch⟩ | ⟨hblock, a, b, ha, hb, hchoose⟩⟩ := exists_of_choose h
    · rw [samplesBy, levels_choose_of_single hc hsingle, hpart hc]
      by_cases ht : Arithmetic.truthy (c.cell 0)
      · rw [if_pos ht] at hbranch
        simp [hsingle, ht, hpart hbranch]
      · rw [if_neg ht] at hbranch
        simp [hsingle, ht, hpart hbranch]
    · rw [samplesBy, levels_choose_of_block hc hblock, hpart hc, hpart ha, hpart hb]
      simp [hblock, hchoose]
  | array items =>
    rw [samples] at h
    cases h

/-- A formula whose parts have their values within their levels has its own within one level of the
tree more. -/
theorem valueBy_eq {branch : Node → Except EvalFault (Value α)}
    (hpart : ∀ {child : Node} {block}, child.samples channels = .ok block →
      part child = within room (child.levels channels) (.ok block))
    (hbranch : ∀ {child : Node} {value}, child.value channels = .ok value →
      branch child = within room (child.levels channels) (.ok value))
    {node : Node} {value : Value α} (h : node.value channels = .ok value) :
    node.valueBy channels part branch =
      within (room + 2) (node.levels channels) (.ok value) := by
  cases node with
  | array items =>
    rw [Node.value] at h
    obtain ⟨blocks, hblocks, rfl⟩ := map_eq_ok.mp h
    rw [valueBy, levels, mapM_eq_within hpart hblocks, within_add_two, map_within]
    rfl
  | choose condition positive negative =>
    rw [Node.value] at h
    obtain ⟨c, hc, ⟨hsingle, hchosen⟩ | ⟨hblock, a, b, ha, hb, hchoose⟩⟩ := exists_of_choose h
    · rw [valueBy, levels_choose_of_single hc hsingle, hpart hc]
      by_cases ht : Arithmetic.truthy (c.cell 0)
      · rw [if_pos ht] at hchosen
        simp [hsingle, ht, hbranch hchosen]
      · rw [if_neg ht] at hchosen
        simp [hsingle, ht, hbranch hchosen]
    · rw [valueBy, levels_choose_of_block hc hblock, hpart hc, hbranch ha, hbranch hb]
      simp [hblock, hchoose]
  | number _ | channel _ | call _ _ | binary _ _ _ =>
    simp only [Node.value] at h
    obtain ⟨block, hblock, rfl⟩ := map_eq_ok.mp h
    simp only [valueBy, samplesBy_eq hpart hblock, map_within]
    rfl

end Level

/-! ## Any number of levels -/

/-- An expression that has a value has it within the levels of its evaluation. -/
theorem samplesWithin_eq (room : Nat) {node : Node} {block : Samples α}
    (h : node.samples channels = .ok block) :
    node.samplesWithin channels room = within room (node.levels channels) (.ok block) :=
  match room with
  | 0 => (within_levels_of_lt_two (by decide) node _).symm
  | 1 => (within_levels_of_lt_two (by decide) node _).symm
  | room + 2 => samplesBy_eq (samplesWithin_eq room) h

/-- A formula that has a value has it within the levels of its evaluation. -/
theorem valueWithin_eq (room : Nat) {node : Node} {value : Value α}
    (h : node.value channels = .ok value) :
    node.valueWithin channels room = within room (node.levels channels) (.ok value) :=
  match room with
  | 0 => (within_levels_of_lt_two (by decide) node _).symm
  | 1 => (within_levels_of_lt_two (by decide) node _).symm
  | room + 2 => valueBy_eq (samplesWithin_eq room) (valueWithin_eq room) h

end Node

/-! ## Two evaluations of one tree -/

section Decides

variable {α : Type} [Arithmetic α] {channels others : Channels α}

/-- Both channels give a condition a value, and where it is a single value for the one, it is a
single value for the others too and chooses the same branch. -/
def Channels.Decides (channels others : Channels α) : Prop :=
  ∀ condition : Node, condition.ArrayFree → condition.CallsFit →
    ∃ a b, condition.samples channels = .ok a ∧ condition.samples others = .ok b ∧
      (a.isSingle = true → b.isSingle = true ∧
        (Arithmetic.truthy (b.cell 0) ↔ Arithmetic.truthy (a.cell 0)))

namespace Node

/-- The deepest of several evaluations takes no more levels when none of them does. -/
theorem levelsOf_le {nodes : List Node}
    (h : ∀ node ∈ nodes, node.levels others ≤ node.levels channels) :
    levelsOf others nodes ≤ levelsOf channels nodes := by
  induction nodes with
  | nil => exact Nat.le_refl 0
  | cons node nodes ih =>
    have hnode := h node List.mem_cons_self
    have hnodes := ih fun other hother => h other (List.mem_cons_of_mem _ hother)
    rw [levelsOf, levelsOf]
    omega

/-- An evaluation takes no more levels when every condition that is decided stays so. -/
theorem levels_le_of_decides (h : channels.Decides others) {tree : Node}
    (hplaced : tree.ArraysPlaced) (hcalls : tree.CallsFit) :
    tree.levels others ≤ tree.levels channels := by
  induction tree using induct with
  | number value => exact Nat.le_refl 2
  | channel c => exact Nat.le_refl 2
  | call f args ih =>
    have hfree := arraysPlaced_call.mp hplaced
    have hle := levelsOf_le fun arg harg =>
      ih arg harg (hfree arg harg).arraysPlaced ((callsFit_call.mp hcalls).2 arg harg)
    rw [levels, levels]
    omega
  | binary op left right ihl ihr =>
    obtain ⟨hl, hr⟩ := arraysPlaced_binary.mp hplaced
    obtain ⟨hlcalls, hrcalls⟩ := callsFit_binary.mp hcalls
    have hleft := ihl hl.arraysPlaced hlcalls
    have hright := ihr hr.arraysPlaced hrcalls
    rw [levels, levels]
    omega
  | choose condition positive negative ihc ihp ihn =>
    obtain ⟨hfree, hp, hn⟩ := arraysPlaced_choose.mp hplaced
    obtain ⟨hccalls, hpcalls, hncalls⟩ := callsFit_choose.mp hcalls
    have hcondition := ihc hfree.arraysPlaced hccalls
    have hpositive := ihp hp hpcalls
    have hnegative := ihn hn hncalls
    obtain ⟨a, b, ha, hb, hsame⟩ := h condition hfree hccalls
    by_cases hsingle : a.isSingle = true
    · -- the same branch is evaluated
      obtain ⟨hbsingle, htruthy⟩ := hsame hsingle
      rw [levels_choose_of_single ha hsingle, levels_choose_of_single hb hbsingle]
      simp only [htruthy]
      split <;> omega
    · -- both branches count already
      rw [levels_choose_of_block ha hsingle]
      by_cases hbsingle : b.isSingle = true
      · rw [levels_choose_of_single hb hbsingle]
        split <;> omega
      · rw [levels_choose_of_block hb hbsingle]
        omega
  | array items ih =>
    have hfree := arraysPlaced_array.mp hplaced
    have hle := levelsOf_le fun item hitem =>
      ih item hitem (hfree item hitem).arraysPlaced (callsFit_array.mp hcalls item hitem)
    rw [levels, levels]
    omega

end Node

end Decides

end LayerBlend
