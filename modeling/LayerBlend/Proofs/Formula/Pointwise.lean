import LayerBlend.Formula.Evaluation
import LayerBlend.Proofs.Formula.Subtrees
import LayerBlend.Proofs.Samples.CommonShape

/-!
# Formulas act place by place

* `Node.valueAt env`, `Node.resultAt env` — the value of an expression and the values of a formula
  for one number per channel, read off the tree: a conditional takes one branch, operators and
  functions are those of the numbers.
* `Channels.Uniform S` — every channel that is given holds a single value or a block of shape `S`;
  `Channels.place S p` — the numbers that a formula reads at place `p`.
* `Node.samples_choose_of_single`, `Node.samples_choose_of_block` and the same for `value` — the two
  ways in which a conditional is evaluated.
* `Node.samples_represents` — an expression without arrays has a value for uniform channels, and at
  each place it is `valueAt` of the numbers there.
* `Node.value_represents` — a formula with an arity has that many values for uniform channels, and
  at each place they are `resultAt` of the numbers there, whether its conditions are single values
  or blocks.
-/

namespace LayerBlend

variable {α : Type} [Arithmetic α]

namespace Node

mutual

/-- The value of an expression for one number per channel. -/
def valueAt (env : Channel → α) : Node → α
  | .number value => Arithmetic.ofDecimal value
  | .channel c => env c
  | .call f args => f.compute (valuesAt env args)
  | .binary op left right => op.compute (valueAt env left) (valueAt env right)
  | .choose condition positive negative =>
    if Arithmetic.truthy (valueAt env condition) then valueAt env positive
    else valueAt env negative
  | .array _ => Arithmetic.zero

/-- The values of several expressions for one number per channel. -/
def valuesAt (env : Channel → α) : List Node → List α
  | [] => []
  | node :: nodes => valueAt env node :: valuesAt env nodes

end

/-- The values of a formula for one number per channel. -/
def resultAt (env : Channel → α) : Node → List α
  | .array items => valuesAt env items
  | .choose condition positive negative =>
    if Arithmetic.truthy (valueAt env condition) then resultAt env positive
    else resultAt env negative
  | node => [valueAt env node]

end Node

namespace Channels

/-- Every channel that is given holds a single value or a block of the given shape. -/
def Uniform (channels : Channels α) (S : Shape) : Prop :=
  ∀ c block, channels c = some block → block.Fits S

/-- The number that a formula reads for a channel at a place. -/
def place (channels : Channels α) (S : Shape) (p : Nat) (c : Channel) : α :=
  (channels.read c).read S p

/-- What a formula reads for a channel represents the numbers at the places. -/
theorem read_represents {channels : Channels α} {S : Shape} (h : channels.Uniform S)
    (c : Channel) : (channels.read c).Represents S fun p => channels.place S p c := by
  refine ⟨?_, fun p _ => rfl⟩
  unfold read
  cases hc : channels c with
  | none => exact Samples.fits_single S _
  | some block => exact (h c block hc).map _

end Channels

/-! ## Operators and functions -/

namespace Samples

/-- A function lifted to blocks that fit one shape acts on their values at each place. -/
theorem lift_represents {S : Shape} (f : List α → α) {blocks : List (Samples α)}
    (h : ∀ s ∈ blocks, s.Fits S) :
    ∃ block, lift f blocks = .ok block ∧
      block.Represents S fun p => f (blocks.map fun s => s.read S p) := by
  obtain ⟨block, hblock, hrep⟩ := lift?_represents f h
  refine ⟨block, ?_, hrep⟩
  rw [lift, hblock]

/-- Choosing between two blocks chooses between their values at each place. -/
theorem choose_represents {S : Shape} {condition positive negative : Samples α}
    (hc : condition.Fits S) (hp : positive.Fits S) (hn : negative.Fits S) :
    ∃ block, choose condition positive negative = .ok block ∧ block.Represents S fun p =>
      if Arithmetic.truthy (condition.read S p) then positive.read S p else negative.read S p :=
  lift_represents select (by simp [hc, hp, hn])

/-- An operator between two blocks acts on their values at each place. -/
theorem operate_represents {S : Shape} (op : BinaryOperator) {left right : Samples α}
    (hl : left.Fits S) (hr : right.Fits S) :
    ∃ block, operate op left right = .ok block ∧ block.Represents S fun p =>
      op.compute (left.read S p) (right.read S p) :=
  lift_represents _ (by simp [hl, hr])

end Samples

/-- A function that takes the number of blocks it is given acts on their values at each place. -/
theorem Builtin.apply_represents {S : Shape} {f : Builtin} {args : List (Samples α)}
    (hf : f.accepts args.length) (h : ∀ s ∈ args, s.Fits S) :
    ∃ block, f.apply args = .ok block ∧ block.Represents S fun p =>
      f.compute (args.map fun s => s.read S p) := by
  obtain ⟨block, hblock, hrep⟩ := Samples.lift?_represents f.compute h
  refine ⟨block, ?_, hrep⟩
  unfold Builtin.apply
  rw [if_pos hf, hblock]

/-! ## Conditionals -/

namespace Node

variable {channels : Channels α} {condition positive negative : Node} {c : Samples α}

/-- A conditional over a single value has the value of the chosen branch. -/
theorem samples_choose_of_single (hc : condition.samples channels = .ok c)
    (hsingle : c.isSingle = true) :
    (Node.choose condition positive negative).samples channels =
      if Arithmetic.truthy (c.cell 0) then positive.samples channels
      else negative.samples channels := by
  rw [samples, hc]
  show (if c.isSingle then _ else _) = _
  rw [if_pos hsingle]

/-- A conditional over a block evaluates both branches and chooses between them. -/
theorem samples_choose_of_block {a b : Samples α} (hc : condition.samples channels = .ok c)
    (hblock : ¬c.isSingle = true) (ha : positive.samples channels = .ok a)
    (hb : negative.samples channels = .ok b) :
    (Node.choose condition positive negative).samples channels = Samples.choose c a b := by
  rw [samples, hc, ha, hb]
  show (if c.isSingle then _ else _) = _
  rw [if_neg hblock]
  rfl

/-- A result that is a conditional over a single value is the result of the chosen branch. -/
theorem value_choose_of_single (hc : condition.samples channels = .ok c)
    (hsingle : c.isSingle = true) :
    (Node.choose condition positive negative).value channels =
      if Arithmetic.truthy (c.cell 0) then positive.value channels
      else negative.value channels := by
  rw [value, hc]
  show (if c.isSingle then _ else _) = _
  rw [if_pos hsingle]

/-- A result that is a conditional over a block evaluates both branches and chooses between them. -/
theorem value_choose_of_block {a b : Value α} (hc : condition.samples channels = .ok c)
    (hblock : ¬c.isSingle = true) (ha : positive.value channels = .ok a)
    (hb : negative.value channels = .ok b) :
    (Node.choose condition positive negative).value channels = Value.choose c a b := by
  rw [value, hc, ha, hb]
  show (if c.isSingle then _ else _) = _
  rw [if_neg hblock]
  rfl

end Node

/-! ## Expressions -/

namespace Node

variable {channels : Channels α} {S : Shape}

/-- The blocks of several expressions, from those of each. -/
theorem samplesOf_represents {nodes : List Node}
    (h : ∀ node ∈ nodes, ∃ block, node.samples channels = .ok block ∧
      block.Represents S fun p => node.valueAt (channels.place S p)) :
    ∃ blocks, samplesOf channels nodes = .ok blocks ∧ blocks.length = nodes.length ∧
      Samples.RepresentsAll S (fun p => valuesAt (channels.place S p) nodes) blocks := by
  induction nodes with
  | nil => exact ⟨[], by rw [samplesOf], rfl, by simp, fun p _ => by simp [valuesAt]⟩
  | cons node nodes ih =>
    obtain ⟨block, hblock, hfits, hread⟩ := h node List.mem_cons_self
    obtain ⟨blocks, hblocks, hlength, hallfit, hallread⟩ :=
      ih fun n hn => h n (List.mem_cons_of_mem _ hn)
    refine ⟨block :: blocks, ?_, by rw [List.length_cons, List.length_cons, hlength], ?_, ?_⟩
    · rw [samplesOf, hblock, hblocks]
      rfl
    · intro s hs
      rcases List.mem_cons.mp hs with rfl | hs
      · exact hfits
      · exact hallfit s hs
    · intro p hp
      simp only [List.map_cons, hread p hp, hallread p hp, valuesAt]

/-- An expression without arrays has a value for uniform channels, and at each place it is the value
for the numbers there. -/
theorem samples_represents (hS : channels.Uniform S) {tree : Node} (hfree : tree.ArrayFree)
    (hcalls : tree.CallsFit) :
    ∃ block, tree.samples channels = .ok block ∧
      block.Represents S fun p => tree.valueAt (channels.place S p) := by
  induction tree using induct with
  | number value =>
    refine ⟨_, by rw [samples], ?_⟩
    simp only [valueAt]
    exact Samples.represents_single S _
  | channel c =>
    refine ⟨_, by rw [samples], ?_⟩
    simp only [valueAt]
    exact Channels.read_represents hS c
  | call f args ih =>
    rw [arrayFree_call] at hfree
    rw [callsFit_call] at hcalls
    obtain ⟨blocks, hblocks, hlength, hfits, hread⟩ :=
      samplesOf_represents fun arg harg => ih arg harg (hfree arg harg) (hcalls.2 arg harg)
    obtain ⟨block, hblock, hfit, hvalue⟩ :=
      Builtin.apply_represents (f := f) (by rw [hlength]; exact hcalls.1) hfits
    refine ⟨block, ?_, hfit, fun p hp => ?_⟩
    · rw [samples, hblocks]
      exact hblock
    · simp only [hvalue p hp, hread p hp, valueAt]
  | binary op left right ihl ihr =>
    rw [arrayFree_binary] at hfree
    rw [callsFit_binary] at hcalls
    obtain ⟨a, ha, hafit, haread⟩ := ihl hfree.1 hcalls.1
    obtain ⟨b, hb, hbfit, hbread⟩ := ihr hfree.2 hcalls.2
    obtain ⟨block, hblock, hfit, hvalue⟩ := Samples.operate_represents op hafit hbfit
    refine ⟨block, ?_, hfit, fun p hp => ?_⟩
    · rw [samples, ha, hb]
      exact hblock
    · simp only [hvalue p hp, haread p hp, hbread p hp, valueAt]
  | choose condition positive negative ihc ihp ihn =>
    rw [arrayFree_choose] at hfree
    rw [callsFit_choose] at hcalls
    obtain ⟨c, hc, hcrep⟩ := ihc hfree.1 hcalls.1
    obtain ⟨a, ha, hafit, haread⟩ := ihp hfree.2.1 hcalls.2.1
    obtain ⟨b, hb, hbfit, hbread⟩ := ihn hfree.2.2 hcalls.2.2
    by_cases hsingle : c.isSingle
    · -- one branch is evaluated, and the condition is the same number at every place
      have hcell : ∀ p < S.size, c.cell 0 = condition.valueAt (channels.place S p) :=
        fun p hp => hcrep.cell_eq hsingle hp
      by_cases ht : Arithmetic.truthy (c.cell 0)
      · refine ⟨a, ?_, hafit, fun p hp => ?_⟩
        · rw [samples_choose_of_single hc hsingle, if_pos ht, ha]
        · simp only [haread p hp, valueAt, ← hcell p hp, if_pos ht]
      · refine ⟨b, ?_, hbfit, fun p hp => ?_⟩
        · rw [samples_choose_of_single hc hsingle, if_neg ht, hb]
        · simp only [hbread p hp, valueAt, ← hcell p hp, if_neg ht]
    · obtain ⟨block, hblock, hfit, hvalue⟩ := Samples.choose_represents hcrep.1 hafit hbfit
      refine ⟨block, ?_, hfit, fun p hp => ?_⟩
      · rw [samples_choose_of_block hc hsingle ha hb, hblock]
      · simp only [hvalue p hp, hcrep.2 p hp, haread p hp, hbread p hp, valueAt]
  | array items _ => exact absurd hfree (not_arrayFree_array items)

end Node

/-! ## Results -/

/-- Two arrays of one length are combined part by part. -/
theorem Samples.mapM_choose_represents {S : Shape} {condition : Samples α}
    (hc : condition.Fits S) :
    ∀ {positive negative : List (Samples α)}, positive.length = negative.length →
      (∀ s ∈ positive, s.Fits S) → (∀ s ∈ negative, s.Fits S) →
      ∃ blocks, ((positive.zip negative).mapM fun (p, n) => choose condition p n) = .ok blocks ∧
        blocks.length = positive.length ∧
        RepresentsAll S (fun p => if Arithmetic.truthy (condition.read S p)
          then positive.map fun s => s.read S p else negative.map fun s => s.read S p) blocks
  | [], [], _, _, _ => ⟨[], rfl, rfl, by simp, fun p _ => by simp⟩
  | a :: positive, b :: negative, hlength, hp, hn => by
    obtain ⟨block, hblock, hfit, hread⟩ :=
      choose_represents hc (hp a List.mem_cons_self) (hn b List.mem_cons_self)
    obtain ⟨blocks, hblocks, hlen, hallfit, hallread⟩ :=
      mapM_choose_represents hc (by simpa using hlength)
        (fun s hs => hp s (List.mem_cons_of_mem _ hs)) fun s hs => hn s (List.mem_cons_of_mem _ hs)
    refine ⟨block :: blocks, ?_, by rw [List.length_cons, List.length_cons, hlen], ?_, ?_⟩
    · rw [List.zip_cons_cons, List.mapM_cons, hblocks]
      show (choose condition a b >>= _) = _
      rw [hblock]
      rfl
    · intro s hs
      rcases List.mem_cons.mp hs with rfl | hs
      · exact hfit
      · exact hallfit s hs
    · intro p hq
      simp only [List.map_cons, hread p hq, hallread p hq]
      split <;> rfl

namespace Node

variable {channels : Channels α} {S : Shape}

/-- A formula with an arity has that many values for uniform channels, and at each place they are
the values for the numbers there. -/
theorem value_represents (hS : channels.Uniform S) {n : Nat} {tree : Node}
    (harity : tree.resultArity = some n) (hplaced : tree.ArraysPlaced)
    (hcalls : tree.CallsFit) :
    ∃ blocks, tree.value channels = .ok (.parts blocks) ∧ blocks.length = n ∧
      Samples.RepresentsAll S (fun p => tree.resultAt (channels.place S p)) blocks := by
  induction tree using induct with
  | number value => simp [resultArity] at harity
  | channel c => simp [resultArity] at harity
  | call f args _ => simp [resultArity] at harity
  | binary op left right _ _ => simp [resultArity] at harity
  | array items _ =>
    rw [arraysPlaced_array] at hplaced
    rw [callsFit_array] at hcalls
    obtain ⟨blocks, hblocks, hlength, hfits, hread⟩ := samplesOf_represents fun item hitem =>
      samples_represents hS (hplaced item hitem) (hcalls item hitem)
    refine ⟨blocks, ?_, ?_, hfits, fun p hp => ?_⟩
    · rw [value, hblocks]
      rfl
    · rw [hlength]
      simpa [resultArity] using harity
    · simp only [hread p hp, resultAt]
  | choose condition positive negative _ ihp ihn =>
    rw [resultArity_choose] at harity
    rw [arraysPlaced_choose] at hplaced
    rw [callsFit_choose] at hcalls
    obtain ⟨c, hc, hcrep⟩ := samples_represents hS hplaced.1 hcalls.1
    obtain ⟨as, ha, halength, hafits, haread⟩ := ihp harity.1 hplaced.2.1 hcalls.2.1
    obtain ⟨bs, hb, hblength, hbfits, hbread⟩ := ihn harity.2 hplaced.2.2 hcalls.2.2
    by_cases hsingle : c.isSingle
    · -- one branch is evaluated, and the condition is the same number at every place
      have hcell : ∀ p < S.size, c.cell 0 = condition.valueAt (channels.place S p) :=
        fun p hp => hcrep.cell_eq hsingle hp
      by_cases ht : Arithmetic.truthy (c.cell 0)
      · refine ⟨as, ?_, halength, hafits, fun p hp => ?_⟩
        · rw [value_choose_of_single hc hsingle, if_pos ht, ha]
        · simp only [haread p hp, resultAt, ← hcell p hp, if_pos ht]
      · refine ⟨bs, ?_, hblength, hbfits, fun p hp => ?_⟩
        · rw [value_choose_of_single hc hsingle, if_neg ht, hb]
        · simp only [hbread p hp, resultAt, ← hcell p hp, if_neg ht]
    · obtain ⟨blocks, hblocks, hlength, hfits, hread⟩ :=
        Samples.mapM_choose_represents hcrep.1 (halength.trans hblength.symm) hafits hbfits
      refine ⟨blocks, ?_, hlength.trans halength, hfits, fun p hp => ?_⟩
      · rw [value_choose_of_block hc hsingle ha hb]
        show Except.map Value.parts _ = _
        rw [hblocks]
        rfl
      · simp only [hread p hp, hcrep.2 p hp, haread p hp, hbread p hp, resultAt]

end Node

end LayerBlend
