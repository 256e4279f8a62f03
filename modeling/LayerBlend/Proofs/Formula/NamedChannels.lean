import LayerBlend.Arithmetic.Double
import LayerBlend.Proofs.Formula.Likeness

/-!
# A formula reads the channels that it names

* `Node.named` — the channels that occur in a tree (`Node.mem_named`).
* `Environment` — blocks that are given for names, of which only those of channels are looked up.
* `Node.like_self` — a tree is like itself for every relation that its own channels have to
  themselves, so it evaluates alike for environments in which these read the same
  (`Engine.call_eq_of_named`).
* `Channels.only`, `Engine.WellFormed.call_of_named` — a formula has its values as soon as what it
  names fits one shape, whatever is given for the other channels.
* `Engine.call_of_agreement` — both of every formula that compiles, for all environments.
-/

namespace LayerBlend

/-- The blocks that are given for names. -/
abbrev Environment (α : Type) := String → Option (Samples α)

/-- The blocks that are given for the names of channels. -/
def Environment.channels {α : Type} (env : Environment α) : Channels α :=
  fun c => env c.name

namespace Node

/-! ## Named channels -/

/-- The channel that a node is. -/
def channel? : Node → Option Channel
  | .channel c => some c
  | _ => none

/-- The channels that occur in a tree. -/
def named (tree : Node) : List Channel :=
  tree.subtrees.filterMap channel?

theorem mem_named {tree : Node} {c : Channel} : c ∈ tree.named ↔ .channel c ∈ tree.subtrees := by
  unfold named
  rw [List.mem_filterMap]
  constructor
  · rintro ⟨node, hnode, hc⟩
    cases node <;> cases hc
    exact hnode
  · intro h
    exact ⟨_, h, rfl⟩

@[simp] theorem named_channel (c : Channel) : (Node.channel c).named = [c] := rfl

@[simp] theorem mem_named_call {f : Builtin} {args : List Node} {c : Channel} :
    c ∈ (Node.call f args).named ↔ ∃ arg ∈ args, c ∈ arg.named := by
  simp [mem_named, subtrees, mem_subtreesOf]

@[simp] theorem mem_named_binary {op : BinaryOperator} {left right : Node} {c : Channel} :
    c ∈ (Node.binary op left right).named ↔ c ∈ left.named ∨ c ∈ right.named := by
  simp [mem_named, subtrees]

@[simp] theorem mem_named_choose {condition positive negative : Node} {c : Channel} :
    c ∈ (Node.choose condition positive negative).named ↔
      c ∈ condition.named ∨ c ∈ positive.named ∨ c ∈ negative.named := by
  simp [mem_named, subtrees]

@[simp] theorem mem_named_array {items : List Node} {c : Channel} :
    c ∈ (Node.array items).named ↔ ∃ item ∈ items, c ∈ item.named := by
  simp [mem_named, subtrees, mem_subtreesOf]

/-- A tree is like itself for every relation that the channels it names have to themselves. -/
theorem like_self {R : Channel → Channel → Prop} {tree : Node} (h : ∀ c ∈ tree.named, R c c) :
    tree.Like R tree := by
  induction tree using induct with
  | number value => simp only [Like]
  | channel c =>
    simp only [Like]
    exact h c (by simp)
  | call f args ih =>
    simp only [Like, likeAll_iff, true_and]
    apply List.forall₂_same.mpr
    intro arg harg
    exact ih arg harg fun c hc => h c (mem_named_call.mpr ⟨arg, harg, hc⟩)
  | binary op left right ihl ihr =>
    simp only [Like, true_and]
    constructor
    · exact ihl fun c hc => h c (by simp [hc])
    · exact ihr fun c hc => h c (by simp [hc])
  | choose condition positive negative ihc ihp ihn =>
    simp only [Like]
    refine ⟨?_, ?_, ?_⟩
    · exact ihc fun c hc => h c (by simp [hc])
    · exact ihp fun c hc => h c (by simp [hc])
    · exact ihn fun c hc => h c (by simp [hc])
  | array items ih =>
    simp only [Like, likeAll_iff]
    apply List.forall₂_same.mpr
    intro item hitem
    exact ih item hitem fun c hc => h c (mem_named_array.mpr ⟨item, hitem, hc⟩)

end Node

variable {α : Type} [Arithmetic α]

namespace Channels

/-- The blocks of some of the channels. -/
def only (channels : Channels α) (names : List Channel) : Channels α :=
  fun c => if c ∈ names then channels c else none

/-- Channels read the same as before when they are among those that are kept. -/
theorem read_only {channels : Channels α} {names : List Channel} {c : Channel} (h : c ∈ names) :
    (channels.only names).read c = channels.read c := by
  unfold read only
  rw [if_pos h]

/-- The blocks of some of the channels are uniform when what is read for these fits the shape. -/
theorem uniform_only {channels : Channels α} {names : List Channel} {S : Shape}
    (h : ∀ c ∈ names, (channels.read c).Fits S) : (channels.only names).Uniform S := by
  intro c block hblock
  unfold only at hblock
  split at hblock
  · next hc =>
    have hread : channels.read c = block.map Arithmetic.orZero := by
      unfold read
      rw [hblock]
    have hfits := h c hc
    rw [hread] at hfits
    exact hfits
  · cases hblock

end Channels

namespace Engine

variable {engine : Engine}

/-- A formula has the same values when the channels that it names read the same. -/
theorem call_eq_of_named {channels others : Channels α}
    (h : ∀ c ∈ engine.tree.named, channels.read c = others.read c) :
    engine.call channels = engine.call others := by
  -- the relation is that what is read for the one is what is read for the other
  apply call_eq_of_like (R := fun c d => channels.read c = others.read d)
  · intro c d hread
    exact hread
  · exact Node.like_self h

/-- A formula has its values as soon as what it reads for the channels that it names fits one shape,
within the nesting levels of its evaluation for these. -/
theorem WellFormed.call_of_named (hwf : engine.WellFormed) {channels : Channels α} {S : Shape}
    (h : ∀ c ∈ engine.tree.named, (channels.read c).Fits S) :
    ∃ values, engine.call channels =
        within nestingLimit (engine.tree.levels (channels.only engine.tree.named)) (.ok values) ∧
      values.length = engine.arity ∧ ∀ block ∈ values, block.Fits S := by
  obtain ⟨values, hvalues, hlength, hrep⟩ := hwf.call_represents (Channels.uniform_only h)
  refine ⟨values, ?_, hlength, hrep.1⟩
  rw [← hvalues]
  exact call_eq_of_named fun c hc => (Channels.read_only hc).symm

/-- A formula that compiles sees of its environment what it reads for the channels that it names. In
environments that agree on these, a channel that is missing reading as zero and so each number that
is not finite, it ends the same way, with the same numbers in the same shapes; and when what it
reads for them fits one shape, it has its values, within the nesting levels of its evaluation for
these channels. Nothing else in the environments matters: not the blocks of other channels,
whatever their shapes, and not those of other names. -/
theorem call_of_agreement {text : String} (hcompile : compile text = .ok engine)
    {env other : Environment α}
    (h : ∀ c ∈ engine.tree.named, env.channels.read c = other.channels.read c) :
    engine.call env.channels = engine.call other.channels ∧
    ∀ S : Shape, (∀ c ∈ engine.tree.named, (env.channels.read c).Fits S) →
      ∃ values, values.length = engine.arity ∧ (∀ block ∈ values, block.Fits S) ∧
        engine.call env.channels = within nestingLimit
          (engine.tree.levels (env.channels.only engine.tree.named)) (.ok values) ∧
        engine.call other.channels = within nestingLimit
          (engine.tree.levels (env.channels.only engine.tree.named)) (.ok values) := by
  have hsame := call_eq_of_named h
  refine ⟨hsame, fun S hfits => ?_⟩
  obtain ⟨values, hvalues, hlength, hshapes⟩ :=
    (wellFormed_of_compile hcompile).call_of_named hfits
  exact ⟨values, hlength, hshapes, hvalues, hsame ▸ hvalues⟩

/-- Two environments that agree on the two channels of a formula: a block with an infinity against
one with a NaN, and a NaN against nothing. The first has a block of another shape for a third
channel, the second a value for a function's name. -/
theorem call_of_agreement_not_finite :
    let env : Environment Float := fun name =>
      if name = "rb" then some ⟨[2], #[0.75, Double.infinity], rfl⟩
      else if name = "gb" then some (Samples.single Double.nan)
      else if name = "as" then some ⟨[3], #[1, 2, 3], rfl⟩
      else none
    let other : Environment Float := fun name =>
      if name = "rb" then some ⟨[2], #[0.75, Double.nan], rfl⟩
      else if name = "min" then some (Samples.single 1)
      else none
    ∃ engine values, compile "rb > 0.5 ? [rb, gb, 1] : [0, min(gb, rb), 1 / rb]" = .ok engine ∧
      engine.call env.channels = .ok values ∧ engine.call other.channels = .ok values ∧
      values.length = engine.arity ∧ ∀ block ∈ values, block.Fits [2] := by
  intro env other
  let red : Channel := ⟨.red, .base⟩
  let green : Channel := ⟨.green, .base⟩
  obtain ⟨engine, hcompile, hnamed, hdepth⟩ : ∃ engine,
      compile "rb > 0.5 ? [rb, gb, 1] : [0, min(gb, rb), 1 / rb]" = .ok engine ∧
        engine.tree.named = [red, red, green, green, red, red] ∧
        2 * engine.tree.depth ≤ nestingLimit :=
    exists_eq_ok_and (by decide +kernel)
  have hinfinity : (Arithmetic.orZero Double.infinity : Float) = Arithmetic.zero := by decide
  have hnan : (Arithmetic.orZero Double.nan : Float) = Arithmetic.zero := by decide
  have hred : env.channels.read red = other.channels.read red := by
    show Samples.map Arithmetic.orZero ⟨[2], #[0.75, Double.infinity], rfl⟩ =
      Samples.map Arithmetic.orZero ⟨[2], #[0.75, Double.nan], rfl⟩
    simp [Samples.map, hinfinity, hnan]
  have hgreen : env.channels.read green = other.channels.read green := by
    show Samples.map Arithmetic.orZero (Samples.single Double.nan) =
      Samples.single Arithmetic.zero
    rw [Samples.map_single, hnan]
  have hagree : ∀ c ∈ engine.tree.named, env.channels.read c = other.channels.read c := by
    simp [hnamed, hred, hgreen]
  have hshapes : ∀ c ∈ engine.tree.named, (env.channels.read c).Fits [2] := by
    have hredfits : (env.channels.read red).Fits [2] := Or.inr rfl
    have hgreenfits : (env.channels.read green).Fits [2] := Or.inl rfl
    simp [hnamed, hredfits, hgreenfits]
  obtain ⟨-, hvalues⟩ := call_of_agreement hcompile hagree
  obtain ⟨values, hlength, hfits, hvalues, hothers⟩ := hvalues [2] hshapes
  have hlevels : engine.tree.levels (env.channels.only engine.tree.named) ≤ nestingLimit :=
    Nat.le_trans (Node.levels_le_depth engine.tree) hdepth
  rw [within_of_le hlevels] at hvalues hothers
  exact ⟨engine, values, hcompile, hvalues, hothers, hlength, hfits⟩

end Engine

end LayerBlend
