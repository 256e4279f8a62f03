import LayerBlend.Arithmetic.Double
import LayerBlend.Proofs.Formula.Pictures

/-!
# Blocks are evaluated like single values

* `Samples.pick S p block` — the single value that a block shows at place `p` of `S`;
  `Channels.pick` does the same to every channel.
* `Channels.place_pick` — the picked channels have the numbers of that place.
* `Engine.AgreesAt engine channels S p` — evaluating a formula and picking a place gives what
  picking the place and evaluating gives, for the formula and for every node of it. Each of the two
  has its own nesting levels, and evaluating for the place takes no more of them.
* `Engine.agreesAt_of_compile` — this holds of every formula that compiles and at every place, so a
  conditional that evaluates both branches and chooses place by place agrees with one that
  evaluates the chosen branch only.
-/

namespace LayerBlend

variable {α : Type} [Arithmetic α]

namespace Samples

/-- The single value that a block shows at a place. -/
def pick (S : Shape) (p : Nat) (s : Samples α) : Samples α :=
  single (s.read S p)

/-- A block without axes is a single value. -/
theorem eq_single {s : Samples α} (h : s.shape = []) : s = single (s.cell 0) := by
  obtain ⟨shape, cells, hsize⟩ := s
  obtain rfl : shape = [] := h
  have hone : cells.size = 1 := hsize
  have hcells : cells = #[cells.getD 0 Arithmetic.zero] := by
    refine Array.ext (by simp [hone]) fun i hi _ => ?_
    obtain rfl : i = 0 := by omega
    simp [hi]
  unfold single cell
  congr 1

/-- A block without axes that represents numbers is the first of them. -/
theorem Represents.eq_single {g : Nat → α} {s : Samples α} (h : s.Represents [] g) :
    s = single (g 0) := by
  have hshape : s.shape = [] := h.1.elim id id
  rw [← h.2 0 Nat.one_pos, read_single hshape]
  exact Samples.eq_single hshape

/-- Blocks without axes that represent lists of numbers are the first of the lists. -/
theorem RepresentsAll.eq_map_single {g : Nat → List α} {blocks : List (Samples α)}
    (h : RepresentsAll [] g blocks) : blocks = (g 0).map single := by
  rw [← h.2 0 Nat.one_pos, List.map_map]
  conv => lhs; rw [← List.map_id blocks]
  refine List.map_congr_left fun s hs => ?_
  have hshape : s.shape = [] := (h.1 s hs).elim id id
  show s = single (s.read [] 0)
  rw [read_single hshape]
  exact Samples.eq_single hshape

/-- A single value is picked from a block when it is the number that the block represents there. -/
theorem Represents.eq_pick {S : Shape} {g g' : Nat → α} {block picked : Samples α} {p : Nat}
    (h : block.Represents S g) (hp : p < S.size) (hpicked : picked.Represents [] g')
    (heq : g' 0 = g p) : picked = block.pick S p := by
  unfold pick
  rw [h.2 p hp, ← heq]
  exact hpicked.eq_single

/-- Single values are picked from blocks when they are the numbers that the blocks represent
there. -/
theorem RepresentsAll.eq_map_pick {S : Shape} {g g' : Nat → List α}
    {blocks picked : List (Samples α)} {p : Nat} (h : RepresentsAll S g blocks) (hp : p < S.size)
    (hpicked : RepresentsAll [] g' picked) (heq : g' 0 = g p) :
    picked = blocks.map (Samples.pick S p) := by
  rw [hpicked.eq_map_single, heq, ← h.2 p hp, List.map_map]
  rfl

end Samples

namespace Channels

/-- The channels with the value at one place in the place of each block. -/
def pick (channels : Channels α) (S : Shape) (p : Nat) : Channels α :=
  fun c => (channels c).map (Samples.pick S p)

theorem uniform_pick (channels : Channels α) (S : Shape) (p : Nat) :
    (channels.pick S p).Uniform [] := by
  intro c block h
  obtain ⟨_, _, rfl⟩ := Option.map_eq_some_iff.mp h
  exact Samples.fits_single [] _

/-- The picked channels have the numbers of the place. -/
theorem place_pick {channels : Channels α} {S : Shape} (hS : channels.Uniform S) {p : Nat}
    (hp : p < S.size) : (channels.pick S p).place [] 0 = channels.place S p := by
  funext c
  unfold place read pick
  cases hc : channels c with
  | none =>
    show (Samples.single Arithmetic.zero).read [] 0 = (Samples.single Arithmetic.zero).read S p
    rw [Samples.read_single rfl, Samples.read_single rfl]
  | some block =>
    show ((Samples.single (block.read S p)).map Arithmetic.orZero).read [] 0 =
      (block.map Arithmetic.orZero).read S p
    rw [(hS c block hc).read_map Arithmetic.orZero hp, Samples.read_single rfl,
      Samples.cell_map Arithmetic.orZero Nat.one_pos, Samples.cell_single]

/-- A condition that is a single value keeps it for single values that have the numbers of a place.
-/
theorem decides_of_place {channels others : Channels α} {S : Shape} (hS : channels.Uniform S)
    {p : Nat} (hp : p < S.size) (hothers : others.Uniform [])
    (hplace : others.place [] 0 = channels.place S p) : channels.Decides others := by
  intro condition hfree hcalls
  obtain ⟨a, ha, harep⟩ := Node.samples_represents hS hfree hcalls
  obtain ⟨b, hb, hbrep⟩ := Node.samples_represents hothers hfree hcalls
  have hbsingle : b.isSingle = true := Samples.isSingle_iff.mpr (hbrep.1.elim id id)
  refine ⟨a, b, ha, hb, fun hsingle => ⟨hbsingle, ?_⟩⟩
  rw [hbrep.cell_eq hbsingle Nat.one_pos, hplace, ← harep.cell_eq hsingle hp]

end Channels

namespace Engine

/-- Evaluating a formula and picking a place gives what picking the place and evaluating gives. -/
structure AgreesAt (engine : Engine) (channels : Channels α) (S : Shape) (p : Nat) : Prop where
  /-- The values of the formula, as many as the engine says, each evaluation within its own nesting
  levels. -/
  values : ∃ values,
    engine.call channels = within nestingLimit (engine.tree.levels channels) (.ok values) ∧
    values.length = engine.arity ∧ (∀ block ∈ values, block.Fits S) ∧
    engine.call (channels.pick S p) =
      within nestingLimit (engine.tree.levels (channels.pick S p))
        (.ok (values.map (Samples.pick S p)))
  /-- Evaluating for the place nests no deeper, as it takes one branch of each conditional. -/
  levels : engine.tree.levels (channels.pick S p) ≤ engine.tree.levels channels
  /-- The arrays where the result stands, under conditionals nested to any depth. -/
  arrays : ∀ node ∈ engine.tree.results, ∃ parts, node.value channels = .ok (.parts parts) ∧
    (∀ part ∈ parts, part.Fits S) ∧
    node.value (channels.pick S p) = .ok (.parts (parts.map (Samples.pick S p)))
  /-- The blocks at every other position. -/
  blocks : ∀ node ∈ engine.tree.inner, ∃ block, node.samples channels = .ok block ∧
    block.Fits S ∧ node.samples (channels.pick S p) = .ok (block.pick S p)

/-- A formula that compiles is evaluated place by place. -/
theorem agreesAt_of_compile {text : String} {engine : Engine} (h : compile text = .ok engine)
    {channels : Channels α} {S : Shape} (hS : channels.Uniform S) {p : Nat} (hp : p < S.size) :
    engine.AgreesAt channels S p := by
  have hwf := wellFormed_of_compile h
  have hpick := channels.uniform_pick S p
  have hplace := Channels.place_pick hS hp
  refine ⟨?_, ?_, fun node hnode => ?_, fun node hnode => ?_⟩
  · obtain ⟨values, hvalues, hlength, hrep⟩ := hwf.call_represents hS
    obtain ⟨picked, hpicked, _, hprep⟩ := hwf.call_represents hpick
    refine ⟨values, hvalues, hlength, hrep.1, ?_⟩
    rw [hpicked, hrep.eq_map_pick hp hprep (by rw [hplace])]
  · exact Node.levels_le_of_decides (Channels.decides_of_place hS hp hpick hplace)
      hwf.arraysPlaced hwf.callsFit
  · obtain ⟨parts, hparts, _, hrep⟩ := hwf.value_represents hS hnode
    obtain ⟨picked, hpicked, _, hprep⟩ := hwf.value_represents hpick hnode
    refine ⟨parts, hparts, hrep.1, ?_⟩
    rw [hpicked, hrep.eq_map_pick hp hprep (by rw [hplace])]
  · obtain ⟨block, hblock, hrep⟩ := hwf.samples_represents hS hnode
    obtain ⟨picked, hpicked, hprep⟩ := hwf.samples_represents hpick hnode
    refine ⟨block, hblock, hrep.1, ?_⟩
    rw [hpicked, hrep.eq_pick hp hprep (by rw [hplace])]

/-- A conditional over a block with a zero, a NaN and an infinity, at the second of its pixels; and
a formula that nests too deeply over a block of halves, of which each has its values. -/
theorem agreesAt_of_compile_nan_condition :
    (∃ engine, compile "1 / gb ? [rb, gb, 1] : (rb ? [0, 0, rs] : [1, bs, 0])" = .ok engine ∧
      engine.AgreesAt (α := Float) (fun c => if c.side = .base then
        some ⟨[3], #[0, Double.nan, Double.infinity], rfl⟩ else none) [3] 1) ∧
    let halves : Channels Float := fun _ => some ⟨[2], #[Arithmetic.half, Arithmetic.half], rfl⟩
    ∃ engine values, compile (longSum 600) = .ok engine ∧
      engine.call halves = .error .tooDeep ∧ engine.call (halves.pick [2] 1) = .ok values := by
  constructor
  · obtain ⟨engine, h⟩ : ∃ engine,
        compile "1 / gb ? [rb, gb, 1] : (rb ? [0, 0, rs] : [1, bs, 0])" = .ok engine :=
      exists_eq_ok (by decide +kernel)
    refine ⟨engine, h, agreesAt_of_compile h (fun c block hblock => ?_) (by decide)⟩
    split at hblock
    · cases hblock
      exact Or.inr rfl
    · cases hblock
  · intro halves
    obtain ⟨engine, h, -, hdeep⟩ := compile_longSum
    have hwf := wellFormed_of_compile h
    have hpainted : halves.Painted [2] := ⟨List.cons_ne_nil 2 [], fun _ => ⟨_, rfl, rfl⟩⟩
    have hlevels := Node.levels_eq_pictureLevels hpainted hwf.arraysPlaced hwf.callsFit
    have hpick : halves.pick [2] 1 = Channels.half := rfl
    obtain ⟨values, hvalues, -, -, hpicked⟩ :=
      (agreesAt_of_compile h hpainted.uniform (by decide : 1 < Shape.size [2])).values
    rw [hlevels, within_of_lt hdeep] at hvalues
    rw [hpick, within_of_le (levels_half_le_of_compile h)] at hpicked
    exact ⟨engine, _, h, hvalues, hpick ▸ hpicked⟩

end Engine

end LayerBlend
