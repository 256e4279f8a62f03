import LayerBlend.Proofs.Arithmetic.Normalization
import LayerBlend.Proofs.Formula.Pictures

/-!
# Compiled formulas are safe

* `Engine.Safe engine channels S` — the evaluation of `engine` for `channels` meets none of its
  failing cases but the one of nesting, which it meets exactly when it takes more levels than there
  are; and its values are finite doubles in `[0, 1]`, each block of shape `S` or single.
* `Engine.safe_of_compile` — this holds of every formula that compiles, for channels that are
  missing, single values or blocks of one shape, whatever numbers they hold.
-/

namespace LayerBlend.Engine

/-- The evaluation of a formula meets none of its failing cases but the one of nesting. -/
structure Safe (engine : Engine) (channels : Channels Float) (S : Shape) : Prop where
  /-- There are as many values as the engine says, three or four. -/
  arity : engine.arity = 3 ∨ engine.arity = 4
  /-- Within the nesting limit the call succeeds, and every number of its values is finite and in
  `[0, 1]`. -/
  values : engine.tree.levels channels ≤ nestingLimit →
    ∃ values, engine.call channels = .ok values ∧ values.length = engine.arity ∧
      ∀ block ∈ values, block.Fits S ∧ ∀ x ∈ block.cells, Double.IsUnit x
  /-- Beyond the limit it has the fault of nesting. -/
  nesting : nestingLimit < engine.tree.levels channels → engine.call channels = .error .tooDeep
  /-- With every channel at one half it stays within the limit. -/
  probe : engine.tree.levels Channels.half ≤ nestingLimit
  /-- Every call has a number of arguments that its function takes. -/
  calls : ∀ f args, .call f args ∈ engine.tree.subtrees → f.accepts args.length
  /-- Operands, arguments, conditions and items of arrays are blocks, never arrays. -/
  blocks : ∀ node ∈ engine.tree.inner, ∃ block, node.samples channels = .ok block ∧ block.Fits S
  /-- Where the result stands there is an array. -/
  arrays : ∀ node ∈ engine.tree.results, ∃ parts, node.value channels = .ok (.parts parts) ∧
    parts.length = engine.arity ∧ ∀ part ∈ parts, part.Fits S
  /-- The two branches of a conditional there are arrays of the same length, whatever its condition
  chooses. -/
  branches : ∀ condition positive negative,
    .choose condition positive negative ∈ engine.tree.results →
      ∃ c ps ns, condition.samples channels = .ok c ∧ positive.value channels = .ok (.parts ps) ∧
        negative.value channels = .ok (.parts ns) ∧ ps.length = ns.length

/-- Every number of the values of a formula is finite and in `[0, 1]`. -/
theorem isUnit_of_call {engine : Engine} {channels : Channels Float}
    {values : List (Samples Float)} (h : engine.call channels = .ok values)
    {block : Samples Float} (hblock : block ∈ values) {x : Float} (hx : x ∈ block.cells) :
    Double.IsUnit x := by
  unfold call at h
  split at h
  · cases h
  · cases h
  · cases h
    obtain ⟨part, _, rfl⟩ := List.mem_map.mp hblock
    obtain ⟨y, _, rfl⟩ := Array.mem_map.mp hx
    exact Double.isUnit_normalize y

/-- A formula that compiles is safe. -/
theorem safe_of_compile {text : String} {engine : Engine} (h : compile text = .ok engine)
    {channels : Channels Float} {S : Shape} (hS : channels.Uniform S) :
    engine.Safe channels S := by
  have hwf := wellFormed_of_compile h
  have harrays : ∀ node ∈ engine.tree.results, ∃ parts,
      node.value channels = .ok (.parts parts) ∧ parts.length = engine.arity ∧
        ∀ part ∈ parts, part.Fits S := by
    intro node hnode
    obtain ⟨parts, hparts, hlength, hrep⟩ := hwf.value_represents hS hnode
    exact ⟨parts, hparts, hlength, hrep.1⟩
  have hblocks : ∀ node ∈ engine.tree.inner, ∃ block,
      node.samples channels = .ok block ∧ block.Fits S := by
    intro node hnode
    obtain ⟨block, hblock, hrep⟩ := hwf.samples_represents hS hnode
    exact ⟨block, hblock, hrep.1⟩
  obtain ⟨values, hcall, hlength, hrep⟩ := hwf.call_represents hS
  refine ⟨hwf.arity, ?_, ?_, levels_half_le_of_compile h, hwf.callsFit, hblocks, harrays, ?_⟩
  · intro hlevels
    rw [within_of_le hlevels] at hcall
    refine ⟨values, hcall, hlength, fun block hblock => ⟨hrep.1 block hblock, fun x hx => ?_⟩⟩
    exact isUnit_of_call hcall hblock hx
  · intro hlevels
    rw [within_of_lt hlevels] at hcall
    exact hcall
  · intro condition positive negative hmem
    obtain ⟨hc, hp, hn⟩ := Node.positions_of_choose_mem_results hmem
    obtain ⟨c, hcvalue, _⟩ := hblocks condition hc
    obtain ⟨ps, hps, hpslength, _⟩ := harrays positive hp
    obtain ⟨ns, hns, hnslength, _⟩ := harrays negative hn
    exact ⟨c, ps, ns, hcvalue, hps, hns, hpslength.trans hnslength.symm⟩

/-- A condition that is NaN at both pixels of a block, which holds an infinity and a NaN; and a
formula that nests too deeply as soon as it is called without any channel. -/
theorem safe_of_compile_nan_condition :
    (∃ engine, compile "rb / as ? [rb, log(gs), 1] : [0, bb, clamp(rs)]" = .ok engine ∧
      engine.Safe (fun c => if c = ⟨.red, .base⟩ then
        some ⟨[2], #[Double.infinity, Double.nan], rfl⟩ else none) [2]) ∧
    ∃ engine, compile (longSum 600) = .ok engine ∧
      engine.call (fun _ => none : Channels Float) = .error .tooDeep := by
  constructor
  · obtain ⟨engine, h⟩ : ∃ engine,
        compile "rb / as ? [rb, log(gs), 1] : [0, bb, clamp(rs)]" = .ok engine :=
      exists_eq_ok (by decide +kernel)
    refine ⟨engine, h, safe_of_compile h fun c block hblock => ?_⟩
    split at hblock
    · cases hblock
      exact Or.inr rfl
    · cases hblock
  · obtain ⟨engine, h, hdeep, -⟩ := compile_longSum
    have hmissing : Channels.Uniform (fun _ => none : Channels Float) [] := by
      intro c block hblock
      cases hblock
    exact ⟨engine, h, (safe_of_compile h hmissing).nesting hdeep⟩

end LayerBlend.Engine
