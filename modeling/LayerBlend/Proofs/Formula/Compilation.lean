import LayerBlend.Proofs.Formula.Nesting
import LayerBlend.Proofs.Formula.ParserStability

/-!
# What compiling establishes

* `compile_eq_ok_iff` — what a compiled text is made of; `compile_eq_ok` — its tokens, its tree and
  its arity.
* `compile_of_isFormula` — a formula with three or four values compiles, or exceeds the limit on
  nesting levels; its probe cannot fail in another way (`Node.probe_eq`, `Engine.checkProbe_eq`).
* `Engine.WellFormed` — the invariant of compiled formulas: calls have numbers of arguments that
  their functions take, arrays stand at the result position only, and every branch at the result
  position gives as many values as the engine says, three or four.
* `Engine.wellFormed_of_compile` — whatever compiles is well formed.
* `Engine.WellFormed.samples_represents`, `Engine.WellFormed.value_represents` — every node of a
  well-formed formula has a value for uniform channels, a block where the result does not stand and
  an array of the engine's length where it does.
* `Engine.WellFormed.call_represents` — so the formula has a value, within the levels of its
  evaluation, which at each place is the clipped `Node.resultAt` of the numbers there.
-/

namespace LayerBlend

open Grammar

/-- A text compiles to an engine exactly when every step of compiling gives what the engine
holds. -/
theorem compile_eq_ok_iff {text : String} {engine : Engine} :
    compile text = .ok engine ↔ ∃ tokens, tokenize text = .ok tokens ∧
      Engine.parseTree (expandShorthand tokens) = .ok engine.tree ∧
      Engine.checkArity engine.tree = .ok engine.arity ∧
      Engine.checkProbe engine.tree engine.arity = .ok () ∧
      engine.text = text ∧ engine.expanded = render (expandShorthand tokens) := by
  constructor
  · intro h
    obtain ⟨tokens, htokens, hmore⟩ := bind_eq_ok.mp h
    obtain ⟨tree, htree, hmore⟩ := bind_eq_ok.mp hmore
    obtain ⟨arity, harity, hmore⟩ := bind_eq_ok.mp hmore
    obtain ⟨_, hprobe, hpure⟩ := bind_eq_ok.mp hmore
    cases hpure
    exact ⟨tokens, htokens, htree, harity, hprobe, rfl, rfl⟩
  · rintro ⟨tokens, htokens, htree, harity, hprobe, rfl, hexpanded⟩
    refine bind_eq_ok.mpr ⟨tokens, htokens, bind_eq_ok.mpr ⟨engine.tree, htree, ?_⟩⟩
    refine bind_eq_ok.mpr ⟨engine.arity, harity, bind_eq_ok.mpr ⟨(), hprobe, ?_⟩⟩
    rw [← hexpanded]
    rfl

/-- The tree of a list of tokens is the parser's, within the limit. -/
theorem Engine.parseTree_eq_ok_iff {tokens : List Token} {tree : Node} :
    parseTree tokens = .ok tree ↔ parseWithin nestingLimit tokens = .ok tree := by
  unfold parseTree
  cases parseWithin nestingLimit tokens <;> simp

/-- The parser's tree of the tokens of a compiled text, and its arity. -/
theorem compile_eq_ok {text : String} {engine : Engine} (h : compile text = .ok engine) :
    ∃ tokens, tokenize text = .ok tokens ∧
      parseWithin Engine.nestingLimit (expandShorthand tokens) = .ok engine.tree ∧
      engine.tree.resultArity = some engine.arity ∧ (engine.arity = 3 ∨ engine.arity = 4) := by
  obtain ⟨tokens, htokens, htree, harity, _⟩ := compile_eq_ok_iff.mp h
  refine ⟨tokens, htokens, Engine.parseTree_eq_ok_iff.mp htree, ?_⟩
  unfold Engine.checkArity at harity
  split at harity
  · next hthree =>
    rw [← Except.ok.inj harity]
    exact ⟨hthree, Or.inl rfl⟩
  · next hfour =>
    rw [← Except.ok.inj harity]
    exact ⟨hfour, Or.inr rfl⟩
  · cases harity

theorem Channels.uniform_half : Channels.half.Uniform [] := by
  intro c block hblock
  cases hblock
  exact Samples.fits_single [] _

/-- The probe of a formula gives as many values as its tree says, within the levels of its
evaluation. -/
theorem Node.probe_eq {tree : Node} {n : Nat} (harity : tree.resultArity = some n)
    (hplaced : tree.ArraysPlaced) (hcalls : tree.CallsFit) :
    ∃ blocks, tree.value Channels.half = .ok (.parts blocks) ∧ blocks.length = n ∧
      tree.probe =
        within Engine.nestingLimit (tree.levels Channels.half) (.ok (.parts blocks)) := by
  obtain ⟨blocks, hblocks, hlength, _⟩ :=
    value_represents Channels.uniform_half harity hplaced hcalls
  exact ⟨blocks, hblocks, hlength, valueWithin_eq Engine.nestingLimit hblocks⟩

/-- The probe of a formula cannot fail but for its nesting. -/
theorem Engine.checkProbe_eq {tree : Node} {n : Nat} (harity : tree.resultArity = some n)
    (hplaced : tree.ArraysPlaced) (hcalls : tree.CallsFit) :
    checkProbe tree n =
      if tree.levels Channels.half ≤ nestingLimit then .ok ()
      else .error (.badSyntax .tooDeep) := by
  obtain ⟨blocks, _, hlength, hprobe⟩ := Node.probe_eq harity hplaced hcalls
  unfold checkProbe
  rw [hprobe]
  by_cases hlevels : tree.levels Channels.half ≤ nestingLimit
  · rw [within_of_le hlevels, if_pos hlevels]
    exact if_pos hlength
  · rw [within_of_lt (Nat.not_le.mp hlevels), if_neg hlevels]

/-- A formula with three or four values compiles, or exceeds the limit on nesting levels. -/
theorem compile_of_isFormula {text : String} {tokens : List Token} {tree : Node} {n : Nat}
    (htokens : tokenize text = .ok tokens)
    (htree : IsFormula ((expandShorthand tokens).map Token.terminal) tree)
    (harity : tree.resultArity = some n) (hn : n = 3 ∨ n = 4) :
    compile text = .ok ⟨text, render (expandShorthand tokens), tree, n⟩ ∨
      compile text = .error (.badSyntax .tooDeep) := by
  have hcheck : Engine.checkArity tree = .ok n := by
    unfold Engine.checkArity
    rw [harity]
    rcases hn with rfl | rfl <;> rfl
  have hprobe := Engine.checkProbe_eq harity htree.2.2 htree.2.1
  unfold compile
  rw [htokens]
  show (Engine.parseTree (expandShorthand tokens) >>= _) = _ ∨ (Engine.parseTree _ >>= _) = _
  unfold Engine.parseTree
  have hwithin : parseWithin Engine.nestingLimit (expandShorthand tokens) = .ok tree ∨
      parseWithin Engine.nestingLimit (expandShorthand tokens) = .error .tooDeep :=
    parseWithin_of_parse (parse_of_isFormula htree)
  rcases hwithin with hparse | hparse
  · rw [hparse]
    show (Engine.checkArity tree >>= _) = _ ∨ (Engine.checkArity tree >>= _) = _
    rw [hcheck]
    show (Engine.checkProbe tree n >>= _) = _ ∨ (Engine.checkProbe tree n >>= _) = _
    rw [hprobe]
    split
    · exact Or.inl rfl
    · exact Or.inr rfl
  · rw [hparse]
    exact Or.inr rfl

namespace Engine

/-- The invariant of compiled formulas. -/
structure WellFormed (engine : Engine) : Prop where
  /-- Every call has a number of arguments that its function takes. -/
  callsFit : engine.tree.CallsFit
  /-- Arrays stand at the result position only. -/
  arraysPlaced : engine.tree.ArraysPlaced
  /-- Every branch at the result position gives as many values as the engine says. -/
  resultArity : engine.tree.resultArity = some engine.arity
  /-- There are three or four of them. -/
  arity : engine.arity = 3 ∨ engine.arity = 4

/-- A compiled formula is well formed. -/
theorem wellFormed_of_compile {text : String} {engine : Engine}
    (h : compile text = .ok engine) : engine.WellFormed := by
  obtain ⟨_, _, hparse, hresult, harity⟩ := compile_eq_ok h
  obtain ⟨_, hcalls, harrays⟩ := isFormula_of_parseWithin hparse
  exact ⟨hcalls, harrays, hresult, harity⟩

/-- The probe of a compiled formula does not nest beyond the limit. -/
theorem levels_half_le_of_compile {text : String} {engine : Engine}
    (h : compile text = .ok engine) : engine.tree.levels Channels.half ≤ nestingLimit := by
  have hwf := wellFormed_of_compile h
  obtain ⟨_, _, _, _, hprobe, _⟩ := compile_eq_ok_iff.mp h
  rw [checkProbe_eq hwf.resultArity hwf.arraysPlaced hwf.callsFit] at hprobe
  split at hprobe
  · assumption
  · cases hprobe

namespace WellFormed

variable {α : Type} [Arithmetic α] {engine : Engine} {channels : Channels α} {S : Shape}

/-- A node outside the result position has a block as its value. -/
theorem samples_represents (h : engine.WellFormed) (hS : channels.Uniform S) {node : Node}
    (hnode : node ∈ engine.tree.inner) :
    ∃ block, node.samples channels = .ok block ∧
      block.Represents S fun p => node.valueAt (channels.place S p) := by
  have hsub : node ∈ engine.tree.subtrees := Node.mem_subtrees_iff.mpr (Or.inr hnode)
  exact Node.samples_represents hS (h.arraysPlaced.arrayFree hnode) (h.callsFit.mono hsub)

/-- A node at the result position has an array of the engine's length as its value. -/
theorem value_represents (h : engine.WellFormed) (hS : channels.Uniform S) {node : Node}
    (hnode : node ∈ engine.tree.results) :
    ∃ blocks, node.value channels = .ok (.parts blocks) ∧ blocks.length = engine.arity ∧
      Samples.RepresentsAll S (fun p => node.resultAt (channels.place S p)) blocks := by
  have hsub : node ∈ engine.tree.subtrees := Node.mem_subtrees_iff.mpr (Or.inl hnode)
  exact Node.value_represents hS (Node.resultArity_of_results h.resultArity hnode)
    (h.arraysPlaced.mono hnode) (h.callsFit.mono hsub)

/-- A well-formed formula has as many values as the engine says, within the levels of its
evaluation, and at each place they are those of the tree for the numbers there, clipped. -/
theorem call_represents (h : engine.WellFormed) (hS : channels.Uniform S) :
    ∃ values, engine.call channels =
        within nestingLimit (engine.tree.levels channels) (.ok values) ∧
      values.length = engine.arity ∧ Samples.RepresentsAll S
        (fun p => (engine.tree.resultAt (channels.place S p)).map Arithmetic.normalize) values := by
  obtain ⟨blocks, hblocks, hlength, hrep⟩ := h.value_represents hS (Node.self_mem_results _)
  refine ⟨blocks.map (Samples.map Arithmetic.normalize), ?_, ?_, hrep.map _⟩
  · unfold call
    rw [Node.valueWithin_eq nestingLimit hblocks]
    by_cases hlevels : engine.tree.levels channels ≤ nestingLimit
    · rw [within_of_le hlevels, within_of_le hlevels]
    · rw [within_of_lt (Nat.not_le.mp hlevels), within_of_lt (Nat.not_le.mp hlevels)]
  · rw [List.length_map]
    exact hlength

end WellFormed

end Engine

end LayerBlend
