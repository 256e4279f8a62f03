import LayerBlend.Formula.Node

/-!
# Nodes of a tree and their positions

* `Node.induct` — induction over trees, with a hypothesis for every argument of a call and every
  item of an array.
* `subtrees` — the nodes of a tree; `results` — those at the result position (the root and, below a
  conditional at the result position, its two branches); `inner` — all others.
* `CallsFit` — every call has a number of arguments that its function takes; `ArrayFree` — no array
  at all; `ArraysPlaced` — arrays stand at the result position only.
* `depth` — the number of levels of a tree.
* `resultArity_choose` — the arity of a conditional is that of both its branches, so every node at
  the result position has the arity of the tree (`resultArity_of_results`).
-/

namespace LayerBlend.Node

/-- Induction over trees. -/
theorem induct {motive : Node → Prop}
    (number : ∀ value, motive (.number value))
    (channel : ∀ c, motive (.channel c))
    (call : ∀ f args, (∀ arg ∈ args, motive arg) → motive (.call f args))
    (binary : ∀ op left right, motive left → motive right → motive (.binary op left right))
    (choose : ∀ condition positive negative, motive condition → motive positive →
      motive negative → motive (.choose condition positive negative))
    (array : ∀ items, (∀ item ∈ items, motive item) → motive (.array items)) :
    ∀ node, motive node := by
  intro node
  refine @Node.rec motive (fun nodes => ∀ node ∈ nodes, motive node)
    number channel call binary choose array (fun _ h => absurd h List.not_mem_nil) ?_ node
  intro head tail hhead htail node h
  rcases List.mem_cons.mp h with rfl | h
  · exact hhead
  · exact htail node h

/-! ## Positions -/

mutual

/-- The nodes of a tree, the root first. -/
def subtrees : Node → List Node
  | .number value => [.number value]
  | .channel c => [.channel c]
  | .call f args => .call f args :: subtreesOf args
  | .binary op left right => .binary op left right :: (subtrees left ++ subtrees right)
  | .choose condition positive negative =>
    .choose condition positive negative ::
      (subtrees condition ++ (subtrees positive ++ subtrees negative))
  | .array items => .array items :: subtreesOf items

/-- The nodes of several trees. -/
def subtreesOf : List Node → List Node
  | [] => []
  | node :: nodes => subtrees node ++ subtreesOf nodes

end

/-- The nodes at the result position. -/
def results : Node → List Node
  | .choose condition positive negative =>
    .choose condition positive negative :: (results positive ++ results negative)
  | node => [node]

/-- The nodes at any other position. -/
def inner : Node → List Node
  | .number _ | .channel _ => []
  | .call _ args => subtreesOf args
  | .binary _ left right => subtrees left ++ subtrees right
  | .choose condition positive negative => subtrees condition ++ (inner positive ++ inner negative)
  | .array items => subtreesOf items

/-- A node of several trees is a node of one of them. -/
theorem mem_subtreesOf {node : Node} {nodes : List Node} :
    node ∈ subtreesOf nodes ↔ ∃ tree ∈ nodes, node ∈ tree.subtrees := by
  induction nodes with
  | nil => simp [subtreesOf]
  | cons tree nodes ih => simp [subtreesOf, ih]

/-- The root is a node. -/
theorem self_mem_subtrees (tree : Node) : tree ∈ tree.subtrees := by
  cases tree <;> simp [subtrees]

/-- The root stands at the result position. -/
theorem self_mem_results (tree : Node) : tree ∈ tree.results := by
  cases tree <;> simp [results]

/-- Every node stands at the result position or at another one. -/
theorem mem_subtrees_iff {node tree : Node} :
    node ∈ tree.subtrees ↔ node ∈ tree.results ∨ node ∈ tree.inner := by
  induction tree using induct with
  | number value => simp [subtrees, results, inner]
  | channel c => simp [subtrees, results, inner]
  | call f args _ => simp [subtrees, results, inner]
  | binary op left right _ _ => simp [subtrees, results, inner]
  | array items _ => simp [subtrees, results, inner]
  | choose condition positive negative _ hp hn =>
    simp only [subtrees, results, inner, List.mem_cons, List.mem_append, hp, hn]
    constructor
    · rintro (h | h | (h | h) | (h | h)) <;> simp [h]
    · rintro ((h | h | h) | (h | h | h)) <;> simp [h]

/-- A node of a node of a tree is a node of the tree. -/
theorem subtrees_trans {x node tree : Node} (hx : x ∈ node.subtrees) (h : node ∈ tree.subtrees) :
    x ∈ tree.subtrees := by
  induction tree using induct with
  | number value =>
    obtain rfl := List.mem_singleton.mp h
    exact hx
  | channel c =>
    obtain rfl := List.mem_singleton.mp h
    exact hx
  | call f args ih =>
    rcases List.mem_cons.mp h with rfl | h
    · exact hx
    · obtain ⟨arg, harg, h⟩ := mem_subtreesOf.mp h
      exact List.mem_cons_of_mem _ (mem_subtreesOf.mpr ⟨arg, harg, ih arg harg h⟩)
  | binary op left right ihl ihr =>
    rcases List.mem_cons.mp h with rfl | h
    · exact hx
    · rcases List.mem_append.mp h with h | h
      · simp [subtrees, ihl h]
      · simp [subtrees, ihr h]
  | choose condition positive negative ihc ihp ihn =>
    rcases List.mem_cons.mp h with rfl | h
    · exact hx
    · rcases List.mem_append.mp h with h | h
      · simp [subtrees, ihc h]
      · rcases List.mem_append.mp h with h | h
        · simp [subtrees, ihp h]
        · simp [subtrees, ihn h]
  | array items ih =>
    rcases List.mem_cons.mp h with rfl | h
    · exact hx
    · obtain ⟨item, hitem, h⟩ := mem_subtreesOf.mp h
      exact List.mem_cons_of_mem _ (mem_subtreesOf.mpr ⟨item, hitem, ih item hitem h⟩)

/-- A node below another position than that of the result stands at such a position. -/
theorem inner_trans {x node tree : Node} (hx : x ∈ node.subtrees) (h : node ∈ tree.inner) :
    x ∈ tree.inner := by
  induction tree using induct with
  | number value => simp [inner] at h
  | channel c => simp [inner] at h
  | call f args _ =>
    obtain ⟨arg, harg, h⟩ := mem_subtreesOf.mp h
    exact mem_subtreesOf.mpr ⟨arg, harg, subtrees_trans hx h⟩
  | binary op left right _ _ =>
    rcases List.mem_append.mp h with h | h
    · exact List.mem_append_left _ (subtrees_trans hx h)
    · exact List.mem_append_right _ (subtrees_trans hx h)
  | choose condition positive negative _ ihp ihn =>
    rcases List.mem_append.mp h with h | h
    · exact List.mem_append_left _ (subtrees_trans hx h)
    · rcases List.mem_append.mp h with h | h
      · simp [inner, ihp h]
      · simp [inner, ihn h]
  | array items _ =>
    obtain ⟨item, hitem, h⟩ := mem_subtreesOf.mp h
    exact mem_subtreesOf.mpr ⟨item, hitem, subtrees_trans hx h⟩

/-- What stands inside a node at the result position stands inside the tree. -/
theorem inner_of_results {x node tree : Node} (hx : x ∈ node.inner) (h : node ∈ tree.results) :
    x ∈ tree.inner := by
  induction tree using induct with
  | choose condition positive negative _ ihp ihn =>
    rcases List.mem_cons.mp h with rfl | h
    · exact hx
    · rcases List.mem_append.mp h with h | h
      · simp [inner, ihp h]
      · simp [inner, ihn h]
  | number _ | channel _ | call _ _ _ | binary _ _ _ _ _ | array _ _ =>
    obtain rfl := List.mem_singleton.mp h
    exact hx

/-- The branches of a conditional at the result position stand there too, and its condition stands
at another position. -/
theorem positions_of_choose_mem_results {condition positive negative tree : Node}
    (h : .choose condition positive negative ∈ tree.results) :
    condition ∈ tree.inner ∧ positive ∈ tree.results ∧ negative ∈ tree.results := by
  induction tree using induct with
  | choose c p n _ ihp ihn =>
    rcases List.mem_cons.mp h with heq | h
    · cases heq
      refine ⟨List.mem_append_left _ (self_mem_subtrees _), ?_, ?_⟩
      · simp [results, self_mem_results]
      · simp [results, self_mem_results]
    · rcases List.mem_append.mp h with h | h
      · obtain ⟨hc, hp, hn⟩ := ihp h
        simp [inner, results, hc, hp, hn]
      · obtain ⟨hc, hp, hn⟩ := ihn h
        simp [inner, results, hc, hp, hn]
  | number _ | channel _ | call _ _ _ | binary _ _ _ _ _ | array _ _ =>
    simp [results] at h

/-! ## Calls -/

/-- Every call has a number of arguments that its function takes. -/
def CallsFit (tree : Node) : Prop :=
  ∀ f args, .call f args ∈ tree.subtrees → f.accepts args.length

/-- The calls of a node fit when those of the tree do. -/
theorem CallsFit.mono {node tree : Node} (h : tree.CallsFit) (hnode : node ∈ tree.subtrees) :
    node.CallsFit :=
  fun f args hf => h f args (subtrees_trans hf hnode)

@[simp] theorem callsFit_number (value : Decimal) : (Node.number value).CallsFit := by
  intro f args h
  simp [subtrees] at h

@[simp] theorem callsFit_channel (c : Channel) : (Node.channel c).CallsFit := by
  intro f args h
  simp [subtrees] at h

theorem callsFit_call {f : Builtin} {args : List Node} :
    (Node.call f args).CallsFit ↔ f.accepts args.length ∧ ∀ arg ∈ args, arg.CallsFit := by
  constructor
  · intro h
    refine ⟨h f args (self_mem_subtrees _), fun arg harg g xs hg => h g xs ?_⟩
    exact List.mem_cons_of_mem _ (mem_subtreesOf.mpr ⟨arg, harg, hg⟩)
  · rintro ⟨hf, h⟩ g xs hg
    rcases List.mem_cons.mp hg with heq | hg
    · cases heq
      exact hf
    · obtain ⟨arg, harg, hg⟩ := mem_subtreesOf.mp hg
      exact h arg harg g xs hg

theorem callsFit_binary {op : BinaryOperator} {left right : Node} :
    (Node.binary op left right).CallsFit ↔ left.CallsFit ∧ right.CallsFit := by
  simp [CallsFit, subtrees, or_imp, forall_and]

theorem callsFit_choose {condition positive negative : Node} :
    (Node.choose condition positive negative).CallsFit ↔
      condition.CallsFit ∧ positive.CallsFit ∧ negative.CallsFit := by
  simp [CallsFit, subtrees, or_imp, forall_and]

theorem callsFit_array {items : List Node} :
    (Node.array items).CallsFit ↔ ∀ item ∈ items, item.CallsFit := by
  constructor
  · intro h item hitem f args hf
    exact h f args (List.mem_cons_of_mem _ (mem_subtreesOf.mpr ⟨item, hitem, hf⟩))
  · intro h f args hf
    rcases List.mem_cons.mp hf with heq | hf
    · cases heq
    · obtain ⟨item, hitem, hf⟩ := mem_subtreesOf.mp hf
      exact h item hitem f args hf

/-! ## Arrays -/

/-- No array stands anywhere. -/
def ArrayFree (tree : Node) : Prop :=
  ∀ items, .array items ∉ tree.subtrees

/-- Arrays stand at the result position only. -/
def ArraysPlaced (tree : Node) : Prop :=
  ∀ items, .array items ∉ tree.inner

/-- A node at another position than that of the result has no array. -/
theorem ArraysPlaced.arrayFree {node tree : Node} (h : tree.ArraysPlaced)
    (hnode : node ∈ tree.inner) : node.ArrayFree :=
  fun items hitems => h items (inner_trans hitems hnode)

/-- A node at the result position has its arrays there. -/
theorem ArraysPlaced.mono {node tree : Node} (h : tree.ArraysPlaced)
    (hnode : node ∈ tree.results) : node.ArraysPlaced :=
  fun items hitems => h items (inner_of_results hitems hnode)

/-- A tree without arrays has none at another position than that of the result. -/
theorem ArrayFree.arraysPlaced {tree : Node} (h : tree.ArrayFree) : tree.ArraysPlaced :=
  fun items hitems => h items (mem_subtrees_iff.mpr (Or.inr hitems))

@[simp] theorem arrayFree_number (value : Decimal) : (Node.number value).ArrayFree := by
  intro items h
  simp [subtrees] at h

@[simp] theorem arrayFree_channel (c : Channel) : (Node.channel c).ArrayFree := by
  intro items h
  simp [subtrees] at h

theorem arrayFree_of_forall {trees : List Node} :
    (∀ items, .array items ∉ subtreesOf trees) ↔ ∀ tree ∈ trees, tree.ArrayFree := by
  constructor
  · intro h tree htree items hitems
    exact h items (mem_subtreesOf.mpr ⟨tree, htree, hitems⟩)
  · intro h items hitems
    obtain ⟨tree, htree, hitems⟩ := mem_subtreesOf.mp hitems
    exact h tree htree items hitems

theorem arrayFree_call {f : Builtin} {args : List Node} :
    (Node.call f args).ArrayFree ↔ ∀ arg ∈ args, arg.ArrayFree := by
  rw [← arrayFree_of_forall]
  simp [ArrayFree, subtrees]

theorem arrayFree_binary {op : BinaryOperator} {left right : Node} :
    (Node.binary op left right).ArrayFree ↔ left.ArrayFree ∧ right.ArrayFree := by
  simp [ArrayFree, subtrees, forall_and]

theorem arrayFree_choose {condition positive negative : Node} :
    (Node.choose condition positive negative).ArrayFree ↔
      condition.ArrayFree ∧ positive.ArrayFree ∧ negative.ArrayFree := by
  simp [ArrayFree, subtrees, forall_and]

@[simp] theorem not_arrayFree_array (items : List Node) : ¬ (Node.array items).ArrayFree :=
  fun h => h items (self_mem_subtrees _)

@[simp] theorem arraysPlaced_number (value : Decimal) : (Node.number value).ArraysPlaced := by
  simp [ArraysPlaced, inner]

@[simp] theorem arraysPlaced_channel (c : Channel) : (Node.channel c).ArraysPlaced := by
  simp [ArraysPlaced, inner]

theorem arraysPlaced_call {f : Builtin} {args : List Node} :
    (Node.call f args).ArraysPlaced ↔ ∀ arg ∈ args, arg.ArrayFree := by
  rw [← arrayFree_of_forall]
  simp [ArraysPlaced, inner]

theorem arraysPlaced_binary {op : BinaryOperator} {left right : Node} :
    (Node.binary op left right).ArraysPlaced ↔ left.ArrayFree ∧ right.ArrayFree := by
  simp [ArraysPlaced, ArrayFree, inner, forall_and]

theorem arraysPlaced_choose {condition positive negative : Node} :
    (Node.choose condition positive negative).ArraysPlaced ↔
      condition.ArrayFree ∧ positive.ArraysPlaced ∧ negative.ArraysPlaced := by
  simp [ArraysPlaced, ArrayFree, inner, forall_and]

theorem arraysPlaced_array {items : List Node} :
    (Node.array items).ArraysPlaced ↔ ∀ item ∈ items, item.ArrayFree := by
  rw [← arrayFree_of_forall]
  simp [ArraysPlaced, inner]

/-! ## Levels -/

mutual

/-- The number of levels of a tree. -/
def depth : Node → Nat
  | .number _ | .channel _ => 1
  | .call _ args => depthOf args + 1
  | .binary _ left right => max (depth left) (depth right) + 1
  | .choose condition positive negative =>
    max (depth condition) (max (depth positive) (depth negative)) + 1
  | .array items => depthOf items + 1

/-- The number of levels of the deepest of several trees. -/
def depthOf : List Node → Nat
  | [] => 0
  | node :: nodes => max (depth node) (depthOf nodes)

end

/-! ## Arity -/

/-- A conditional has the arity of both its branches. -/
theorem resultArity_choose {condition positive negative : Node} {n : Nat} :
    (Node.choose condition positive negative).resultArity = some n ↔
      positive.resultArity = some n ∧ negative.resultArity = some n := by
  simp only [resultArity]
  split
  · next h => rw [← h, and_self]
  · next h =>
    constructor
    · intro hn
      cases hn
    · rintro ⟨hp, hn⟩
      exact absurd (hp.trans hn.symm) h

/-- Every node at the result position has the arity of the tree. -/
theorem resultArity_of_results {node tree : Node} {n : Nat} (h : tree.resultArity = some n)
    (hnode : node ∈ tree.results) : node.resultArity = some n := by
  induction tree using induct with
  | choose condition positive negative _ ihp ihn =>
    rcases List.mem_cons.mp hnode with rfl | hnode
    · exact h
    · rw [resultArity_choose] at h
      rcases List.mem_append.mp hnode with hnode | hnode
      · exact ihp h.1 hnode
      · exact ihn h.2 hnode
  | number _ | channel _ | call _ _ _ | binary _ _ _ _ _ | array _ _ =>
    obtain rfl := List.mem_singleton.mp hnode
    exact h

end LayerBlend.Node
