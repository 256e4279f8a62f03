import LayerBlend.Formula.Node

/-!
# Values of expressions

`Node.samples` is the value of an expression inside a formula, `Node.value` the value of a whole
formula, which may be an array. A channel that is not given reads as zero, and so does each of its
values that is not finite. Functions and operators act place by place on blocks stretched to a
common shape.

A conditional whose condition is a single value has the value of the chosen branch, and the other
branch is not evaluated. When the condition is a block, both branches are evaluated and the choice
is made place by place; two arrays are combined part by part. Where one branch is an array and the
other is not, the other is cut into slices, or the array is laid side by side into one block,
depending on which of them comes first.

A formula is evaluated within a number of nesting levels (`Node.samplesWithin`, `Node.valueWithin`).
Each level of the tree takes two of them, and an evaluation that needs more fails. Branches that are
not evaluated take none.
-/

namespace LayerBlend

/-- The blocks that are given for channels. -/
abbrev Channels (α : Type) := Channel → Option (Samples α)

/-- The value of a formula. -/
inductive Value (α : Type) where
  /-- One block. -/
  | plain (block : Samples α)
  /-- The blocks of an array. -/
  | parts (blocks : List (Samples α))

variable {α : Type} [Arithmetic α]

/-- The block that a formula reads for a channel. -/
def Channels.read (channels : Channels α) (c : Channel) : Samples α :=
  match channels c with
  | none => Samples.single Arithmetic.zero
  | some block => block.map Arithmetic.orZero

namespace Samples

/-- The function of values that a conditional applies at each place. -/
def select : List α → α
  | [condition, positive, negative] =>
    if Arithmetic.truthy condition then positive else negative
  | _ => Arithmetic.zero

/-- A function of values applied place by place. -/
def lift (f : List α → α) (blocks : List (Samples α)) : Except EvalFault (Samples α) :=
  match lift? f blocks with
  | some block => .ok block
  | none => .error .shapes

/-- At each place the value of one of two blocks, as the condition says. -/
def choose (condition positive negative : Samples α) : Except EvalFault (Samples α) :=
  lift select [condition, positive, negative]

/-- The operator applied place by place. -/
def operate (op : BinaryOperator) (left right : Samples α) : Except EvalFault (Samples α) :=
  lift (fun
    | [a, b] => op.compute a b
    | _ => Arithmetic.zero) [left, right]

end Samples

namespace Value

/-- At each place the value of one of two values of a formula, as the condition says. -/
def choose (condition : Samples α) : Value α → Value α → Except EvalFault (Value α)
  | .plain positive, .plain negative =>
    (Samples.choose condition positive negative).map .plain
  | .parts positive, .parts negative =>
    ((positive.zip negative).mapM fun (p, n) => Samples.choose condition p n).map .parts
  | .parts positive, .plain negative =>
    match negative.slices? with
    | none => .error .missingArray
    | some slices =>
      ((positive.zip slices).mapM fun (p, n) => Samples.choose condition p n).map .parts
  | .plain positive, .parts negative =>
    match Samples.stack? negative with
    | none => .error .shapes
    | some block => (Samples.choose condition positive block).map .plain

end Value

namespace Node

mutual

/-- The value of an expression inside a formula. -/
def samples (channels : Channels α) : Node → Except EvalFault (Samples α)
  | .number value => .ok (Samples.single (Arithmetic.ofDecimal value))
  | .channel c => .ok (channels.read c)
  | .call f args => do f.apply (← samplesOf channels args)
  | .binary op left right => do
    Samples.operate op (← samples channels left) (← samples channels right)
  | .choose condition positive negative => do
    let c ← samples channels condition
    if c.isSingle then
      if Arithmetic.truthy (c.cell 0) then samples channels positive else samples channels negative
    else Samples.choose c (← samples channels positive) (← samples channels negative)
  | .array _ => .error .misplacedArray

/-- The values of several expressions. -/
def samplesOf (channels : Channels α) : List Node → Except EvalFault (List (Samples α))
  | [] => .ok []
  | node :: nodes => do return (← samples channels node) :: (← samplesOf channels nodes)

end

/-- The value of a formula. -/
def value (channels : Channels α) : Node → Except EvalFault (Value α)
  | .array items => (samplesOf channels items).map .parts
  | .choose condition positive negative => do
    let c ← samples channels condition
    if c.isSingle then
      if Arithmetic.truthy (c.cell 0) then value channels positive else value channels negative
    else Value.choose c (← value channels positive) (← value channels negative)
  | node => (samples channels node).map .plain

/-! ## Evaluation within nesting levels -/

/-- The value of an expression inside a formula whose parts are evaluated by `part`. -/
def samplesBy (channels : Channels α) (part : Node → Except EvalFault (Samples α)) :
    Node → Except EvalFault (Samples α)
  | .number value => .ok (Samples.single (Arithmetic.ofDecimal value))
  | .channel c => .ok (channels.read c)
  | .call f args => do f.apply (← args.mapM part)
  | .binary op left right => do Samples.operate op (← part left) (← part right)
  | .choose condition positive negative => do
    let c ← part condition
    if c.isSingle then
      if Arithmetic.truthy (c.cell 0) then part positive else part negative
    else Samples.choose c (← part positive) (← part negative)
  | .array _ => .error .misplacedArray

/-- The value of a formula whose branches are evaluated by `branch`, and other parts by `part`. -/
def valueBy (channels : Channels α) (part : Node → Except EvalFault (Samples α))
    (branch : Node → Except EvalFault (Value α)) : Node → Except EvalFault (Value α)
  | .array items => (items.mapM part).map .parts
  | .choose condition positive negative => do
    let c ← part condition
    if c.isSingle then
      if Arithmetic.truthy (c.cell 0) then branch positive else branch negative
    else Value.choose c (← branch positive) (← branch negative)
  | node => (samplesBy channels part node).map .plain

/-- The value of an expression inside a formula, evaluated within the given nesting levels. -/
def samplesWithin (channels : Channels α) : Nat → Node → Except EvalFault (Samples α)
  | room + 2, node => node.samplesBy channels (samplesWithin channels room)
  | _, _ => .error .tooDeep

/-- The value of a formula, evaluated within the given nesting levels. -/
def valueWithin (channels : Channels α) : Nat → Node → Except EvalFault (Value α)
  | room + 2, node =>
    node.valueBy channels (samplesWithin channels room) (valueWithin channels room)
  | _, _ => .error .tooDeep

end Node

end LayerBlend
