import LayerBlend.Arithmetic.Double
import LayerBlend.Formula.Evaluation
import LayerBlend.Formula.Lexer
import LayerBlend.Formula.Parser
import LayerBlend.Formula.Rendering
import LayerBlend.Formula.Shorthand

/-!
# Compiled formulas

`compile` turns the text of a formula into an `Engine`, or says what is wrong with it: the text
must consist of whitelisted tokens, these must parse after layer shorthands are written out, and
the result must be an array of three or four values. `Engine.call` is the value of a compiled
formula for given channels, each part clipped into `[0, 1]`.

Compiling also evaluates the formula once with every channel at one half. Neither the parser nor
this evaluation may nest beyond `nestingLimit`; the evaluation takes one branch of each conditional
and sees nothing of the other. A call has the same limit.
-/

namespace LayerBlend

/-- The text of a formula with layer shorthands written out. -/
def expandText (text : String) : Except FormulaFault String := do
  return render (expandShorthand (← tokenize text))

/-- A compiled formula. -/
structure Engine where
  /-- The text that was compiled. -/
  text : String
  /-- The text with layer shorthands written out. -/
  expanded : String
  /-- The tree. -/
  tree : Node
  /-- The number of values that it gives. -/
  arity : Nat

namespace Engine

/-- The number of nesting levels that a formula may use. -/
def nestingLimit : Nat := 980

end Engine

/-- Every channel at one half. -/
def Channels.half : Channels Float :=
  fun _ => some (Samples.single Arithmetic.half)

/-- The value of a formula with every channel at one half. -/
def Node.probe (tree : Node) : Except EvalFault (Value Float) :=
  tree.valueWithin Channels.half Engine.nestingLimit

namespace Engine

/-- The number of values that a tree must give. -/
def checkArity (tree : Node) : Except FormulaFault Nat :=
  match tree.resultArity with
  | some 3 => .ok 3
  | some 4 => .ok 4
  | other => .error (.arity other)

/-- The evaluation of a formula at one half must give an array of the right length. -/
def checkProbe (tree : Node) (arity : Nat) : Except FormulaFault Unit :=
  match tree.probe with
  | .error .tooDeep => .error (.badSyntax .tooDeep)
  | .error cause => .error (.noValue cause)
  | .ok (.plain _) => .error (.arity none)
  | .ok (.parts blocks) =>
    if blocks.length = arity then .ok () else .error (.arity (some blocks.length))

/-- The tree of a list of tokens, within the limit. -/
def parseTree (tokens : List Token) : Except FormulaFault Node :=
  match parseWithin nestingLimit tokens with
  | .ok tree => .ok tree
  | .error cause => .error (.badSyntax cause)

/-- The values of a compiled formula, each clipped into `[0, 1]`. -/
def call {α : Type} [Arithmetic α] (engine : Engine) (channels : Channels α) :
    Except EvalFault (List (Samples α)) :=
  match engine.tree.valueWithin channels nestingLimit with
  | .error cause => .error cause
  | .ok (.plain _) => .error .missingArray
  | .ok (.parts blocks) => .ok (blocks.map (Samples.map Arithmetic.normalize))

/-- The formula gives the alpha of its result. -/
def hasAlpha (engine : Engine) : Bool :=
  engine.arity == 4

end Engine

open Engine in
/-- The compiled formula of a text. -/
def compile (text : String) : Except FormulaFault Engine := do
  let tokens := expandShorthand (← tokenize text)
  let tree ← parseTree tokens
  let arity ← checkArity tree
  checkProbe tree arity
  return ⟨text, render tokens, tree, arity⟩

end LayerBlend
