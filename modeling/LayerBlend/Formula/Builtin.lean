import LayerBlend.Samples

/-!
# Builtin functions

The functions that a formula may call. Each has a name, takes a number of arguments between two
bounds (`min` and `max` take any number), and computes one value from the values of its arguments
(`compute`). On blocks a function is applied place by place (`apply`).
-/

namespace LayerBlend

/-- Why a formula has no value for the given channels. -/
inductive EvalFault where
  /-- Blocks whose shapes cannot be stretched to a common one meet. -/
  | shapes
  /-- A function is given a number of arguments that it does not take. -/
  | argumentCount
  /-- An array meets a place that takes a single value. -/
  | misplacedArray
  /-- A single value meets a place that takes an array. -/
  | missingArray
  /-- The branches that are evaluated are nested beyond the limit. -/
  | tooDeep
  deriving DecidableEq, Repr

/-- A function that a formula may call. -/
inductive Builtin where
  /-- Absolute value. -/
  | abs
  /-- Least argument. -/
  | min
  /-- Greatest argument. -/
  | max
  /-- Whole number below. -/
  | floor
  /-- Whole number above. -/
  | ceil
  /-- Nearest whole number, a half going up. -/
  | round
  /-- Square root. -/
  | sqrt
  /-- Power. -/
  | pow
  /-- Exponential function. -/
  | exp
  /-- Natural logarithm. -/
  | log
  /-- Clipping between two bounds, which are zero and one when left out. -/
  | clamp
  /-- Point between two values. -/
  | mix
  /-- Step at an edge. -/
  | step
  /-- Smooth rise between two edges. -/
  | smoothstep
  /-- Brightness of a colour. -/
  | lum
  /-- Clipping between zero and one. -/
  | saturate
  deriving DecidableEq, Repr

namespace Builtin

/-- The functions of the language. -/
def all : List Builtin :=
  [.abs, .min, .max, .floor, .ceil, .round, .sqrt, .pow, .exp, .log, .clamp, .mix, .step,
    .smoothstep, .lum, .saturate]

/-- The identifier of a function. -/
def name : Builtin → String
  | .abs => "abs"
  | .min => "min"
  | .max => "max"
  | .floor => "floor"
  | .ceil => "ceil"
  | .round => "round"
  | .sqrt => "sqrt"
  | .pow => "pow"
  | .exp => "exp"
  | .log => "log"
  | .clamp => "clamp"
  | .mix => "mix"
  | .step => "step"
  | .smoothstep => "smoothstep"
  | .lum => "lum"
  | .saturate => "saturate"

/-- The function of an identifier. -/
def ofName? (name : String) : Option Builtin :=
  all.find? (·.name == name)

/-- The fewest arguments of a function and, unless it takes any number, the most. -/
def arity : Builtin → Nat × Option Nat
  | .min | .max => (0, none)
  | .clamp => (1, some 3)
  | .pow | .step => (2, some 2)
  | .mix | .smoothstep | .lum => (3, some 3)
  | .abs | .floor | .ceil | .round | .sqrt | .exp | .log | .saturate => (1, some 1)

/-- A function takes the given number of arguments. -/
def accepts (f : Builtin) (count : Nat) : Bool :=
  f.arity.1 ≤ count && f.arity.2.all (count ≤ ·)

open Arithmetic in
/-- The value of a function for arguments that it takes, and zero for any others. -/
def compute {α : Type} [Arithmetic α] : Builtin → List α → α
  | .abs, [x] => Arithmetic.abs x
  | .min, xs => minimumOf xs
  | .max, xs => maximumOf xs
  | .floor, [x] => Arithmetic.floor x
  | .ceil, [x] => Arithmetic.ceil x
  | .round, [x] => roundHalfUp x
  | .sqrt, [x] => Arithmetic.sqrt x
  | .pow, [x, y] => Arithmetic.pow x y
  | .exp, [x] => Arithmetic.exp x
  | .log, [x] => Arithmetic.log x
  | .clamp, [x] => Arithmetic.clamp x zero one
  | .clamp, [x, low] => Arithmetic.clamp x low one
  | .clamp, [x, low, high] => Arithmetic.clamp x low high
  | .mix, [a, b, t] => Arithmetic.mix a b t
  | .step, [edge, x] => Arithmetic.step edge x
  | .smoothstep, [low, high, x] => Arithmetic.smoothstep low high x
  | .lum, [r, g, b] => Arithmetic.lum r g b
  | .saturate, [x] => Arithmetic.saturate x
  | _, _ => zero

/-- A function applied to blocks place by place. -/
def apply {α : Type} [Arithmetic α] (f : Builtin) (args : List (Samples α)) :
    Except EvalFault (Samples α) :=
  if f.accepts args.length then
    match Samples.lift? f.compute args with
    | some block => .ok block
    | none => .error .shapes
  else .error .argumentCount

end Builtin

end LayerBlend
