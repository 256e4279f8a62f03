import LayerBlend.Formula.Builtin
import LayerBlend.Formula.Channel
import LayerBlend.Numeral.Decimal

/-!
# Expression trees

The tree of a formula: literals, channels, calls, binary operators, conditionals and arrays.
`Node.resultArity` is the number of values that a formula gives, when it gives an array and all
branches of its conditionals agree on the number.
-/

namespace LayerBlend

/-- An operator between two expressions. -/
inductive BinaryOperator where
  /-- Sum. -/
  | add
  /-- Difference. -/
  | sub
  /-- Product. -/
  | mul
  /-- Quotient. -/
  | div
  /-- Remainder. -/
  | rem
  /-- Less than. -/
  | less
  /-- At most. -/
  | lessEq
  /-- Greater than. -/
  | greater
  /-- At least. -/
  | greaterEq
  deriving DecidableEq, Repr

namespace BinaryOperator

/-- How an operator is written. -/
def symbol : BinaryOperator → String
  | .add => "+"
  | .sub => "-"
  | .mul => "*"
  | .div => "/"
  | .rem => "%"
  | .less => "<"
  | .lessEq => "<="
  | .greater => ">"
  | .greaterEq => ">="

/-- The operators that bind weakest. -/
def comparisons : List BinaryOperator := [.less, .lessEq, .greater, .greaterEq]

/-- Sums and differences. -/
def additions : List BinaryOperator := [.add, .sub]

/-- The operators that bind strongest. -/
def multiplications : List BinaryOperator := [.mul, .div, .rem]

open Arithmetic in
/-- The value of an operator for two values. -/
def compute {α : Type} [Arithmetic α] (op : BinaryOperator) (a b : α) : α :=
  match op with
  | .add => Arithmetic.add a b
  | .sub => Arithmetic.sub a b
  | .mul => Arithmetic.mul a b
  | .div => Arithmetic.div a b
  | .rem => Arithmetic.rem a b
  | .less => ofBool (Arithmetic.less a b)
  | .lessEq => ofBool (Arithmetic.lessEq a b)
  | .greater => ofBool (Arithmetic.less b a)
  | .greaterEq => ofBool (Arithmetic.lessEq b a)

end BinaryOperator

/-- The tree of an expression. -/
inductive Node where
  /-- A literal. -/
  | number (value : Decimal)
  /-- A channel of the pixel. -/
  | channel (c : Channel)
  /-- A function applied to arguments. -/
  | call (f : Builtin) (args : List Node)
  /-- An operator between two expressions. -/
  | binary (op : BinaryOperator) (left right : Node)
  /-- One of two expressions, chosen by a condition. -/
  | choose (condition positive negative : Node)
  /-- Several expressions, the values of a result. -/
  | array (items : List Node)
  deriving Repr

/-- The number of values of a result: none for a single value, and none for a conditional whose
branches disagree. -/
def Node.resultArity : Node → Option Nat
  | .array items => some items.length
  | .choose _ positive negative =>
    if positive.resultArity = negative.resultArity then positive.resultArity else none
  | _ => none

end LayerBlend
