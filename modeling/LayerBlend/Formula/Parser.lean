import LayerBlend.Formula.Fault
import LayerBlend.Formula.Node

/-!
# From tokens to trees

The grammar, weakest binding first:

    expression     := comparison ("?" expression ":" expression)?
    comparison     := additive (("<" | "<=" | ">" | ">=") additive)*
    additive       := multiplicative (("+" | "-") multiplicative)*
    multiplicative := unary (("*" | "/" | "%") unary)*
    unary          := ("+" | "-") unary | primary
    primary        := number | channel | function "(" arguments? ")"
                    | "(" expression ")" | "[" expression ("," expression)* "]"

Binary operators group to the left and conditionals to the right; `-x` is `0 - x`, and `+x` and
`(x)` are `x`. A function must be called with a number of arguments that it takes, and an array may
stand only where the result does (`checkArrays`).

Each function of the parser reads from the front of a list of tokens and returns what is left. They
share a budget of nesting levels, and a formula that needs more is refused. `parse` has a budget
that no list of tokens exhausts, `parseWithin` takes one.
-/

namespace LayerBlend

namespace Parser

/-- A function that reads an expression from the front of a list of tokens. -/
abbrev Reader := List Token → Except SyntaxFault (Node × List Token)

/-- The tokens behind one of the given class, which must come first. -/
def expect (kind : TokenKind) (wanted : Wanted) : List Token → Except SyntaxFault (List Token)
  | [] => .error (.expected wanted none)
  | t :: rest => if t.kind = kind then .ok rest else .error (.expected wanted (some t))

/-- The one of the given operators that a token is. -/
def operator? (operators : List BinaryOperator) (t : Token) : Option BinaryOperator :=
  if t.kind = .operator then operators.find? (·.symbol == t.text) else none

/-- The operators and operands that follow `left` on one level; `fuel` bounds their number. -/
def chain (operators : List BinaryOperator) (operand : Reader) : Nat → Node → Reader
  | fuel + 1, left, t :: rest =>
    match operator? operators t with
    | none => .ok (left, t :: rest)
    | some op => do
      let (right, rest) ← operand rest
      chain operators operand fuel (.binary op left right) rest
  | _, left, tokens => .ok (left, tokens)

/-- Operands of one level with operators between them. -/
def operands (operators : List BinaryOperator) (operand : Reader) : Reader := fun tokens => do
  let (first, rest) ← operand tokens
  chain operators operand rest.length first rest

/-- The items that follow the first one of a list; `fuel` bounds their number. -/
def moreItems (item : Reader) : Nat → List Token → Except SyntaxFault (List Node × List Token)
  | fuel + 1, t :: rest =>
    if t.kind = .comma then do
      let (node, rest) ← item rest
      let (nodes, rest) ← moreItems item fuel rest
      return (node :: nodes, rest)
    else .ok ([], t :: rest)
  | _, tokens => .ok ([], tokens)

/-- One or more items with commas between them. -/
def items (item : Reader) (tokens : List Token) : Except SyntaxFault (List Node × List Token) := do
  let (first, rest) ← item tokens
  let (others, rest) ← moreItems item rest.length rest
  return (first :: others, rest)

/-- The arguments of a call and its closing parenthesis. -/
def arguments (item : Reader) (tokens : List Token) :
    Except SyntaxFault (List Node × List Token) :=
  if tokens.head?.any (·.kind = .rightParen) then .ok ([], tokens.tail)
  else do
    let (args, rest) ← items item tokens
    return (args, ← expect .rightParen .rightParen rest)

/-- The call of the function that the token `name` names. -/
def call (item : Reader) (f : Builtin) (name : Token) : Reader := fun tokens => do
  let rest ← expect .leftParen (.arguments f) tokens
  let (args, rest) ← arguments item rest
  if f.accepts args.length then return (.call f args, rest)
  else throw (.argumentCount f args.length name.position)

/-- The sign in front of an expression. -/
def sign? (t : Token) : Option BinaryOperator :=
  operator? BinaryOperator.additions t

/-- An expression with a sign in front of it. -/
def applySign (sign : BinaryOperator) (operand : Node) : Node :=
  if sign = .sub then .binary .sub (.number Decimal.zero) operand else operand

mutual

/-- An operand of a comparison chain and what follows it, with a conditional behind it or none. -/
def expression : Nat → Reader
  | 0, _ => .error .tooDeep
  | budget + 1, tokens => do
    let (condition, rest) ← comparison budget tokens
    match rest with
    | t :: branches =>
      if t.kind = .question then
        let (positive, rest) ← expression budget branches
        let rest ← expect .colon .colon rest
        let (negative, rest) ← expression budget rest
        return (.choose condition positive negative, rest)
      else return (condition, rest)
    | [] => return (condition, rest)

/-- Sums with comparisons between them. -/
def comparison : Nat → Reader
  | budget + 2, tokens => operands BinaryOperator.comparisons (additive budget) tokens
  | _, _ => .error .tooDeep

/-- Products with plus and minus between them. -/
def additive : Nat → Reader
  | budget + 2, tokens => operands BinaryOperator.additions (multiplicative budget) tokens
  | _, _ => .error .tooDeep

/-- Signed operands with product operators between them. -/
def multiplicative : Nat → Reader
  | budget + 2, tokens => operands BinaryOperator.multiplications (unary budget) tokens
  | _, _ => .error .tooDeep

/-- An operand with any number of signs. -/
def unary : Nat → Reader
  | 0, _ => .error .tooDeep
  | budget + 1, [] => primary budget []
  | budget + 1, t :: rest =>
    match sign? t with
    | none => primary budget (t :: rest)
    | some sign => do
      let (operand, rest) ← unary budget rest
      return (applySign sign operand, rest)

/-- A literal, a channel, a call, a parenthesis or an array. -/
def primary : Nat → Reader
  | 0, _ => .error .tooDeep
  | _ + 1, [] => .error .unexpectedEnd
  | budget + 1, t :: rest =>
    match t.kind with
    | .number =>
      match Decimal.ofChars? t.text.toList with
      | some value => .ok (.number value, rest)
      | none => .error (.notANumber t)
    | .identifier =>
      match Channel.ofName? t.text, Builtin.ofName? t.text with
      | some c, _ => .ok (.channel c, rest)
      | none, some f => functionCall budget f t rest
      | none, none => .error (.unexpected t)
    | .leftParen => do
      let (node, rest) ← expression budget rest
      return (node, ← expect .rightParen .rightParen rest)
    | .leftBracket => do
      let (nodes, rest) ← items (expression budget) rest
      return (.array nodes, ← expect .rightBracket .rightBracket rest)
    | _ => .error (.unexpected t)

/-- The rest of a call behind the function's name. -/
def functionCall : Nat → Builtin → Token → Reader
  | 0, _, _, _ => .error .tooDeep
  | budget + 1, f, name, tokens => call (expression budget) f name tokens

end

/-- No array stands inside an expression; `result` says that an array may stand at the root. -/
def checkArrays : Nat → Bool → Node → Except SyntaxFault Unit
  | 0, _, _ => .error .tooDeep
  | budget + 1, result, node =>
    match node with
    | .number _ | .channel _ => .ok ()
    | .call _ args => args.forM (checkArrays budget false)
    | .binary _ left right => do
      checkArrays budget false left
      checkArrays budget false right
    | .choose condition positive negative => do
      checkArrays budget false condition
      checkArrays budget result positive
      checkArrays budget result negative
    | .array nodes =>
      if result then nodes.forM (checkArrays budget false) else .error .misplacedArray

end Parser

open LayerBlend.Parser in
/-- The tree of a list of tokens that needs no more than the given number of nesting levels. -/
def parseWithin (budget : Nat) (tokens : List Token) : Except SyntaxFault Node := do
  if tokens.isEmpty then throw .unexpectedEnd
  let (node, rest) ← expression budget tokens
  match rest with
  | t :: _ => throw (.unexpected t)
  | [] =>
    checkArrays budget true node
    return node

/-- A budget of nesting levels that no list of `count` tokens exhausts: ten for each token, and
ten more. -/
def ampleBudget (count : Nat) : Nat :=
  10 * (count + 1)

/-- The tree of a list of tokens. -/
def parse (tokens : List Token) : Except SyntaxFault Node :=
  parseWithin (ampleBudget tokens.length) tokens

end LayerBlend
