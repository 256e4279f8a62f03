import LayerBlend.Formula.Builtin
import LayerBlend.Formula.Channel

/-!
# Tokens

A token is a piece of formula text with its class and the place where it starts, counted in
characters from zero. Tokens that no place of the text holds have the position `Token.nowhere`.
`isAllowed` is the whitelist of identifiers: channel names, layer shorthands and functions.
-/

namespace LayerBlend

/-- The class of a token. -/
inductive TokenKind where
  /-- A number literal. -/
  | number
  /-- A name. -/
  | identifier
  /-- An arithmetic or comparison operator. -/
  | operator
  /-- An opening parenthesis. -/
  | leftParen
  /-- A closing parenthesis. -/
  | rightParen
  /-- An opening bracket. -/
  | leftBracket
  /-- A closing bracket. -/
  | rightBracket
  /-- A comma. -/
  | comma
  /-- A question mark. -/
  | question
  /-- A colon. -/
  | colon
  deriving DecidableEq, Repr

/-- A piece of formula text. -/
structure Token where
  /-- Its class. -/
  kind : TokenKind
  /-- Its characters. -/
  text : String
  /-- The number of characters in front of it. -/
  position : Int
  deriving DecidableEq, Repr

namespace Token

/-- The position of a token that the text does not hold. -/
def nowhere : Int := -1

/-- The layer that a token is the shorthand of. -/
def side? (t : Token) : Option Side :=
  if t.kind = .identifier then Side.ofShorthand? t.text else none

end Token

/-- The identifiers that a formula may use. -/
def isAllowed (name : String) : Bool :=
  (Channel.ofName? name).isSome || (Side.ofShorthand? name).isSome || (Builtin.ofName? name).isSome

end LayerBlend
