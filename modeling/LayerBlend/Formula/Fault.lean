import LayerBlend.Formula.Token
import LayerBlend.Text.Quoted

/-!
# What can be wrong with a formula

A formula is refused because it is blank, because a piece of its text is outside the whitelist,
because its tokens do not form a formula, or because its result is not an array of three or four
values. `FormulaFault.message` is the sentence that a user reads, `position?` the place in the text
that it names.
-/

namespace LayerBlend

/-- What the parser wanted to see next. -/
inductive Wanted where
  /-- The end of a parenthesis. -/
  | rightParen
  /-- The end of an array. -/
  | rightBracket
  /-- The middle of a conditional. -/
  | colon
  /-- The argument list of a function. -/
  | arguments (f : Builtin)
  deriving DecidableEq, Repr

/-- Why a list of tokens is not a formula. -/
inductive SyntaxFault where
  /-- The formula ends where something must follow. -/
  | unexpectedEnd
  /-- A token stands where it cannot stand. -/
  | unexpected (found : Token)
  /-- Something must follow, and another token or the end of the formula does. -/
  | expected (wanted : Wanted) (found : Option Token)
  /-- A function is called with a number of arguments that it does not take. -/
  | argumentCount (f : Builtin) (count : Nat) (position : Int)
  /-- An array stands inside an expression. -/
  | misplacedArray
  /-- The formula is nested beyond the limit. -/
  | tooDeep
  /-- The characters of a number token are not a literal. -/
  | notANumber (found : Token)
  deriving DecidableEq, Repr

/-- Why a text is not a formula. -/
inductive FormulaFault where
  /-- The text holds nothing but blanks. -/
  | blank
  /-- A character or an identifier outside the whitelist. -/
  | disallowed (text : String) (position : Nat)
  /-- The tokens do not form a formula. -/
  | badSyntax (cause : SyntaxFault)
  /-- The result is a single value (`none`) or an array of another length than three or four. -/
  | arity (found : Option Nat)
  /-- The formula has no value for the channels that it is tried with. -/
  | noValue (cause : EvalFault)
  deriving DecidableEq, Repr

/-- How a message names what was wanted. -/
def Wanted.describe : Wanted → String
  | .rightParen => "')'"
  | .rightBracket => "']'"
  | .colon => "':'"
  | .arguments f => "'(' after " ++ f.name

namespace SyntaxFault

/-- The place of the text that is named. -/
def position? : SyntaxFault → Option Int
  | .unexpected found => some found.position
  | .expected _ found => found.map Token.position
  | .argumentCount _ _ position => some position
  | .unexpectedEnd | .misplacedArray | .tooDeep | .notANumber _ => none

/-- What is wrong, without the place. -/
def describe : SyntaxFault → String
  | .unexpectedEnd => "Unexpected end of formula"
  | .unexpected found => "Unexpected " ++ Text.quoted found.text
  | .expected wanted none => "Expected " ++ wanted.describe ++ ", got end of formula"
  | .expected wanted (some found) =>
    "Expected " ++ wanted.describe ++ ", got " ++ Text.quoted found.text
  | .argumentCount f count _ =>
    "Wrong number of arguments for " ++ f.name ++ "(): " ++ toString count
  | .misplacedArray => "Array literal is only allowed as the result"
  | .tooDeep => "Formula is too deeply nested"
  | .notANumber found => "Not a number: " ++ Text.quoted found.text

/-- What is wrong, with the place when there is one. -/
def message (e : SyntaxFault) : String :=
  match e.position? with
  | none => e.describe
  | some position => e.describe ++ " at position " ++ toString position

end SyntaxFault

namespace FormulaFault

/-- The sentence that a user reads. -/
def message : FormulaFault → String
  | .blank => "Formula is empty"
  | .disallowed text position =>
    "Disallowed token " ++ Text.quoted text ++ " at position " ++ toString position
  | .badSyntax cause => cause.message
  | .arity found =>
    "Formula must return an array [r, g, b] or [r, g, b, a], got " ++
      (match found with
        | none => "a scalar"
        | some n => "length " ++ toString n)
  | .noValue _ => "Formula cannot be evaluated"

end FormulaFault

end LayerBlend
