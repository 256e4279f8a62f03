import LayerBlend.Formula.Fault
import LayerBlend.Text.Blank

/-!
# From text to tokens

The lexemes of a formula are numerals (digits, with a fraction behind a point or without one),
words of ASCII letters, digits and underscores, and the operators and punctuation marks. At each
place the longest lexeme is taken, and blanks between lexemes are skipped. `tokenize` is the
whitelist of the language: a character that starts no lexeme is refused, and so is a word that is
not an allowed identifier.
-/

namespace LayerBlend

namespace Lexer

/-- A character that a word may start with. -/
def isWordStart (c : Char) : Bool :=
  c.isAlpha || c == '_'

/-- A character that a word may go on with. -/
def isWordPart (c : Char) : Bool :=
  c.isAlphanum || c == '_'

/-- How many of the characters behind the first digit of a numeral belong to it. -/
def numeralTail (rest : List Char) : Nat :=
  let whole := (rest.takeWhile Char.isDigit).length
  match rest.dropWhile Char.isDigit with
  | '.' :: after =>
    let fraction := (after.takeWhile Char.isDigit).length
    if fraction = 0 then whole else whole + 1 + fraction
  | _ => whole

/-- The class of the longest lexeme that starts with `c`, and how many of the characters that
follow belong to it. -/
def lexeme? (c : Char) (rest : List Char) : Option (TokenKind × Nat) :=
  if c.isDigit then some (.number, numeralTail rest)
  else if isWordStart c then some (.identifier, (rest.takeWhile isWordPart).length)
  else
    match c with
    | '<' | '>' => some (.operator, if rest.head? = some '=' then 1 else 0)
    | '+' | '-' | '*' | '/' | '%' => some (.operator, 0)
    | '(' => some (.leftParen, 0)
    | ')' => some (.rightParen, 0)
    | '[' => some (.leftBracket, 0)
    | ']' => some (.rightBracket, 0)
    | ',' => some (.comma, 0)
    | '?' => some (.question, 0)
    | ':' => some (.colon, 0)
    | _ => none

/-- The tokens of a text whose first character stands at `position`. -/
def scan (position : Nat) : List Char → Except FormulaFault (List Token)
  | [] => .ok []
  | c :: rest =>
    if Text.isBlank c then scan (position + 1) rest
    else
      match lexeme? c rest with
      | none => .error (.disallowed (String.singleton c) position)
      | some (kind, extra) =>
        let text := String.ofList (c :: rest.take extra)
        if kind = .identifier && !isAllowed text then .error (.disallowed text position)
        else
          (scan (position + 1 + extra) (rest.drop extra)).map (⟨kind, text, position⟩ :: ·)
termination_by text => text.length

end Lexer

/-- The tokens of a formula text. -/
def tokenize (text : String) : Except FormulaFault (List Token) :=
  if Text.blank text.toList then .error .blank else Lexer.scan 0 text.toList

end LayerBlend
