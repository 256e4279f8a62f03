import LayerBlend.Text.DecimalDigit

/-!
# Reading arguments

The arguments of a command are options and plain arguments in any order. A `CommandShape` says which
options a command has, how many plain arguments it takes, and whether the name of a further command
follows them. `CommandShape.read` turns arguments into steps, in the order in which they take
effect:

* a word behind two dashes names an option. It may be shortened as long as it fits one option only,
  and a value may follow behind an equals sign;
* a letter behind one dash names an option. More may follow at once or behind an equals sign: the
  value of an option that takes one, and otherwise the letter of a further option;
* an option that takes a value and has none takes the next argument, which must be plain;
* a pair of dashes is no value: an option that it is given to has nothing for a value;
* a negative number and an argument with a space are plain even though they begin with a dash, and
  so is everything behind the first pair of dashes that stands alone;
* everything behind the name of a further command belongs to that command.
-/

namespace LayerBlend.CommandLine

/-! ## Shapes -/

/-- What an option means: alone, or together with its value. -/
inductive OptionUse (κ : Type) where
  /-- The option takes no value. -/
  | flag (meaning : κ)
  /-- The option takes a value, which may be nothing. -/
  | value (meaning : Option String → κ)

/-- An option of a command. -/
structure OptionShape (κ : Type) where
  /-- The letter behind one dash. -/
  letter : Option Char
  /-- The word behind two dashes. -/
  word : String
  /-- What the option means. -/
  use : OptionUse κ

/-- What a command takes. -/
structure CommandShape (κ : Type) where
  /-- The options. -/
  options : List (OptionShape κ)
  /-- The number of plain arguments. -/
  places : Nat
  /-- The name of a further command follows the plain arguments. -/
  hasCommands : Bool

/-! ## Kinds of arguments -/

/-- What stands in an argument behind the name of an option. -/
inductive Tail where
  /-- Nothing. -/
  | nothing
  /-- Text behind a letter: a value or further letters. -/
  | letters (text : List Char)
  /-- Text behind a word: a value. -/
  | value (text : List Char)
  deriving DecidableEq, Repr

/-- What an argument is for a command. -/
inductive Role (κ : Type) where
  /-- A value, a plain argument or the name of a command. -/
  | plain
  /-- The first pair of dashes that stands alone. -/
  | separator
  /-- An option, and what follows its letter or word. -/
  | option (o : OptionShape κ) (tail : Tail)
  /-- The name of no option. -/
  | unknown

/-- An argument and what it is. -/
structure Argument (κ : Type) where
  /-- The argument. -/
  text : String
  /-- What it is. -/
  role : Role κ

/-- The pair of dashes that stands alone. -/
def separator : String := "--"

/-- The characters of a negative number, which a newline may follow. -/
def isNegativeNumber : List Char → Bool
  | '-' :: rest =>
    let isDigit c := (Text.decimalDigit? c).isSome
    let rest := if rest.getLast? = some '\n' then rest.dropLast else rest
    match rest.dropWhile isDigit with
    | [] => !rest.isEmpty
    | '.' :: fraction => !fraction.isEmpty && fraction.all isDigit
    | _ => false
  | _ => false

/-- An argument that begins with a dash and names no option. -/
def unnamed {κ : Type} (text : List Char) : Role κ :=
  if isNegativeNumber text || text.contains ' ' then .plain else .unknown

namespace CommandShape

variable {κ : Type}

/-- The option of a letter. -/
def findLetter (shape : CommandShape κ) (c : Char) : Option (OptionShape κ) :=
  shape.options.find? (·.letter == some c)

/-- The options that a word may stand for: those that have it, or else those whose words begin with
it. -/
def findWord (shape : CommandShape κ) (word : List Char) : List (OptionShape κ) :=
  match shape.options.filter (·.word.toList == word) with
  | [] => shape.options.filter fun o => word.isPrefixOf o.word.toList
  | exact => exact

/-- What follows the word of an option: nothing, or a value behind an equals sign. -/
def wordTail : List Char → Tail
  | '=' :: text => .value text
  | _ => .nothing

/-- What follows the letter of an option, at once or behind an equals sign. -/
def letterTail : List Char → Tail
  | [] => .nothing
  | '=' :: text => .letters text
  | text => .letters text

/-- What an argument in front of the separator is; none for a word that fits several options. -/
def role? (shape : CommandShape κ) (text : List Char) : Option (Role κ) :=
  match text with
  | '-' :: '-' :: rest =>
    match shape.findWord (rest.takeWhile (· != '=')) with
    | [] => some (unnamed text)
    | [o] => some (.option o (wordTail (rest.dropWhile (· != '='))))
    | _ => none
  | '-' :: c :: rest =>
    match shape.findLetter c with
    | some o => some (.option o (letterTail rest))
    | none => some (unnamed text)
  | _ => some .plain

/-- What the arguments are; none when one of them fits several options. -/
def classify (shape : CommandShape κ) : List String → Option (List (Argument κ))
  | [] => some []
  | text :: rest =>
    if text = separator then some (⟨text, .separator⟩ :: rest.map fun text => ⟨text, .plain⟩)
    else do
      let role ← shape.role? text.toList
      return ⟨text, role⟩ :: (← classify shape rest)

end CommandShape

/-! ## Steps -/

/-- What an argument does. -/
inductive Step (κ : Type) where
  /-- An option takes effect. -/
  | option (meaning : κ)
  /-- A plain argument is given, or nothing in its place. -/
  | plain (text : Option String)
  /-- A further command takes the remaining arguments. -/
  | command (name : String) (arguments : List String)

/-- What is done with the arguments of a command. -/
structure Reading (κ : Type) where
  /-- What the arguments do, in order. -/
  steps : List (Step κ)
  /-- Every argument has its use, and none is missing. -/
  complete : Bool

namespace Reading

variable {κ : Type}

/-- The reading ends because the next argument is misused. -/
def stopped : Reading κ := ⟨[], false⟩

/-- The reading with an argument that is not used. -/
def incomplete (r : Reading κ) : Reading κ := { r with complete := false }

/-- The reading with further steps in front. -/
def after (steps : List (Step κ)) (r : Reading κ) : Reading κ :=
  { r with steps := steps ++ r.steps }

end Reading

/-- What an argument with options does. -/
inductive OptionReading (κ : Type) where
  /-- A letter names no option, or a value is given to an option that takes none. -/
  | misused
  /-- The options take effect. -/
  | complete (meanings : List κ)
  /-- The options take effect, and the next argument is the value of one more. -/
  | wanting (meanings : List κ) (last : Option String → κ)

namespace OptionReading

variable {κ : Type}

/-- One more option in front of others. -/
def after (meaning : κ) : OptionReading κ → OptionReading κ
  | .misused => .misused
  | .complete meanings => .complete (meaning :: meanings)
  | .wanting meanings last => .wanting (meaning :: meanings) last

/-- An option that nothing follows. -/
def alone : OptionUse κ → OptionReading κ
  | .flag meaning => .complete [meaning]
  | .value meaning => .wanting [] meaning

end OptionReading

/-- The value that a text is, nothing for a pair of dashes. -/
def givenValue (text : String) : Option String :=
  if text = separator then none else some text

namespace CommandShape

variable {κ : Type}

/-- What an option and the options behind it do when letters follow its own. -/
def readLetters (shape : CommandShape κ) : OptionUse κ → List Char → OptionReading κ
  | .value meaning, text => .complete [meaning (givenValue (String.ofList text))]
  | .flag _, [] => .misused
  | .flag meaning, c :: rest =>
    match shape.findLetter c with
    | none => .misused
    | some next =>
      OptionReading.after meaning
        (if rest.isEmpty then .alone next.use else readLetters shape next.use rest)

/-- What an option does with what follows its name. -/
def readOption (shape : CommandShape κ) (use : OptionUse κ) : Tail → OptionReading κ
  | .nothing => .alone use
  | .letters text => shape.readLetters use text
  | .value text =>
    match use with
    | .flag _ => .misused
    | .value meaning => .complete [meaning (givenValue (String.ofList text))]

/-- What arguments do while a number of plain arguments is still to come. A separator beside a plain
argument goes with it; a second separator in the place of a plain argument gives nothing. -/
def place (shape : CommandShape κ) : Nat → List (Argument κ) → Reading κ
  | places, [] => ⟨[], places == 0 && !shape.hasCommands⟩
  | places, ⟨_, .unknown⟩ :: rest => (place shape places rest).incomplete
  | places, ⟨_, .option o tail⟩ :: rest =>
    match shape.readOption o.use tail, rest with
    | .misused, _ => .stopped
    | .complete meanings, rest => (place shape places rest).after (meanings.map .option)
    | .wanting meanings last, ⟨text, .plain⟩ :: rest =>
      (place shape places rest).after ((meanings ++ [last (givenValue text)]).map .option)
    | .wanting .., _ => .stopped
  | 0, ⟨text, .plain⟩ :: rest =>
    if shape.hasCommands then ⟨[.command text (rest.map Argument.text)], true⟩
    else (place shape 0 rest).incomplete
  | places + 1, ⟨text, .plain⟩ :: ⟨_, .separator⟩ :: rest =>
    (place shape places rest).after [.plain (some text)]
  | places + 1, ⟨text, .plain⟩ :: rest =>
    (place shape places rest).after [.plain (givenValue text)]
  | places + 1, ⟨_, .separator⟩ :: ⟨text, .plain⟩ :: rest =>
    (place shape places rest).after [.plain (some text)]
  | _, ⟨_, .separator⟩ :: _ => .stopped

/-- What arguments do. -/
def read (shape : CommandShape κ) (arguments : List String) : Reading κ :=
  match shape.classify arguments with
  | none => .stopped
  | some arguments => shape.place shape.places arguments

end CommandShape

end LayerBlend.CommandLine
