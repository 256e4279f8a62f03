import LayerBlend.CommandLine.Reading
import LayerBlend.Text.Whole

/-!
# Invocations

An `Invocation` is what a user asks for with the arguments of the program: a `Command`, and whether
to be told details. `Invocation.ofArguments` reads one, or ends with a `Halt` when the arguments are
misused or ask for help or for the version. The first of these that the arguments give rise to
decides.
-/

namespace LayerBlend.CommandLine

/-! ## Commands -/

/-- Where the formula of a blend comes from. -/
inductive FormulaOrigin where
  /-- The formula itself. -/
  | given (text : String)
  /-- The name of a preset, and the file of presets. -/
  | stored (name : String) (file : Option String)
  deriving DecidableEq, Repr

/-- The blend of two pictures into a third. -/
structure BlendRequest where
  /-- The file of the base layer. -/
  base : Option String
  /-- The file of the blend layer. -/
  blend : Option String
  /-- The file of the result. -/
  output : String
  /-- The formula. -/
  formula : FormulaOrigin
  /-- The corner of the base layer. -/
  baseOffset : Int × Int
  /-- The corner of the blend layer. -/
  blendOffset : Int × Int
  /-- The size of the canvas; without one, the canvas fits both layers. -/
  canvas : Option (Int × Int)
  deriving DecidableEq, Repr

/-- What to do with a file of presets. -/
inductive PresetAction where
  /-- List the presets. -/
  | list
  /-- Add a preset. -/
  | add (name formula : String)
  /-- Remove the presets with an identifier. -/
  | delete (id : String)
  /-- Show the document. -/
  | exportText
  /-- Add the presets of another file. -/
  | importFile (source : String)
  deriving DecidableEq, Repr

/-- What to do. -/
inductive Command where
  /-- Blend two pictures. -/
  | blend (request : BlendRequest)
  /-- Say whether a text is a formula. -/
  | check (formula : String)
  /-- Write out the layer shorthands of a formula. -/
  | expand (formula : String)
  /-- Look at presets or change them. -/
  | presets (file : String) (action : PresetAction)
  deriving DecidableEq, Repr

/-- The files that a command names. -/
def Command.files : Command → List String
  | .blend request =>
    let presets :=
      match request.formula with
      | .stored _ (some file) => [file]
      | _ => []
    request.base.toList ++ request.blend.toList ++ request.output :: presets
  | .check _ | .expand _ => []
  | .presets file (.importFile source) => [file, source]
  | .presets file _ => [file]

/-- A command, and whether to tell details. -/
structure Invocation where
  /-- Details are told. -/
  verbose : Bool
  /-- The command. -/
  command : Command
  deriving DecidableEq, Repr

/-- Why there is no command. -/
inductive Halt where
  /-- The arguments are misused. -/
  | misuse
  /-- The user wants help. -/
  | help
  /-- The user wants to know the version. -/
  | version
  deriving DecidableEq, Repr

/-- The version of the program. -/
def version : String := "1.0.0"

/-- The status that the program ends with. -/
def Halt.status : Halt → Nat
  | .misuse => 2
  | .help | .version => 0

/-! ## Reading -/

/-- What becomes of a start when every step takes effect, provided that the arguments are neither
too many nor too few. -/
def Reading.foldSteps {κ σ : Type} (r : Reading κ) (start : σ) (use : σ → Step κ → Except Halt σ) :
    Except Halt σ := do
  let final ← r.steps.foldlM use start
  if r.complete then return final else throw .misuse

/-- The option that every command has. -/
def helpShape {κ : Type} (meaning : κ) : OptionShape κ :=
  ⟨some 'h', "help", .flag meaning⟩

/-- An option that is named by a word only and takes a value. -/
def valueShape {κ : Type} (word : String) (meaning : Option String → κ) : OptionShape κ :=
  ⟨none, word, .value meaning⟩

/-- The plain arguments of a command that has no other options. -/
def readPlain (places : Nat) (arguments : List String) : Except Halt (List String) :=
  let shape : CommandShape Unit := ⟨[helpShape ()], places, false⟩
  (shape.read arguments).foldSteps [] fun texts step =>
    match step with
    | .option _ => .error .help
    | .plain text => .ok (texts ++ [text.getD ""])
    | .command .. => .error .misuse

/-- Two whole numbers with a comma between them; none when nothing is given. -/
def readPair : Option String → Except Halt (Option (Int × Int))
  | none => .ok none
  | some text =>
    match (text.splitOn ",").map fun part => Text.readWhole? part.toList with
    | [some x, some y] => .ok (some (x, y))
    | _ => .error .misuse

/-! ### Blends -/

/-- The options of a blend. One that nothing is given to is as if it were blank or absent. -/
inductive BlendOption where
  /-- Help is wanted. -/
  | help
  /-- The formula. -/
  | expr (text : String)
  /-- The name of a preset. -/
  | preset (name : String)
  /-- The corner of the base layer. -/
  | baseOffset (pair : Option String)
  /-- The corner of the blend layer. -/
  | blendOffset (pair : Option String)
  /-- The size of the canvas. -/
  | canvas (pair : Option String)
  /-- The file of presets. -/
  | presets (file : Option String)

/-- What a blend takes. -/
def blendShape : CommandShape BlendOption where
  options := [
    helpShape .help,
    ⟨some 'e', "expr", .value fun text => .expr (text.getD "")⟩,
    ⟨some 'p', "preset", .value fun text => .preset (text.getD "")⟩,
    valueShape "base-offset" .baseOffset, valueShape "blend-offset" .blendOffset,
    valueShape "canvas" .canvas, valueShape "presets" .presets]
  places := 3
  hasCommands := false

/-- What is known of a blend while its arguments are read. -/
structure BlendDraft where
  /-- The plain arguments. -/
  files : List (Option String)
  /-- The formula. -/
  expr : Option String
  /-- The name of a preset. -/
  preset : Option String
  /-- The file of presets. -/
  presets : Option String
  /-- The corner of the base layer. -/
  baseOffset : Int × Int
  /-- The corner of the blend layer. -/
  blendOffset : Int × Int
  /-- The size of the canvas. -/
  canvas : Option (Int × Int)

namespace BlendDraft

/-- The corner of a layer, unless it is chosen otherwise. -/
def corner : Int × Int := (0, 0)

/-- Nothing is known. -/
def empty : BlendDraft := ⟨[], none, none, none, corner, corner, none⟩

/-- The draft after a step. A formula and the name of a preset exclude each other. -/
def step (draft : BlendDraft) : Step BlendOption → Except Halt BlendDraft
  | .plain text => .ok { draft with files := draft.files ++ [text] }
  | .command .. => .error .misuse
  | .option .help => .error .help
  | .option (.expr text) =>
    if draft.preset.isSome then .error .misuse else .ok { draft with expr := some text }
  | .option (.preset name) =>
    if draft.expr.isSome then .error .misuse else .ok { draft with preset := some name }
  | .option (.baseOffset pair) =>
    return { draft with baseOffset := (← readPair pair).getD corner }
  | .option (.blendOffset pair) =>
    return { draft with blendOffset := (← readPair pair).getD corner }
  | .option (.canvas pair) => return { draft with canvas := ← readPair pair }
  | .option (.presets file) => .ok { draft with presets := file }

/-- The origin of the formula. An empty name of a preset is an empty formula. -/
def formula? (draft : BlendDraft) : Option FormulaOrigin :=
  match draft.expr, draft.preset with
  | some text, _ => some (.given text)
  | none, some name => some (if name.isEmpty then .given "" else .stored name draft.presets)
  | none, none => none

/-- The request that a draft amounts to. -/
def finish (draft : BlendDraft) : Except Halt BlendRequest :=
  match draft.files, draft.formula? with
  | [base, blend, output], some formula =>
    .ok ⟨base, blend, output.getD "", formula, draft.baseOffset, draft.blendOffset, draft.canvas⟩
  | _, _ => .error .misuse

end BlendDraft

/-- The blend that arguments ask for. -/
def readBlend (arguments : List String) : Except Halt BlendRequest := do
  (← (blendShape.read arguments).foldSteps .empty BlendDraft.step).finish

/-! ### Presets -/

/-- The action that a name and its arguments ask for. -/
def readAction (name : String) (arguments : List String) : Except Halt PresetAction :=
  match name with
  | "list" => do
    match ← readPlain 0 arguments with
    | [] => return .list
    | _ => throw .misuse
  | "add" => do
    match ← readPlain 2 arguments with
    | [name, formula] => return .add name formula
    | _ => throw .misuse
  | "delete" => do
    match ← readPlain 1 arguments with
    | [id] => return .delete id
    | _ => throw .misuse
  | "export" => do
    match ← readPlain 0 arguments with
    | [] => return .exportText
    | _ => throw .misuse
  | "import" => do
    match ← readPlain 1 arguments with
    | [source] => return .importFile source
    | _ => throw .misuse
  | _ => .error .misuse

/-- The work on presets that arguments ask for. -/
def readPresets (arguments : List String) : Except Halt (String × PresetAction) := do
  let shape : CommandShape Unit := ⟨[helpShape ()], 1, true⟩
  let start : Option String × Option PresetAction := (none, none)
  let final ← (shape.read arguments).foldSteps start fun (file, action) step =>
    match step with
    | .option _ => .error .help
    | .plain text => .ok (text, action)
    | .command name arguments => return (file, some (← readAction name arguments))
  match final with
  | (some file, some action) => return (file, action)
  | _ => throw .misuse

/-! ### The program -/

/-- The command that a name and its arguments ask for. -/
def readCommand (name : String) (arguments : List String) : Except Halt Command :=
  match name with
  | "apply" => return .blend (← readBlend arguments)
  | "check" => do
    match ← readPlain 1 arguments with
    | [formula] => return .check formula
    | _ => throw .misuse
  | "expand" => do
    match ← readPlain 1 arguments with
    | [formula] => return .expand formula
    | _ => throw .misuse
  | "presets" => do
    let (file, action) ← readPresets arguments
    return .presets file action
  | _ => .error .misuse

/-- The options of the program. -/
inductive ProgramOption where
  /-- Help is wanted. -/
  | help
  /-- Details are to be told. -/
  | verbose
  /-- The version is wanted. -/
  | version

/-- What the program takes. -/
def programShape : CommandShape ProgramOption where
  options := [helpShape .help, ⟨some 'v', "verbose", .flag .verbose⟩,
    ⟨none, "version", .flag .version⟩]
  places := 0
  hasCommands := true

/-- What the arguments of the program ask for. -/
def Invocation.ofArguments (arguments : List String) : Except Halt Invocation := do
  let start : Bool × Option Command := (false, none)
  let final ← (programShape.read arguments).foldSteps start fun (verbose, command) step =>
    match step with
    | .option .help => .error .help
    | .option .version => .error .version
    | .option .verbose => .ok (true, command)
    | .plain _ => .error .misuse
    | .command name arguments => return (verbose, some (← readCommand name arguments))
  match final with
  | (verbose, some command) => return ⟨verbose, command⟩
  | (_, none) => throw .misuse

end LayerBlend.CommandLine
