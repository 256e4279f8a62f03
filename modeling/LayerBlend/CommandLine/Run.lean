import LayerBlend.CommandLine.Invocation
import LayerBlend.Preset.Store

/-!
# Running commands

`Command.run` is a command as work in a workspace; its value is the text that the program prints.
`Invocation.run` turns the program's own faults into an error in the log and the status one. Any
other fault leaves the run.
-/

namespace LayerBlend.CommandLine

/-! ## Formulas -/

/-- The number of tokens of a text, which is told. -/
def tellTokens (text : String) : Work Unit := do
  let tokens ← Work.attempt .formula (tokenize text)
  Work.tell .debug
    ("Tokenized " ++ toString tokens.length ++ " tokens from " ++ Text.quoted text)

/-- The compiled formula of a text, which is told. -/
def compileFormula (text : String) : Work Engine := do
  tellTokens text
  let engine ← Work.attempt .formula (compile text)
  Work.tell .debug ("Compiled " ++ Text.quoted text ++ " as " ++ Text.quoted engine.expanded)
  return engine

/-- The text of a formula by its origin. The formula of a preset may be any value; one that counts
as false is an empty text. Half of a character is not allowed in a formula, and neither is the
character that is shown in its place. -/
def FormulaOrigin.find : FormulaOrigin → Work String
  | .given text => return text
  | .stored name file => do
    let file := file.getD ""
    if file.isEmpty then throw .presetFileMissing
    let store ← PresetStore.atPath file PresetStore.defaultPolicy
    match (← store.find (.text name)).expr with
    | .text formula => return formula.shown
    | value => if value.isTruthy then throw .notText else return ""

/-! ## Pictures -/

/-- The picture in a file, with its corner at a point of the document. -/
def openPicture (file : Option String) (corner : Int × Int) : Work PixelSource := do
  match file with
  | none => throw .notText
  | some file =>
    let picture ← Work.attempt (.file file) ((← get).files.readPicture file)
    if picture.mode ≠ .rgba then
      Work.tell .debug ("Converting " ++ picture.mode.name ++ " image to RGBA")
    return picture.toSource corner.1 corner.2

/-- Writes a content to a file. -/
def writeFile (file : String) (content : FileContent) : Work Unit := do
  let w ← get
  set { w with files := ← Work.attempt (.file file) (w.files.write file content) }

/-- Opens a file in order to write to it, and lets it be. A file that was there is left empty. -/
def openFile (file : String) : Work Unit := do
  let isThere := (← get).files.isFile file
  writeFile file (.text "")
  if !isThere then
    let w ← get
    set { w with files := ← Work.attempt (.file file) (w.files.remove file) }

/-- Writes a picture with alpha to a file, in the format that the ending of its name stands for. -/
def savePicture (file : String) (picture : Picture) : Work Unit := do
  match PictureFormat.ofEnding (Path.ending file) with
  | .ok format => writeFile file (.ofPicture format picture)
  | .error fault =>
    if fault.opensFile then openFile file
    throw (.format file fault)

namespace BlendRequest

/-- The canvas of a request. -/
def canvasFor (request : BlendRequest) (base blend : Rect) : Except RectFault Rect :=
  match request.canvas with
  | some (width, height) => Rect.ofSize width height 0 0
  | none =>
    let bounds := base.union blend
    .ok (Rect.fromOrigin bounds.right bounds.bottom)

/-- Tells how large the result is. -/
def tellResult (result : BlendResult) : Work Unit :=
  Work.tell .info ("Writing " ++ toString result.width ++ "x" ++ toString result.height ++
    " result at " ++ result.rect.display)

/-- Blends two pictures and writes the result. -/
def run (request : BlendRequest) : Work Unit := do
  let engine ← compileFormula (← request.formula.find)
  let base ← openPicture request.base request.baseOffset
  let blend ← openPicture request.blend request.blendOffset
  let canvas ← Work.attempt .rect (request.canvasFor base.rect blend.rect)
  let place ← Work.attempt .composite (Placement.of base.rect blend.rect canvas)
  Work.tell .debug ("Compositing " ++ place.base.display ++ " and " ++ place.blend.display ++
    " into " ++ place.viewport.display)
  Work.attempt .noRoom (Capacity.forComposite base blend canvas)
  let result ← Work.attempt .composite (composite Float base blend canvas engine)
  tellResult result
  Work.attempt .noRoom (Capacity.forCanvas result canvas)
  match result.onCanvas? canvas with
  | some picture => savePicture request.output picture
  | none => throw .byteCount

end BlendRequest

/-! ## Presets -/

/-- A text as it is printed. -/
def printed : JsonText → Except Fault String
  | .whole s => .ok s
  | .halved _ => .error .unencodable

/-- A line of the list of presets. -/
def presetLine (item : PresetItem) : Except Fault String := do
  return (← printed item.id.display) ++ "\t" ++ (← printed item.name.display) ++ "\t" ++
    (← printed item.expr.display) ++ "\n"

/-- The list of presets. -/
def presetLines (items : List PresetItem) : Work String :=
  Work.ofExcept (String.join <$> items.mapM presetLine)

/-- Works on the presets of a store. -/
def PresetAction.run (store : PresetStore) : PresetAction → Work String
  | .list => do presetLines (← store.load)
  | .add name formula => do
    let _ ← compileFormula formula
    presetLines (← store.save (.text name) (.text formula))
  | .delete id => do presetLines (← store.delete (.text id))
  | .exportText => return (← Work.ofExcept (printed (← store.exportText))) ++ "\n"
  | .importFile source => do
    let text ← Work.attempt (.file source) ((← get).files.readText source)
    presetLines (← store.importText text)

/-! ## The program -/

/-- Does what a command asks for and gives the text to print. -/
def Command.run : Command → Work String
  | .blend request => do
    request.run
    return ""
  | .check formula => do
    let engine ← compileFormula formula
    return "OK: " ++ toString engine.arity ++ " channels (" ++ engine.expanded ++ ")\n"
  | .expand formula => do
    tellTokens formula
    return (← Work.attempt .formula (expandText formula)) ++ "\n"
  | .presets file action => do
    action.run (← PresetStore.atPath file PresetStore.defaultPolicy)

/-- How a run of the program ends. -/
structure Outcome where
  /-- The status, zero for success. -/
  status : Nat
  /-- The text to print. -/
  output : String
  deriving DecidableEq, Repr

namespace Invocation

/-- Does what an invocation asks for. -/
def run (invocation : Invocation) : Work Outcome := do
  try
    return ⟨0, ← invocation.command.run⟩
  catch fault =>
    if fault.isOwn then
      Work.tell .error fault.message
      return ⟨1, ""⟩
    else throw fault

/-- The importance from which on the log is shown. -/
def threshold (invocation : Invocation) : LogLevel :=
  if invocation.verbose then .debug else .info

end Invocation

end LayerBlend.CommandLine
