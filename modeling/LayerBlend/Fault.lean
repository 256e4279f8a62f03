import LayerBlend.Capacity
import LayerBlend.Json.Display
import LayerBlend.Retry
import LayerBlend.Text.Search
import LayerBlend.Workspace.Files

/-!
# Faults

`Fault` is what can go wrong in the program as a whole: each part's own faults, the faults of hosts
and files, and faults that come from outside and are only handed on. A fault has a kind
(`Fault.kind`) and a sentence (`Fault.message`). Two predicates select the faults worth another
attempt: `isHostConflict` for a host that is busy, and `isWriteFailure` for a file that cannot be
written.
-/

namespace LayerBlend

/-- What a fault is about. -/
inductive FaultKind where
  /-- The use of the program. -/
  | usage
  /-- A blank formula. -/
  | blankFormula
  /-- A piece of text that formulas may not use. -/
  | disallowedToken
  /-- Tokens that are no formula. -/
  | badSyntax
  /-- A formula with the wrong number of values. -/
  | badArity
  /-- Rectangles that cover nothing. -/
  | emptyIntersection
  /-- A host that is busy with something else. -/
  | hostConflict
  /-- Presets that cannot be written. -/
  | writeFailure
  /-- A document that holds no presets. -/
  | invalidPresets
  /-- A layer that is not there. -/
  | missingLayer
  /-- A preset that is not there. -/
  | missingPreset
  /-- Something at run time. -/
  | runtime
  /-- An evaluation that is nested too deeply. -/
  | recursion
  /-- A value that is out of place. -/
  | badValue
  /-- A text that cannot be encoded. -/
  | encoding
  /-- A number that is too large. -/
  | overflow
  /-- The memory. -/
  | memory
  /-- A value of the wrong type. -/
  | badType
  /-- A key. -/
  | badKey
  /-- A look-up. -/
  | badLookup
  /-- A value without the wanted attribute. -/
  | badAttribute
  /-- The system. -/
  | system
  /-- A file. -/
  | file (cause : FileFault)
  /-- A permission. -/
  | permission
  /-- A time limit. -/
  | timeout
  deriving DecidableEq, Repr

/-- Why an entry of a document is no preset. -/
inductive ItemFault where
  /-- A field is missing. -/
  | missingField (name : String)
  /-- A value has no fields. -/
  | notAnObject
  /-- A value is no time. -/
  | notATime
  deriving DecidableEq, Repr

/-- Why a text is no document of presets. -/
inductive DocumentFault where
  /-- The text is no JSON. -/
  | notJson
  /-- The document lacks its version or its items. -/
  | missingParts
  /-- An item is no preset. -/
  | badItem (cause : ItemFault)
  deriving DecidableEq, Repr

/-- What can go wrong. -/
inductive Fault where
  /-- A fault from outside, with its text. -/
  | outside (kind : FaultKind) (text : String)
  /-- A text is no formula. -/
  | formula (cause : FormulaFault)
  /-- Something is given where a text must be. -/
  | notText
  /-- Numbers are no rectangle. -/
  | rect (cause : RectFault)
  /-- A buffer is no pixel source. -/
  | source (cause : SourceFault)
  /-- Sources cannot be blended. -/
  | composite (cause : CompositeFault)
  /-- A picture has not as many bytes as its rectangle. -/
  | byteCount
  /-- There is no room for pixels. -/
  | noRoom (cause : CapacityFault)
  /-- A host has no such layer. -/
  | layerNotFound (id : Json)
  /-- A layer does not touch the canvas. -/
  | emptyLayer
  /-- Settings are no policy. -/
  | policy (cause : PolicyFault)
  /-- A wait is beyond all doubles. -/
  | endlessWait
  /-- An action still fails after as many attempts as were allowed for. -/
  | outOfPatience
  /-- A file cannot be used. -/
  | file (path : String) (cause : FileFault)
  /-- Presets cannot be written. -/
  | unwritten (path : String) (cause : FileFault)
  /-- A text has half of a character, and cannot be encoded. -/
  | unencodable
  /-- A picture with alpha is not written in the format that the ending of a name stands for. -/
  | format (path : String) (cause : FormatFault)
  /-- A text is no document of presets. -/
  | document (cause : DocumentFault)
  /-- A time is infinite. -/
  | infiniteTime
  /-- A name or a formula of a preset is a list or an object. -/
  | notAKey
  /-- There is no preset of this name. -/
  | presetNotFound (name : Json) (path : String)
  /-- A preset is named, and no file of presets. -/
  | presetFileMissing

/-- What is wrong with an entry. -/
def ItemFault.message : ItemFault → String
  | .missingField name => Text.quoted name
  | .notAnObject => "not an object"
  | .notATime => "not a time"

/-- What is wrong with a document. -/
def DocumentFault.message : DocumentFault → String
  | .notJson => "Invalid JSON: not a JSON document"
  | .missingParts => "Missing version or items"
  | .badItem cause => "Invalid preset item: " ++ cause.message

namespace Fault

/-- What the fault of an evaluation is about. -/
def ofEvaluation : EvalFault → FaultKind
  | .shapes => .badValue
  | .argumentCount | .misplacedArray | .missingArray => .badType
  | .tooDeep => .recursion

/-- What a formula's fault is about. -/
def ofFormula : FormulaFault → FaultKind
  | .blank => .blankFormula
  | .disallowed .. => .disallowedToken
  | .badSyntax (.notANumber _) => .badValue
  | .badSyntax _ => .badSyntax
  | .arity _ => .badArity
  | .noValue cause => ofEvaluation cause

/-- What a rectangle's fault is about. -/
def ofRect : RectFault → FaultKind
  | .edge .infinite => .overflow
  | _ => .badValue

/-- What a lack of room is about. -/
def ofCapacity : CapacityFault → FaultKind
  | .unaddressable => .badValue
  | .longSide => .overflow
  | .outOfMemory => .memory

/-- What the fault of a format is about. -/
def ofFormat : FormatFault → FaultKind
  | .unknown | .noColours => .badValue
  | .readOnly => .badKey
  | .noAlpha | .notInstalled => .system

/-- What a fault is about. -/
def kind : Fault → FaultKind
  | .outside kind _ => kind
  | .formula cause => ofFormula cause
  | .notText => .badAttribute
  | .rect cause => ofRect cause
  | .source _ | .byteCount | .policy _ => .badValue
  | .noRoom cause => ofCapacity cause
  | .composite (.badBounds cause) => ofRect cause
  | .composite (.noValue cause) => ofEvaluation cause
  | .composite _ | .emptyLayer => .emptyIntersection
  | .layerNotFound _ => .missingLayer
  | .endlessWait | .infiniteTime => .overflow
  | .outOfPatience => .runtime
  | .format _ cause => ofFormat cause
  | .file _ cause => .file cause
  | .unwritten .. => .writeFailure
  | .unencodable => .encoding
  | .document _ => .invalidPresets
  | .notAKey => .badType
  | .presetNotFound .. => .missingPreset
  | .presetFileMissing => .usage

/-- The sentence of a fault; a text from outside about a key stands between quotes. -/
def message : Fault → String
  | .outside .badKey text => Text.quoted text
  | .outside _ text => text
  | .formula cause => cause.message
  | .notText => "Not a text"
  | .rect cause => cause.message
  | .source cause => cause.message
  | .composite cause => cause.message
  | .byteCount => "Byte count does not match the rectangle"
  | .noRoom cause => cause.message
  | .layerNotFound id => "Layer " ++ id.oneLine ++ " does not exist"
  | .emptyLayer => "Selected layer is empty"
  | .policy cause => cause.message
  | .endlessWait => "Wait is too long"
  | .outOfPatience => "Too many attempts"
  | .file path cause => "Cannot use file " ++ path ++ ": " ++ cause.message
  | .unwritten path cause => "Failed to write " ++ path ++ ": " ++ cause.message
  | .unencodable => "Half of a character cannot be encoded"
  | .format path cause => cause.message ++ ": " ++ path
  | .document cause => cause.message
  | .infiniteTime => "Time is infinite"
  | .notAKey => "Name and formula of a preset must not be lists or objects"
  | .presetNotFound name path => "No preset named " ++ name.oneLine ++ " in " ++ path
  | .presetFileMissing => "--preset requires --presets FILE"

/-- The host is busy with something else, or says that it is in a modal state. -/
def isHostConflict (fault : Fault) : Bool :=
  fault.kind == .hostConflict ||
    Text.holds "modal state".toList (Text.lower fault.message.toList)

/-- A file or the system is the reason. -/
def isWriteFailure (fault : Fault) : Bool :=
  match fault.kind with
  | .system | .writeFailure | .permission | .timeout => true
  | .file cause => cause != .undecodable && cause != .nullCharacter
  | _ => false

/-- The fault belongs to the program's own subject. -/
def isOwn (fault : Fault) : Bool :=
  match fault.kind with
  | .usage | .blankFormula | .disallowedToken | .badSyntax | .badArity | .emptyIntersection
  | .hostConflict | .writeFailure | .invalidPresets | .missingLayer | .missingPreset => true
  | _ => false

end Fault

end LayerBlend
