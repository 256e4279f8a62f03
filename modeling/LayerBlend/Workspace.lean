import LayerBlend.Fault

/-!
# The workspace

A `Workspace` is everything around a piece of work that can change: the files, a clock, a supply of
identifiers, a log, and the waits that were made. The clock and the supply are sequences, and each
reading and each draw takes the next member. Pending faults (`WriteFault`) are met by the next
attempts to write presets.

`Work` is work in a workspace: it has a value or fails, and either way leaves a workspace behind.
-/

namespace LayerBlend

/-- A fault that an attempt to write a file meets. -/
structure WriteFault where
  /-- The fault. -/
  fault : Fault
  /-- The file has been opened by then, and so it is empty. -/
  opens : Bool

/-- What surrounds a piece of work. -/
structure Workspace where
  /-- The files. -/
  files : Files
  /-- The name of the directory that paths start from. -/
  directory : String
  /-- The milliseconds that each reading of the clock shows. -/
  clock : Nat → Int
  /-- How often the clock was read. -/
  readings : Nat
  /-- The random part of each identifier. -/
  suffix : Nat → String
  /-- How many identifiers were made. -/
  draws : Nat
  /-- The faults of the next attempts to write presets. -/
  pending : List WriteFault
  /-- What was told. -/
  log : List LogEntry
  /-- The waits that were made. -/
  waits : List Float

/-- Work in a workspace. -/
abbrev Work := EStateM Fault Workspace

namespace Work

/-- Reads the clock. -/
def now : Work Int := do
  let w ← get
  set { w with readings := w.readings + 1 }
  return w.clock w.readings

/-- Takes the random part of an identifier. -/
def drawSuffix : Work String := do
  let w ← get
  set { w with draws := w.draws + 1 }
  return w.suffix w.draws

/-- Tells a sentence. -/
def tell (level : LogLevel) (message : String) : Work Unit :=
  modify fun w => { w with log := w.log ++ [⟨level, message⟩] }

/-- The value of a computation that may fail. -/
def ofExcept {α : Type} : Except Fault α → Work α
  | .ok value => pure value
  | .error fault => throw fault

/-- Takes an action from the workspace and makes its outcome the value. -/
def attempt {ε α : Type} (wrap : ε → Fault) (outcome : Except ε α) : Work α :=
  ofExcept (outcome.mapError wrap)

end Work

end LayerBlend
