/-!
# Log entries

What the program tells beside its results: sentences of four levels of importance.
-/

namespace LayerBlend

/-- The importance of a log entry. -/
inductive LogLevel where
  /-- Detail for someone who looks for a fault. -/
  | debug
  /-- What was done. -/
  | info
  /-- What went wrong and was mended. -/
  | warning
  /-- What went wrong. -/
  | error
  deriving DecidableEq, Repr

/-- A sentence with its importance. -/
structure LogEntry where
  /-- The importance. -/
  level : LogLevel
  /-- The sentence. -/
  message : String
  deriving DecidableEq, Repr

/-- The levels in increasing order. -/
def LogLevel.rank : LogLevel → Nat
  | .debug => 0
  | .info => 1
  | .warning => 2
  | .error => 3

/-- The entries of at least the given importance. -/
def LogEntry.atLeast (level : LogLevel) (entries : List LogEntry) : List LogEntry :=
  entries.filter fun entry => level.rank ≤ entry.level.rank

end LayerBlend
