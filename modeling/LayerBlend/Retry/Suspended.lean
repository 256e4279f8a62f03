import LayerBlend.Retry

/-!
# Suspended runs

A run can be driven from outside: it asks for an attempt or a wait, is suspended until that is
done, and goes on with the outcome. `SuspendedRun.advance` is one such step, and
`RetryPolicy.runSuspended` drives a run with the outcomes of an action.
-/

namespace LayerBlend

/-- What a suspended run asks for. -/
inductive RunPhase (ε β : Type) where
  /-- The outcome of an attempt. -/
  | attempting (attempt : Nat)
  /-- A wait after a failed attempt. -/
  | waiting (attempt : Nat) (seconds : Float)
  /-- Nothing more. -/
  | finished (result : Except ε β)

/-- A run between two steps. -/
structure SuspendedRun (ε β : Type) where
  /-- What it asks for. -/
  phase : RunPhase ε β
  /-- The failures that were retried, the latest first. -/
  retried : List (RetriedFailure ε)

namespace SuspendedRun

variable {ε β : Type}

/-- The run before its first attempt. -/
def start : SuspendedRun ε β := ⟨.attempting 0, []⟩

/-- The run after what it asks for is done. -/
def advance (policy : RetryPolicy ε) (outcome : Nat → Except ε β) (run : SuspendedRun ε β) :
    SuspendedRun ε β :=
  match run.phase with
  | .finished _ => run
  | .waiting attempt _ => { run with phase := .attempting (attempt + 1) }
  | .attempting attempt =>
    match outcome attempt with
    | .ok value => { run with phase := .finished (.ok value) }
    | .error failure =>
      match policy.afterFailure attempt failure with
      | .error last => { run with phase := .finished (.error last) }
      | .ok seconds => ⟨.waiting attempt seconds, ⟨attempt, failure, seconds⟩ :: run.retried⟩

/-- The run after a number of steps. -/
def advanceMany (policy : RetryPolicy ε) (outcome : Nat → Except ε β) :
    Nat → SuspendedRun ε β → SuspendedRun ε β
  | 0, run => run
  | steps + 1, run => advanceMany policy outcome steps (run.advance policy outcome)

/-- The whole run, once it asks for nothing more. -/
def finished? (run : SuspendedRun ε β) : Option (RetryRun ε β) :=
  match run.phase with
  | .finished result => some ⟨result, run.retried.reverse⟩
  | _ => none

end SuspendedRun

/-- The run of an action that is suspended at each attempt and each wait, unless it takes more
attempts than `patience`. -/
def RetryPolicy.runSuspended {ε β : Type} (policy : RetryPolicy ε) (outcome : Nat → Except ε β)
    (patience : Nat) : Option (RetryRun ε β) :=
  (SuspendedRun.start.advanceMany policy outcome (2 * patience)).finished?

end LayerBlend
