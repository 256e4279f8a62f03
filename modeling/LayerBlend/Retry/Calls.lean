import LayerBlend.Retry.Suspended

/-!
# Calls under a policy

What a run of an action looks like from outside: the action is called on an input, always the same
one, and between two calls there is a warning and a wait. A `Journal` holds all that happened, over
any number of runs, and the outcome of a call may depend on how many calls there were before it.

* `RetryPolicy.call` is the loop that calls an action until it succeeds or the policy gives up.
* `RetryPolicy.callSuspended` drives a `SuspendedRun`, which is left at each call and each wait.

Both make no more attempts than their `patience`.
-/

namespace LayerBlend

/-- Something that happens in a run. -/
inductive RunEvent (ι : Type) where
  /-- The action is called on an input. -/
  | call (input : ι)
  /-- A warning is given. -/
  | warn (entry : LogEntry)
  /-- Time is waited for. -/
  | wait (seconds : Float)

/-- The event is a call. -/
def RunEvent.isCall {ι : Type} : RunEvent ι → Bool
  | .call _ => true
  | .warn _ | .wait _ => false

/-- All that happened, in order. -/
abbrev Journal (ι : Type) := List (RunEvent ι)

/-- The number of calls so far. -/
def Journal.calls {ι : Type} (journal : Journal ι) : Nat :=
  journal.countP RunEvent.isCall

/-- The outcomes of an action: that of the call with a number, for an input. -/
abbrev Action (ι ε β : Type) := Nat → ι → Except ε β

namespace Action

variable {ι ε β : Type}

/-- Calls an action on an input. -/
def callOn (action : Action ι ε β) (input : ι) : StateM (Journal ι) (Except ε β) := fun journal =>
  (action journal.calls input, journal ++ [.call input])

end Action

/-- Notes what happened. -/
def Journal.note {ι : Type} (event : RunEvent ι) : StateM (Journal ι) Unit := fun journal =>
  ((), journal ++ [event])

namespace RetryPolicy

variable {ι ε β : Type}

/-- Calls an action from an attempt on. -/
def callFrom (policy : RetryPolicy ε) (describe : ε → String) (action : Action ι ε β) (input : ι) :
    Nat → Nat → StateM (Journal ι) (Option (Except ε β))
  | 0, _ => return none
  | patience + 1, attempt => do
    match ← action.callOn input with
    | .ok value => return some (.ok value)
    | .error failure =>
      match policy.afterFailure attempt failure with
      | .error last => return some (.error last)
      | .ok seconds =>
        Journal.note (.warn (RetriedFailure.warning describe ⟨attempt, failure, seconds⟩))
        Journal.note (.wait seconds)
        policy.callFrom describe action input patience (attempt + 1)

/-- Calls an action on an input until it succeeds or the policy gives up; no result when that takes
more attempts than `patience`. -/
def call (policy : RetryPolicy ε) (describe : ε → String) (action : Action ι ε β) (input : ι)
    (patience : Nat) : StateM (Journal ι) (Option (Except ε β)) :=
  policy.callFrom describe action input patience 0

end RetryPolicy

namespace SuspendedRun

variable {ι ε β : Type}

/-- Does what a run asks for. -/
def resume (policy : RetryPolicy ε) (describe : ε → String) (action : Action ι ε β) (input : ι)
    (run : SuspendedRun ε β) : StateM (Journal ι) (SuspendedRun ε β) :=
  match run.phase with
  | .finished _ => return run
  | .waiting attempt seconds => do
    Journal.note (.wait seconds)
    return { run with phase := .attempting (attempt + 1) }
  | .attempting attempt => do
    match ← action.callOn input with
    | .ok value => return { run with phase := .finished (.ok value) }
    | .error failure =>
      match policy.afterFailure attempt failure with
      | .error last => return { run with phase := .finished (.error last) }
      | .ok seconds =>
        let failed : RetriedFailure ε := ⟨attempt, failure, seconds⟩
        Journal.note (.warn (failed.warning describe))
        return ⟨.waiting attempt seconds, failed :: run.retried⟩

/-- Does what a run asks for, a number of times. -/
def resumeMany (policy : RetryPolicy ε) (describe : ε → String) (action : Action ι ε β)
    (input : ι) : Nat → SuspendedRun ε β → StateM (Journal ι) (SuspendedRun ε β)
  | 0, run => return run
  | steps + 1, run => do
    resumeMany policy describe action input steps (← run.resume policy describe action input)

end SuspendedRun

/-- Calls an action on an input by a run that is suspended at each call and each wait; no result
when that takes more attempts than `patience`. -/
def RetryPolicy.callSuspended {ι ε β : Type} (policy : RetryPolicy ε) (describe : ε → String)
    (action : Action ι ε β) (input : ι) (patience : Nat) :
    StateM (Journal ι) (Option (Except ε β)) := do
  let run ← SuspendedRun.start.resumeMany policy describe action input (2 * patience)
  return run.finished?.map RetryRun.result

end LayerBlend
