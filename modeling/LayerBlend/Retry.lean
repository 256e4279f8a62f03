import LayerBlend.Log
import LayerBlend.Numeral.Notation

/-!
# Retrying

A `RetryPolicy` says which failures of an action are worth another attempt, how long to wait after
each failed attempt, and how many attempts to make in all. Attempts are numbered from zero, and an
action is the stream of its outcomes by attempt.

`RetryPolicy.run` is the whole run of an action under a policy: its result and, for each failure
that was retried, the failure and the wait. A run may never end, so `run` makes no more attempts
than its `patience`; `RetryPolicy.retried` are the failures that are retried within it, also when it
does not suffice.
-/

namespace LayerBlend

/-! ## Waits -/

/-- How long to wait after a failed attempt. -/
inductive Backoff where
  /-- The same time after each attempt. -/
  | fixed (seconds : Float)
  /-- A time that doubles with each attempt, up to a cap. -/
  | exponential (base cap : Float)

namespace Backoff

/-- The first attempt whose power of two is beyond all doubles. -/
def attemptLimit : Nat := 1024

/-- The wait after the attempt with the given number; none when its power of two is beyond all
doubles. Below zero the time is halved with each number. -/
def wait? : Backoff → Int → Option Float
  | .fixed seconds, _ => some seconds
  | .exponential base cap, attempt =>
    if attemptLimit ≤ attempt then none
    else
      let product := base * Double.ofParts false 1 attempt
      some (if cap < product then cap else product)

end Backoff

/-! ## Policies -/

/-- When to retry an action that fails with an `ε`. -/
structure RetryPolicy (ε : Type) where
  /-- The number of attempts in all, none for no bound. -/
  limit : Option Nat
  /-- The wait after a failed attempt, or the failure to compute it. -/
  backoff : Nat → Except ε Float
  /-- The failures worth another attempt. -/
  retryOn : ε → Bool
  /-- At least one attempt is made. -/
  limit_pos : ∀ n, limit = some n → 0 < n

/-- Why settings are no policy. -/
inductive PolicyFault where
  /-- No attempt would be made. -/
  | noAttempts (limit : Int)
  deriving DecidableEq, Repr

/-- The sentence that names the number of attempts. -/
def PolicyFault.message : PolicyFault → String
  | .noAttempts limit => "max_attempts must be at least 1, got " ++ toString limit

namespace RetryPolicy

variable {ε β : Type}

/-- Without a limit there is no limit that is zero. -/
theorem pos_of_noLimit (n : Nat) (h : none = some n) : 0 < n := by
  cases h

/-- The policy with the given waits; `overflow` is the failure of a wait beyond all doubles. -/
def ofBackoff (limit : Option Nat) (limit_pos : ∀ n, limit = some n → 0 < n) (backoff : Backoff)
    (overflow : ε) (retryOn : ε → Bool) : RetryPolicy ε where
  limit := limit
  backoff attempt :=
    match backoff.wait? attempt with
    | some seconds => .ok seconds
    | none => .error overflow
  retryOn := retryOn
  limit_pos := limit_pos

/-- The policy with the given settings, unless its number of attempts is not positive. -/
def make (limit : Option Int) (backoff : Backoff) (overflow : ε) (retryOn : ε → Bool) :
    Except PolicyFault (RetryPolicy ε) :=
  match limit with
  | none => .ok (ofBackoff none pos_of_noLimit backoff overflow retryOn)
  | some n =>
    if h : 0 < n then .ok (ofBackoff (some n.toNat) (by simp; omega) backoff overflow retryOn)
    else .error (.noAttempts n)

/-- What follows a failed attempt: a wait, or the failure that ends the run. -/
def afterFailure (policy : RetryPolicy ε) (attempt : Nat) (failure : ε) : Except ε Float :=
  if policy.retryOn failure && !policy.limit.any (· ≤ attempt + 1) then policy.backoff attempt
  else .error failure

end RetryPolicy

/-! ## Runs -/

/-- A failed attempt that is followed by another one. -/
structure RetriedFailure (ε : Type) where
  /-- The number of the attempt. -/
  attempt : Nat
  /-- The failure. -/
  failure : ε
  /-- The wait before the next attempt. -/
  seconds : Float

/-- The warning about a failed attempt; `describe` is the sentence of a failure. -/
def RetriedFailure.warning {ε : Type} (describe : ε → String) (r : RetriedFailure ε) : LogEntry :=
  ⟨.warning, "Attempt " ++ toString (r.attempt + 1) ++ " failed (" ++ describe r.failure ++
    "), retrying in " ++ Numeral.showBrief r.seconds ++ "s"⟩

/-- A run of an action. -/
structure RetryRun (ε β : Type) where
  /-- How the last attempt ended. -/
  result : Except ε β
  /-- The failures before the last attempt. -/
  retried : List (RetriedFailure ε)

namespace RetryRun

variable {ε β : Type}

/-- The number of attempts. -/
def calls (r : RetryRun ε β) : Nat :=
  r.retried.length + 1

/-- The waits between the attempts. -/
def waits (r : RetryRun ε β) : List Float :=
  r.retried.map RetriedFailure.seconds

/-- The warnings about the failures that were retried. -/
def warnings (describe : ε → String) (r : RetryRun ε β) : List LogEntry :=
  r.retried.map (RetriedFailure.warning describe)

end RetryRun

namespace RetryPolicy

variable {ε β : Type}

/-- The run from an attempt on, unless it takes more attempts than `patience`. -/
def runFrom (policy : RetryPolicy ε) (outcome : Nat → Except ε β) :
    Nat → Nat → Option (RetryRun ε β)
  | 0, _ => none
  | patience + 1, attempt =>
    match outcome attempt with
    | .ok value => some ⟨.ok value, []⟩
    | .error failure =>
      match policy.afterFailure attempt failure with
      | .error last => some ⟨.error last, []⟩
      | .ok seconds =>
        (policy.runFrom outcome patience (attempt + 1)).map fun run =>
          { run with retried := ⟨attempt, failure, seconds⟩ :: run.retried }

/-- The run of an action, unless it takes more attempts than `patience`. -/
def run (policy : RetryPolicy ε) (outcome : Nat → Except ε β) (patience : Nat) :
    Option (RetryRun ε β) :=
  policy.runFrom outcome patience 0

/-- The failures that are retried from an attempt on, among as many attempts as `patience` says. -/
def retriedFrom (policy : RetryPolicy ε) (outcome : Nat → Except ε β) :
    Nat → Nat → List (RetriedFailure ε)
  | 0, _ => []
  | patience + 1, attempt =>
    match outcome attempt with
    | .ok _ => []
    | .error failure =>
      match policy.afterFailure attempt failure with
      | .error _ => []
      | .ok seconds =>
        ⟨attempt, failure, seconds⟩ :: policy.retriedFrom outcome patience (attempt + 1)

/-- The failures of an action that are retried, among as many attempts as `patience` says. -/
def retried (policy : RetryPolicy ε) (outcome : Nat → Except ε β) (patience : Nat) :
    List (RetriedFailure ε) :=
  policy.retriedFrom outcome patience 0

end RetryPolicy

end LayerBlend
