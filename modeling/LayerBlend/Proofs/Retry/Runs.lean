import LayerBlend.Retry.Suspended
import Mathlib.Data.List.Forall2
import Mathlib.Data.Nat.Find
import Mathlib.Tactic.ByContra

/-!
# Where runs stop

A run ends with the first attempt that succeeds, that fails in a way which is not worth another
attempt, or that is the last one allowed. All attempts before it are retried.

* `RetryPolicy.Ends` says that the outcome of an attempt ends a run, and `RetryPolicy.StopsAt` that
  it is the first one to do so.
* `RetryPolicy.FailedAt` relates an attempt that failed to what is recorded of it.
* `RetryPolicy.run_of_stopsAt` is the whole run up to where it stops, and
  `RetryPolicy.run_of_goesOn` says what happens while nothing ends it.
* `RetryPolicy.from_of_no_wait`: a failure ends a run too when there is no wait behind it.
* `RetryPolicy.fault_of_run`: what a run fails with comes from its last attempt, or from the policy.
* `RetryPolicy.attempts_of_runFrom`, `RetryPolicy.failed_of_runFrom_eq_none`: all attempts fail but
  the last one of a run that succeeds.
* `RetryPolicy.runSuspended_eq_run`: it does not matter whether a run is suspended.

Throughout, `wait` is the wait after each attempt, as the policy computes it where it can.
-/

namespace LayerBlend

namespace RetryPolicy

variable {ε β : Type}

/-! ## The end of a run -/

/-- The outcome of an attempt ends a run. -/
inductive Ends (policy : RetryPolicy ε) : Except ε β → Nat → Prop where
  /-- It is a success. -/
  | success (value : β) (attempt : Nat) : Ends policy (.ok value) attempt
  /-- It is a failure that is not worth another attempt. -/
  | rejected {failure : ε} (attempt : Nat) (h : policy.retryOn failure = false) :
      Ends policy (.error failure) attempt
  /-- No attempt is left. -/
  | exhausted (failure : ε) {attempt limit : Nat} (h : policy.limit = some limit)
      (hlast : limit ≤ attempt + 1) : Ends policy (.error failure) attempt

/-- A run stops with an attempt: this is the first one that ends it. -/
structure StopsAt (policy : RetryPolicy ε) (outcome : Nat → Except ε β) (attempt : Nat) : Prop where
  /-- The attempt ends it. -/
  ends : policy.Ends (outcome attempt) attempt
  /-- No attempt before does. -/
  first : ∀ i < attempt, ¬ policy.Ends (outcome i) i

variable {policy : RetryPolicy ε} {outcome : Nat → Except ε β} {wait : Nat → Float}

/-- What ends a run is a failure with nothing behind it, if it is no success. -/
theorem afterFailure_of_ends {failure : ε} {attempt : Nat}
    (h : policy.Ends (.error failure : Except ε β) attempt) :
    policy.afterFailure attempt failure = .error failure := by
  cases h with
  | rejected _ hrejected => simp [afterFailure, hrejected]
  | exhausted _ hlimit hlast => simp [afterFailure, hlimit, hlast]

/-- A failure that does not end a run is followed by a wait, unless this cannot be computed. -/
theorem afterFailure_of_not_ends {failure : ε} {attempt : Nat}
    (h : ¬ policy.Ends (.error failure : Except ε β) attempt) :
    policy.afterFailure attempt failure = policy.backoff attempt := by
  have hretry : policy.retryOn failure = true := by
    by_contra hrejected
    exact h (.rejected attempt (by simpa using hrejected))
  have hleft : policy.limit.any (· ≤ attempt + 1) = false := by
    by_contra hlast
    obtain ⟨limit, hlimit, hle⟩ : ∃ limit, policy.limit = some limit ∧ limit ≤ attempt + 1 := by
      simpa [Option.any_eq_true] using hlast
    exact h (.exhausted failure hlimit hle)
  simp [afterFailure, hretry, hleft]

/-- What does not end a run is a failure. -/
theorem eq_error_of_not_ends {attempt : Nat} (h : ¬ policy.Ends (outcome attempt) attempt) :
    ∃ failure, outcome attempt = .error failure := by
  cases hattempt : outcome attempt with
  | ok value =>
    rw [hattempt] at h
    exact absurd (.success value attempt) h
  | error failure => exact ⟨failure, rfl⟩

/-- Among as many attempts as are made, either one is the first to end a run or none ends it. -/
theorem stopsAt_or_goesOn (policy : RetryPolicy ε) (outcome : Nat → Except ε β) (patience : Nat) :
    (∃ k < patience, policy.StopsAt outcome k) ∨
      ∀ k < patience, ¬ policy.Ends (outcome k) k := by
  classical
  by_cases hex : ∃ k, k < patience ∧ policy.Ends (outcome k) k
  · obtain ⟨hlt, hends⟩ := Nat.find_spec hex
    exact .inl ⟨Nat.find hex, hlt, hends, fun i hi h => Nat.find_min hex hi ⟨by omega, h⟩⟩
  · exact .inr fun k hk h => hex ⟨k, hk, h⟩

/-! ## One attempt -/

/-- An attempt that ends a run is its last one. -/
theorem from_of_ends {attempt : Nat} (h : policy.Ends (outcome attempt) attempt)
    (patience : Nat) :
    policy.runFrom outcome (patience + 1) attempt = some ⟨outcome attempt, []⟩ ∧
      policy.retriedFrom outcome (patience + 1) attempt = [] := by
  cases hattempt : outcome attempt with
  | ok value => simp [runFrom, retriedFrom, hattempt]
  | error failure =>
    rw [hattempt] at h
    simp [runFrom, retriedFrom, hattempt, afterFailure_of_ends h]

/-- A record of an attempt that failed, and of the wait after it. -/
structure FailedAt (outcome : Nat → Except ε β) (wait : Nat → Float) (attempt : Nat)
    (failed : RetriedFailure ε) : Prop where
  /-- The attempt failed so. -/
  failure : outcome attempt = .error failed.failure
  /-- Its number is recorded. -/
  number : failed.attempt = attempt
  /-- Its wait is recorded. -/
  seconds : failed.seconds = wait attempt

/-- A failure that does not end a run is retried after its wait. -/
theorem from_of_not_ends {attempt : Nat} (hwait : policy.backoff attempt = .ok (wait attempt))
    (h : ¬ policy.Ends (outcome attempt) attempt) :
    ∃ failed, FailedAt outcome wait attempt failed ∧ ∀ patience,
      policy.runFrom outcome (patience + 1) attempt =
        (policy.runFrom outcome patience (attempt + 1)).map (fun run =>
          { run with retried := failed :: run.retried }) ∧
      policy.retriedFrom outcome (patience + 1) attempt =
        failed :: policy.retriedFrom outcome patience (attempt + 1) := by
  obtain ⟨failure, hfailure⟩ := eq_error_of_not_ends h
  rw [hfailure] at h
  refine ⟨⟨attempt, failure, wait attempt⟩, ⟨hfailure, rfl, rfl⟩, fun patience => ?_⟩
  simp [runFrom, retriedFrom, hfailure, afterFailure_of_not_ends h, hwait]

/-- A failure that does not end a run ends it all the same when the wait cannot be computed, and
what went wrong with the wait takes its place. -/
theorem from_of_no_wait {attempt : Nat} {cause : ε} (hwait : policy.backoff attempt = .error cause)
    (h : ¬ policy.Ends (outcome attempt) attempt) (patience : Nat) :
    policy.runFrom outcome (patience + 1) attempt = some ⟨.error cause, []⟩ ∧
      policy.retriedFrom outcome (patience + 1) attempt = [] := by
  obtain ⟨failure, hfailure⟩ := eq_error_of_not_ends h
  rw [hfailure] at h
  simp [runFrom, retriedFrom, hfailure, afterFailure_of_not_ends h, hwait]

/-! ## Many attempts -/

/-- Attempts that do not end a run are retried, and the run goes on behind them. -/
theorem from_of_goesOn :
    ∀ n attempt, (∀ i, attempt ≤ i → i < attempt + n →
      policy.backoff i = .ok (wait i) ∧ ¬ policy.Ends (outcome i) i) →
      ∃ failed, List.Forall₂ (FailedAt outcome wait) (List.range' attempt n) failed ∧ ∀ patience,
        policy.runFrom outcome (n + patience) attempt =
          (policy.runFrom outcome patience (attempt + n)).map (fun run =>
            { run with retried := failed ++ run.retried }) ∧
        policy.retriedFrom outcome (n + patience) attempt =
          failed ++ policy.retriedFrom outcome patience (attempt + n) := by
  intro n
  induction n with
  | zero =>
    intro attempt _
    exact ⟨[], .nil, by simp⟩
  | succ n ih =>
    intro attempt h
    obtain ⟨hwait, hgoes⟩ := h attempt (Nat.le_refl _) (by omega)
    obtain ⟨first, hfirst, hone⟩ := from_of_not_ends hwait hgoes
    obtain ⟨failed, hfailed, hrest⟩ := ih (attempt + 1) fun i hle hlt => h i (by omega) (by omega)
    have hnext : attempt + (n + 1) = attempt + 1 + n := by omega
    refine ⟨first :: failed, .cons hfirst hfailed, fun patience => ?_⟩
    rw [Nat.succ_add, (hone (n + patience)).1, (hone (n + patience)).2, (hrest patience).1,
      (hrest patience).2, hnext]
    simp [Function.comp_def]

/-- While nothing ends a run all attempts are retried, and it has no result. -/
theorem run_of_goesOn (hwait : ∀ n, policy.backoff n = .ok (wait n)) {patience : Nat}
    (h : ∀ i < patience, ¬ policy.Ends (outcome i) i) :
    ∃ failed, List.Forall₂ (FailedAt outcome wait) (List.range patience) failed ∧
      policy.run outcome patience = none ∧ policy.retried outcome patience = failed := by
  obtain ⟨failed, hfailed, hfrom⟩ :=
    from_of_goesOn patience 0 fun i _ hi => ⟨hwait i, h i (by omega)⟩
  rw [← List.range_eq_range'] at hfailed
  refine ⟨failed, hfailed, ?_⟩
  simpa [run, retried, runFrom, retriedFrom] using hfrom 0

/-- A run has the result of the first attempt that is not followed by another one, and retries all
before. -/
theorem run_of_last {attempt patience : Nat} {result : Except ε β}
    (h : ∀ i < attempt, policy.backoff i = .ok (wait i) ∧ ¬ policy.Ends (outcome i) i)
    (hlast : ∀ rest, policy.runFrom outcome (rest + 1) attempt = some ⟨result, []⟩ ∧
      policy.retriedFrom outcome (rest + 1) attempt = [])
    (hlt : attempt < patience) :
    ∃ failed, List.Forall₂ (FailedAt outcome wait) (List.range attempt) failed ∧
      policy.run outcome patience = some ⟨result, failed⟩ ∧
      policy.retried outcome patience = failed := by
  obtain ⟨rest, rfl⟩ : ∃ rest, patience = attempt + (rest + 1) :=
    ⟨patience - attempt - 1, by omega⟩
  obtain ⟨failed, hfailed, hfrom⟩ := from_of_goesOn attempt 0 fun i _ hi => h i (by omega)
  rw [← List.range_eq_range'] at hfailed
  have hall := hfrom (rest + 1)
  rw [Nat.zero_add, (hlast rest).1, (hlast rest).2] at hall
  refine ⟨failed, hfailed, ?_⟩
  simpa [run, retried] using hall

/-- A run that stops has the outcome of the attempt that it stops with, and retries all before. -/
theorem run_of_stopsAt (hwait : ∀ n, policy.backoff n = .ok (wait n)) {attempt patience : Nat}
    (h : policy.StopsAt outcome attempt) (hlt : attempt < patience) :
    ∃ failed, List.Forall₂ (FailedAt outcome wait) (List.range attempt) failed ∧
      policy.run outcome patience = some ⟨outcome attempt, failed⟩ ∧
      policy.retried outcome patience = failed :=
  run_of_last (fun i hi => ⟨hwait i, h.first i hi⟩) (from_of_ends h.ends) hlt

/-! ## Where failures come from -/

/-- What ends a run behind a failed attempt is its failure, or that there is no wait behind it. -/
theorem fault_of_afterFailure {attempt : Nat} {failure fault : ε}
    (h : policy.afterFailure attempt failure = .error fault) :
    failure = fault ∨ policy.backoff attempt = .error fault := by
  unfold afterFailure at h
  split at h
  · exact .inr h
  · cases h
    exact .inl rfl

/-- A run from an attempt on fails with the failure of its last attempt, or for want of a wait
behind it. -/
theorem fault_of_runFrom {patience attempt : Nat} {fault : ε} {failed : List (RetriedFailure ε)}
    (h : policy.runFrom outcome patience attempt = some ⟨.error fault, failed⟩) :
    outcome (attempt + failed.length) = .error fault ∨
      policy.backoff (attempt + failed.length) = .error fault := by
  induction patience generalizing attempt failed with
  | zero => cases h
  | succ patience ih =>
    rw [runFrom] at h
    cases houtcome : outcome attempt with
    | ok value => simp [houtcome] at h
    | error failure =>
      cases hafter : policy.afterFailure attempt failure with
      | error last =>
        obtain ⟨rfl, rfl⟩ : last = fault ∧ [] = failed := by simpa [houtcome, hafter] using h
        rcases fault_of_afterFailure hafter with rfl | hwait
        · exact .inl houtcome
        · exact .inr hwait
      | ok seconds =>
        simp only [houtcome, hafter] at h
        obtain ⟨⟨result, rest⟩, hrest, hrun⟩ := Option.map_eq_some_iff.mp h
        obtain ⟨rfl, rfl⟩ : result = .error fault ∧ _ := RetryRun.mk.inj hrun
        have hlast := ih hrest
        rwa [Nat.add_assoc, Nat.add_comm 1] at hlast

/-- A run fails with the failure of its last attempt, or for want of a wait behind it. -/
theorem fault_of_run {patience : Nat} {fault : ε} {failed : List (RetriedFailure ε)}
    (h : policy.run outcome patience = some ⟨.error fault, failed⟩) :
    outcome failed.length = .error fault ∨ policy.backoff failed.length = .error fault := by
  simpa using fault_of_runFrom h

/-! ## The attempts of a run -/

/-- All attempts of a run from an attempt on have failed but the last one, and the last one has
succeeded exactly when the run has. -/
theorem attempts_of_runFrom {patience attempt : Nat} {run : RetryRun ε β}
    (h : policy.runFrom outcome patience attempt = some run) :
    (∀ i < run.retried.length, ∃ failure, outcome (attempt + i) = .error failure) ∧
      ((∃ value, run.result = .ok value ∧ outcome (attempt + run.retried.length) = .ok value) ∨
        ∃ fault failure, run.result = .error fault ∧
          outcome (attempt + run.retried.length) = .error failure) := by
  induction patience generalizing attempt run with
  | zero => cases h
  | succ patience ih =>
    rw [runFrom] at h
    cases houtcome : outcome attempt with
    | ok value =>
      obtain rfl : ⟨.ok value, []⟩ = run := by simpa [houtcome] using h
      exact ⟨by simp, .inl ⟨value, rfl, houtcome⟩⟩
    | error failure =>
      cases hafter : policy.afterFailure attempt failure with
      | error last =>
        obtain rfl : ⟨.error last, []⟩ = run := by simpa [houtcome, hafter] using h
        exact ⟨by simp, .inr ⟨last, failure, rfl, houtcome⟩⟩
      | ok seconds =>
        simp only [houtcome, hafter] at h
        obtain ⟨rest, hrest, rfl⟩ := Option.map_eq_some_iff.mp h
        obtain ⟨hfailed, hlast⟩ := ih hrest
        have hnumber : ∀ i, attempt + (i + 1) = attempt + 1 + i := by omega
        refine ⟨fun i hi => ?_, ?_⟩
        · cases i with
          | zero => exact ⟨failure, houtcome⟩
          | succ i =>
            rw [hnumber]
            exact hfailed i (Nat.lt_of_succ_lt_succ hi)
        · rw [List.length_cons, hnumber]
          exact hlast

/-- Where the attempts do not suffice for a run, all of them have failed. -/
theorem failed_of_runFrom_eq_none {patience attempt : Nat}
    (h : policy.runFrom outcome patience attempt = none) :
    ∀ i < patience, ∃ failure, outcome (attempt + i) = .error failure := by
  induction patience generalizing attempt with
  | zero => simp
  | succ patience ih =>
    rw [runFrom] at h
    cases houtcome : outcome attempt with
    | ok value => simp [houtcome] at h
    | error failure =>
      cases hafter : policy.afterFailure attempt failure with
      | error last => simp [houtcome, hafter] at h
      | ok seconds =>
        simp only [houtcome, hafter, Option.map_eq_none_iff] at h
        intro i hi
        cases i with
        | zero => exact ⟨failure, houtcome⟩
        | succ i =>
          rw [← Nat.add_assoc, Nat.add_right_comm]
          exact ih h i (Nat.lt_of_succ_lt_succ hi)

end RetryPolicy

/-! ## Suspension -/

namespace SuspendedRun

variable {ε β : Type} {policy : RetryPolicy ε} {outcome : Nat → Except ε β}

/-- A run that asks for nothing more stays as it is. -/
theorem advanceMany_of_finished {run : SuspendedRun ε β} {result : Except ε β}
    (h : run.phase = .finished result) :
    ∀ steps, run.advanceMany policy outcome steps = run
  | 0 => rfl
  | steps + 1 => by
    rw [advanceMany, advance, h]
    exact advanceMany_of_finished h steps

/-- What an attempt and the wait behind it do to a suspended run. -/
theorem advance_advance (attempt : Nat) (retried : List (RetriedFailure ε)) :
    advance policy outcome (advance policy outcome ⟨.attempting attempt, retried⟩) =
      match outcome attempt with
      | .ok value => ⟨.finished (.ok value), retried⟩
      | .error failure =>
        match policy.afterFailure attempt failure with
        | .error last => ⟨.finished (.error last), retried⟩
        | .ok seconds =>
          ⟨.attempting (attempt + 1), ⟨attempt, failure, seconds⟩ :: retried⟩ := by
  cases houtcome : outcome attempt with
  | ok value => simp [advance, houtcome]
  | error failure =>
    cases hafter : policy.afterFailure attempt failure <;> simp [advance, houtcome, hafter]

/-- A run that is suspended before an attempt goes on as the run from there, after the failures that
were retried before. -/
theorem finished_advanceMany (patience attempt : Nat) (retried : List (RetriedFailure ε)) :
    (advanceMany policy outcome (2 * patience) ⟨.attempting attempt, retried⟩).finished? =
      (policy.runFrom outcome patience attempt).map fun run =>
        { run with retried := retried.reverse ++ run.retried } := by
  induction patience generalizing attempt retried with
  | zero => rfl
  | succ patience ih =>
    rw [Nat.mul_succ, advanceMany, advanceMany, advance_advance, RetryPolicy.runFrom]
    cases outcome attempt with
    | ok value =>
      rw [advanceMany_of_finished rfl]
      simp [finished?]
    | error failure =>
      dsimp only
      cases policy.afterFailure attempt failure with
      | error last =>
        rw [advanceMany_of_finished rfl]
        simp [finished?]
      | ok seconds =>
        rw [ih]
        simp [Function.comp_def]

end SuspendedRun

/-- A run that is suspended at each attempt and each wait is the run that is not. -/
theorem RetryPolicy.runSuspended_eq_run {ε β : Type} (policy : RetryPolicy ε)
    (outcome : Nat → Except ε β) (patience : Nat) :
    policy.runSuspended outcome patience = policy.run outcome patience := by
  rw [runSuspended, SuspendedRun.start, SuspendedRun.finished_advanceMany]
  simp [run]

end LayerBlend
