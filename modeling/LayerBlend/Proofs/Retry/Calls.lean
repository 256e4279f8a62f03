import LayerBlend.Retry.Calls
import LayerBlend.Proofs.Retry.Runs

/-!
# What a run leaves behind

The journal of a run under a policy holds a call for each attempt, always with the same input, and
between two calls one warning and one wait.

* `RetryPolicy.call_eq_run`: the result of a call and what it adds to the journal are told by the
  run of the outcomes that it meets, and `RetryPolicy.call_of_run` says so of a run that is known.
* `RetryPolicy.callSuspended_eq_call`: a run that is suspended does the same.
* `RetryPolicy.call_eq_of_outcomes`: what was in the journal before does not matter.
* `RetryPolicy.call_stops`: where a call stops, and what is in the journal then.
-/

namespace LayerBlend

variable {ι ε β : Type}

/-! ## Steps on a journal -/

/-- A call has the outcome with the number of calls before it, and is noted. -/
@[simp] theorem Action.run_callOn (action : Action ι ε β) (input : ι) (journal : Journal ι) :
    (action.callOn input).run journal =
      pure (action journal.calls input, journal ++ [.call input]) := rfl

/-- A note is added to the journal. -/
@[simp] theorem Journal.run_note (event : RunEvent ι) (journal : Journal ι) :
    (Journal.note event).run journal = pure ((), journal ++ [event]) := rfl

/-- What a failure that is retried leaves in a journal. -/
def RetriedFailure.events (describe : ε → String) (input : ι) (failed : RetriedFailure ε) :
    Journal ι :=
  [.call input, .warn (failed.warning describe), .wait failed.seconds]

/-- Failures that are retried are as many calls. -/
theorem Journal.calls_append_events (describe : ε → String) (input : ι)
    (failed : RetriedFailure ε) (journal : Journal ι) :
    Journal.calls (journal ++ failed.events describe input) = journal.calls + 1 := by
  rw [Journal.calls, List.countP_append]
  rfl

/-- Failures that are retried and a call behind them are as many calls and one more. -/
theorem Journal.calls_append_failed (describe : ε → String) (input : ι)
    (failed : List (RetriedFailure ε)) (journal : Journal ι) :
    Journal.calls (journal ++ failed.flatMap (RetriedFailure.events describe input) ++
      [.call input]) = journal.calls + (failed.length + 1) := by
  induction failed generalizing journal with
  | nil => simp [Journal.calls, RunEvent.isCall]
  | cons first failed ih =>
    rw [List.flatMap_cons, ← List.append_assoc, ih, calls_append_events, List.length_cons]
    omega

namespace RetryPolicy

variable (policy : RetryPolicy ε) (describe : ε → String) (action : Action ι ε β) (input : ι)

/-- One attempt of a call. -/
theorem run_callFrom_succ (patience attempt : Nat) (journal : Journal ι) :
    (policy.callFrom describe action input (patience + 1) attempt).run journal =
      match action journal.calls input with
      | .ok value => pure (some (.ok value), journal ++ [.call input])
      | .error failure =>
        match policy.afterFailure attempt failure with
        | .error last => pure (some (.error last), journal ++ [.call input])
        | .ok seconds =>
          (policy.callFrom describe action input patience (attempt + 1)).run
            (journal ++ RetriedFailure.events describe input ⟨attempt, failure, seconds⟩) := by
  rw [callFrom]
  cases houtcome : action journal.calls input with
  | ok value => simp [houtcome]
  | error failure =>
    cases hafter : policy.afterFailure attempt failure <;>
      simp [houtcome, hafter, RetriedFailure.events]

/-- A call from an attempt on does what the run of its outcomes from there on says. -/
theorem callFrom_eq_runFrom (first : Nat) (patience attempt : Nat) (journal : Journal ι)
    (h : journal.calls = first + attempt) :
    (policy.callFrom describe action input patience attempt).run journal =
      let outcome i := action (first + i) input
      pure ((policy.runFrom outcome patience attempt).map RetryRun.result,
        journal ++ (policy.retriedFrom outcome patience attempt).flatMap
            (RetriedFailure.events describe input) ++
          (policy.runFrom outcome patience attempt).toList.map fun _ => .call input) := by
  induction patience generalizing attempt journal with
  | zero => simp [callFrom, runFrom, retriedFrom]
  | succ patience ih =>
    rw [run_callFrom_succ, h]
    simp only [runFrom, retriedFrom]
    cases action (first + attempt) input with
    | ok value => simp
    | error failure =>
      dsimp only
      cases policy.afterFailure attempt failure with
      | error last => simp
      | ok seconds =>
        have hcalls :=
          Journal.calls_append_events describe input ⟨attempt, failure, seconds⟩ journal
        dsimp only
        rw [ih (attempt + 1) _ (by omega)]
        dsimp only
        cases policy.runFrom (fun i => action (first + i) input) patience (attempt + 1) <;> simp

/-- The result of a call and what it adds to a journal are told by the run of its outcomes. -/
theorem call_eq_run (patience : Nat) (journal : Journal ι) :
    (policy.call describe action input patience).run journal =
      let outcome i := action (journal.calls + i) input
      pure ((policy.run outcome patience).map RetryRun.result,
        journal ++ (policy.retried outcome patience).flatMap
            (RetriedFailure.events describe input) ++
          (policy.run outcome patience).toList.map fun _ => .call input) :=
  callFrom_eq_runFrom policy describe action input journal.calls patience 0 journal rfl

/-- A call whose run has a result has the same one, and calls once more than it retries. -/
theorem call_of_run {patience : Nat} {journal : Journal ι} {result : Except ε β}
    {failed : List (RetriedFailure ε)}
    (hrun : policy.run (fun i => action (journal.calls + i) input) patience =
      some ⟨result, failed⟩)
    (hretried : policy.retried (fun i => action (journal.calls + i) input) patience = failed) :
    (policy.call describe action input patience).run journal =
      (some result,
        journal ++ failed.flatMap (RetriedFailure.events describe input) ++ [.call input]) := by
  have hcall := call_eq_run policy describe action input patience journal
  dsimp only at hcall
  rw [hcall, hrun, hretried]
  rfl

end RetryPolicy

/-! ## Suspension -/

namespace SuspendedRun

variable (policy : RetryPolicy ε) (describe : ε → String) (action : Action ι ε β) (input : ι)

/-- Nothing happens to a run that asks for nothing more. -/
theorem resumeMany_of_finished {run : SuspendedRun ε β} {result : Except ε β}
    (h : run.phase = .finished result) :
    ∀ steps, run.resumeMany policy describe action input steps = pure run
  | 0 => rfl
  | steps + 1 => by
    rw [resumeMany, resume, h]
    exact resumeMany_of_finished h steps

/-- What an attempt and the wait behind it do to a suspended run. -/
theorem run_resumeMany_add_two (steps attempt : Nat) (retried : List (RetriedFailure ε))
    (journal : Journal ι) :
    (resumeMany policy describe action input (steps + 2) ⟨.attempting attempt, retried⟩).run
        journal =
      match action journal.calls input with
      | .ok value => pure (⟨.finished (.ok value), retried⟩, journal ++ [.call input])
      | .error failure =>
        match policy.afterFailure attempt failure with
        | .error last => pure (⟨.finished (.error last), retried⟩, journal ++ [.call input])
        | .ok seconds =>
          (resumeMany policy describe action input steps
            ⟨.attempting (attempt + 1), ⟨attempt, failure, seconds⟩ :: retried⟩).run
            (journal ++ RetriedFailure.events describe input ⟨attempt, failure, seconds⟩) := by
  rw [resumeMany]
  cases houtcome : action journal.calls input with
  | ok value => simp [resume, houtcome, resumeMany_of_finished]
  | error failure =>
    cases hafter : policy.afterFailure attempt failure with
    | error last => simp [resume, houtcome, hafter, resumeMany_of_finished]
    | ok seconds => simp [resumeMany, resume, houtcome, hafter, RetriedFailure.events]

/-- A run that is suspended before an attempt does the same as a call from there on. -/
theorem resumeMany_eq_callFrom (patience attempt : Nat) (retried : List (RetriedFailure ε))
    (journal : Journal ι) :
    (do
      let run ← resumeMany policy describe action input (2 * patience)
        ⟨.attempting attempt, retried⟩
      return run.finished?.map RetryRun.result).run journal =
      (policy.callFrom describe action input patience attempt).run journal := by
  induction patience generalizing attempt retried journal with
  | zero => rfl
  | succ patience ih =>
    rw [RetryPolicy.run_callFrom_succ, Nat.mul_succ, StateT.run_bind, run_resumeMany_add_two]
    cases action journal.calls input with
    | ok value => simp [finished?]
    | error failure =>
      dsimp only
      cases policy.afterFailure attempt failure with
      | error last => simp [finished?]
      | ok seconds => exact ih (attempt + 1) _ _

end SuspendedRun

namespace RetryPolicy

variable (policy : RetryPolicy ε) (describe : ε → String) (action : Action ι ε β) (input : ι)

/-- A call by a run that is suspended is the call by a run that is not. -/
theorem callSuspended_eq_call (patience : Nat) :
    policy.callSuspended describe action input patience =
      policy.call describe action input patience := by
  refine StateT.ext fun journal => ?_
  exact SuspendedRun.resumeMany_eq_callFrom policy describe action input patience 0 [] journal

/-- A call that meets the same outcomes has the same result and adds the same to its journal. -/
theorem call_eq_of_outcomes {other : Action ι ε β} {journal before : Journal ι}
    (h : ∀ i, other (before.calls + i) input = action (journal.calls + i) input)
    (patience : Nat) :
    ∃ result added,
      (policy.call describe action input patience).run journal = (result, journal ++ added) ∧
      (policy.call describe other input patience).run before = (result, before ++ added) := by
  have hmine := call_eq_run policy describe action input patience journal
  have hother := call_eq_run policy describe other input patience before
  simp only [h, List.append_assoc] at hmine hother
  exact ⟨_, _, hmine, hother⟩

/-- When the policy computes a wait for each attempt, a run stops with the first outcome that is a
success, a failure not worth another attempt, or the last one allowed, and that outcome is its
result. Each attempt is a call on the input; each one before the last has failed and is followed by
one warning and one wait, which name it by its number. While there is no such outcome, attempts go
on. A run that is suspended does the same, and what happened before a run has no effect on it. -/
theorem call_stops {wait : Nat → Float} (hwait : ∀ n, policy.backoff n = .ok (wait n))
    (journal : Journal ι) (patience : Nat) :
    let outcome i := action (journal.calls + i) input
    (∀ k < patience, policy.StopsAt outcome k → ∃ failed,
      List.Forall₂ (FailedAt outcome wait) (List.range k) failed ∧
      (policy.call describe action input patience).run journal =
        (some (outcome k),
          journal ++ failed.flatMap (RetriedFailure.events describe input) ++ [.call input]) ∧
      policy.run outcome patience = some ⟨outcome k, failed⟩) ∧
    ((∀ k < patience, ¬ policy.Ends (outcome k) k) → ∃ failed,
      List.Forall₂ (FailedAt outcome wait) (List.range patience) failed ∧
      (policy.call describe action input patience).run journal =
        (none, journal ++ failed.flatMap (RetriedFailure.events describe input)) ∧
      policy.run outcome patience = none) ∧
    ((∃ k < patience, policy.StopsAt outcome k) ∨
      ∀ k < patience, ¬ policy.Ends (outcome k) k) ∧
    policy.callSuspended describe action input patience =
      policy.call describe action input patience ∧
    policy.runSuspended outcome patience = policy.run outcome patience ∧
    ∀ (other : Action ι ε β) (before : Journal ι),
      (∀ i, other (before.calls + i) input = outcome i) → ∃ result added,
        (policy.call describe action input patience).run journal = (result, journal ++ added) ∧
        (policy.call describe other input patience).run before = (result, before ++ added) := by
  intro outcome
  have hcall := call_eq_run policy describe action input patience journal
  refine ⟨fun k hk hstops => ?_, fun hgoes => ?_, stopsAt_or_goesOn policy outcome patience,
    callSuspended_eq_call policy describe action input patience,
    runSuspended_eq_run policy outcome patience,
    fun other before h => call_eq_of_outcomes policy describe action input h patience⟩
  · obtain ⟨failed, hfailed, hrun, hretried⟩ := run_of_stopsAt hwait hstops hk
    refine ⟨failed, hfailed, ?_, hrun⟩
    dsimp only at hcall
    rw [hcall, hrun, hretried]
    rfl
  · obtain ⟨failed, hfailed, hrun, hretried⟩ := run_of_goesOn hwait hgoes
    refine ⟨failed, hfailed, ?_, hrun⟩
    dsimp only at hcall
    rw [hcall, hrun, hretried]
    exact congrArg (Prod.mk none) (List.append_nil _)

/-- Three attempts at most, of which the third one fails too: its failure is the result. -/
theorem call_stops_last_failure :
    let policy : RetryPolicy Nat :=
      .ofBackoff (some 3) (fun _ h => Option.some.inj h ▸ Nat.succ_pos 2) (.fixed 0.6) 0
        fun failure => failure != 0
    let action : Action String Nat Bool := fun n _ => .error n
    let journal : Journal String := [.call "Result", .wait 1]
    (∀ n, policy.backoff n = .ok 0.6) ∧
    policy.StopsAt (fun i => action (journal.calls + i) "Result") 2 ∧
    ∃ failed, List.Forall₂ (FailedAt (fun i => action (journal.calls + i) "Result") fun _ => 0.6)
        (List.range 2) failed ∧
      (policy.call toString action "Result" 5).run journal =
        (some (.error 3),
          journal ++ failed.flatMap (RetriedFailure.events toString "Result") ++
            [.call "Result"]) := by
  intro policy action journal
  have hwait : ∀ n, policy.backoff n = .ok 0.6 := fun _ => rfl
  have hstops : policy.StopsAt (fun i => action (journal.calls + i) "Result") 2 := by
    refine ⟨.exhausted _ rfl (by decide), fun i hi hends => ?_⟩
    have hcalls : journal.calls = 1 := rfl
    cases hends with
    | rejected _ hrejected => simp [policy, RetryPolicy.ofBackoff, hcalls] at hrejected
    | exhausted _ hlimit hlast =>
      cases hlimit
      omega
  obtain ⟨failed, hfailed, hcall, -⟩ :=
    (call_stops policy toString action "Result" hwait journal 5).1 2 (by decide) hstops
  exact ⟨hwait, hstops, failed, hfailed, hcall⟩

end RetryPolicy

end LayerBlend
