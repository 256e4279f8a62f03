import LayerBlend.Preset.Store
import LayerBlend.Proofs.Arithmetic.Values
import LayerBlend.Proofs.Retry.Calls

/-!
# Writing until it succeeds

Under the policy that stores have unless another one is chosen, a failed write is tried again as
often as it takes, after one, two, four and then always eight seconds. The power of two is computed
before it is capped, and the first one beyond all doubles ends the run.

* `PresetStore.defaultBackoff_wait`: the wait after each attempt, or that there is none.
* `PresetStore.steadyWait_le_succ`, `PresetStore.steadyWait_le_cap`: the waits never decrease, and
  never exceed the cap.
* `PresetStore.call_default`: what a call does that fails any number of times before it succeeds.
-/

namespace LayerBlend.PresetStore

open Double

/-! ## Waits -/

/-- The wait after an attempt, as it is meant. -/
def steadyWait (attempt : Nat) : Float :=
  Float.ofNat (min (2 ^ attempt) 8)

/-- A power of two within the range of doubles. -/
theorem stands_power {attempt : Nat} (h : attempt < Backoff.attemptLimit) :
    Stands (1 * Double.ofParts false 1 attempt) (2 ^ attempt) := by
  have hlimit : attempt < 1024 := h
  have hpower : (2 : ℚ) ^ attempt = (1 : ℕ) * 2 ^ (attempt : ℤ) := by simp
  have hstands := stands_ofParts (m := 1) (e := attempt) (by norm_num) (by omega) (by
    rw [← hpower, ← zpow_natCast]
    exact zpow_lt_zpow_right₀ one_lt_two (by omega))
  rw [← hpower] at hstands
  have hrange : 1 * (2 : ℚ) ^ attempt ≤ 2 ^ (1023 : ℤ) := by
    rw [one_mul, ← zpow_natCast]
    exact zpow_le_zpow_right₀ one_le_two (by omega)
  obtain ⟨v, hv, hproduct⟩ := stands_one.mul hstands hrange
  rw [one_mul] at hv
  rwa [hv.eq_of_representable hstands.representable] at hproduct

/-- The wait after an attempt is as it is meant, as long as the power of two is a double. -/
theorem defaultBackoff_wait (attempt : Nat) :
    defaultBackoff.wait? attempt =
      if attempt < Backoff.attemptLimit then some (steadyWait attempt) else none := by
  unfold defaultBackoff Backoff.wait?
  dsimp only
  by_cases h : attempt < Backoff.attemptLimit
  · have hnot : ¬ (Backoff.attemptLimit : Int) ≤ attempt := by omega
    rw [if_neg hnot, if_pos h]
    congr 1
    rcases Nat.lt_or_ge attempt 4 with hsmall | hlarge
    · obtain rfl | rfl | rfl | rfl : attempt = 0 ∨ attempt = 1 ∨ attempt = 2 ∨ attempt = 3 := by
        omega
      all_goals decide +kernel
    · have hpower : 2 ^ 4 ≤ 2 ^ attempt := Nat.pow_le_pow_right two_pos hlarge
      have hlt : (8 : Float) < 1 * Double.ofParts false 1 attempt := by
        refine ((stands_ofNat (n := 8) (by norm_num)).lt_iff (stands_power h)).mpr ?_
        exact_mod_cast (by omega : 8 < 2 ^ attempt)
      rw [if_pos hlt, steadyWait, Nat.min_eq_right (by omega)]
      rfl
  · have hle : (Backoff.attemptLimit : Int) ≤ attempt := by omega
    rw [if_pos hle, if_neg h]

/-- The waits never decrease. -/
theorem steadyWait_le_succ (attempt : Nat) : steadyWait attempt ≤ steadyWait (attempt + 1) := by
  refine ((stands_ofNat (by omega)).le_iff (stands_ofNat (by omega))).mpr ?_
  have hpower : 2 ^ (attempt + 1) = 2 ^ attempt * 2 := pow_succ 2 attempt
  exact_mod_cast (by omega : min (2 ^ attempt) 8 ≤ min (2 ^ (attempt + 1)) 8)

/-- The waits never exceed the cap. -/
theorem steadyWait_le_cap (attempt : Nat) : steadyWait attempt ≤ 8 := by
  refine ((stands_ofNat (by omega)).le_iff (stands_ofNat (n := 8) (by norm_num))).mpr ?_
  exact_mod_cast Nat.min_le_right (2 ^ attempt) 8

/-! ## Calls -/

section

variable {ι β : Type} (describe : Fault → String) (action : Action ι Fault β) (input : ι)
  (journal : Journal ι)

/-- A call under the policy that stores have fails a number of times with failures to write, and
then succeeds. -/
structure FailsThenSucceeds (failures : Nat) (value : β) : Prop where
  /-- Each of the first outcomes is a failure to write. -/
  fails : ∀ i < failures, ∃ fault : Fault, fault.isWriteFailure = true ∧
    action (journal.calls + i) input = .error fault
  /-- The next one is a success. -/
  succeeds : action (journal.calls + failures) input = .ok value

variable {action input journal} {failures : Nat} {value : β}

theorem backoff_defaultPolicy (attempt : Nat) :
    defaultPolicy.backoff attempt =
      if attempt < Backoff.attemptLimit then .ok (steadyWait attempt)
      else .error .endlessWait := by
  unfold defaultPolicy RetryPolicy.ofBackoff
  dsimp only
  rw [defaultBackoff_wait]
  by_cases h : attempt < Backoff.attemptLimit
  · rw [if_pos h, if_pos h]
  · rw [if_neg h, if_neg h]

/-- A failure to write does not end a run. -/
theorem FailsThenSucceeds.goesOn (h : FailsThenSucceeds action input journal failures value)
    {i : Nat} (hi : i < failures) :
    ¬ defaultPolicy.Ends (action (journal.calls + i) input) i := by
  obtain ⟨fault, hfault, haction⟩ := h.fails i hi
  rw [haction]
  intro hends
  cases hends with
  | rejected _ hrejected => exact absurd (hrejected.symm.trans hfault) Bool.false_ne_true
  | exhausted _ hlimit _ => cases hlimit

/-- A call leaves a warning and a wait behind each of its first failures, and one call more. -/
structure Leaves (describe : Fault → String) (action : Action ι Fault β) (input : ι)
    (journal after : Journal ι) (retries : Nat) (failed : List (RetriedFailure Fault)) : Prop where
  /-- The failures are those of the attempts, with their waits. -/
  records : List.Forall₂
    (RetryPolicy.FailedAt (fun i => action (journal.calls + i) input) steadyWait)
    (List.range retries) failed
  /-- This is what happened. -/
  events : after = journal ++ failed.flatMap (RetriedFailure.events describe input) ++ [.call input]
  /-- The action was called once more than there were retries. -/
  calls : after.calls = journal.calls + (retries + 1)

/-- A run that retries some failures and has a result leaves them behind. -/
theorem leaves_of_run {retries patience : Nat} {result : Except Fault β}
    (h : ∃ failed, List.Forall₂
        (RetryPolicy.FailedAt (fun i => action (journal.calls + i) input) steadyWait)
        (List.range retries) failed ∧
      defaultPolicy.run (fun i => action (journal.calls + i) input) patience =
        some ⟨result, failed⟩ ∧
      defaultPolicy.retried (fun i => action (journal.calls + i) input) patience = failed) :
    ∃ failed after, Leaves describe action input journal after retries failed ∧
      (defaultPolicy.call describe action input patience).run journal = (some result, after) := by
  obtain ⟨failed, hfailed, hrun, hretried⟩ := h
  refine ⟨failed, _, ⟨hfailed, rfl, ?_⟩,
    RetryPolicy.call_of_run defaultPolicy describe action input hrun hretried⟩
  have hlength := hfailed.length_eq
  rw [List.length_range] at hlength
  rw [Journal.calls_append_failed, ← hlength]

/-- Under the policy that stores have unless another one is chosen, a call that fails to write a
number of times and then succeeds calls once more than it fails, waits one, two, four and then
always eight seconds, and has the value. It gives up only when there are more failures than powers
of two among the doubles: then after one call more than there are such powers. -/
theorem call_default (h : FailsThenSucceeds action input journal failures value) {patience : Nat}
    (hpatience : failures < patience) :
    (failures ≤ Backoff.attemptLimit → ∃ failed after,
      Leaves describe action input journal after failures failed ∧
      (defaultPolicy.call describe action input patience).run journal =
        (some (.ok value), after)) ∧
    (Backoff.attemptLimit < failures → ∃ failed after,
      Leaves describe action input journal after Backoff.attemptLimit failed ∧
      (defaultPolicy.call describe action input patience).run journal =
        (some (.error .endlessWait), after)) ∧
    ∀ attempt, steadyWait attempt ≤ steadyWait (attempt + 1) ∧ steadyWait attempt ≤ 8 := by
  refine ⟨fun hfew => leaves_of_run describe ?_, fun hmany => leaves_of_run describe ?_,
    fun attempt => ⟨steadyWait_le_succ attempt, steadyWait_le_cap attempt⟩⟩
  · have hends : defaultPolicy.Ends (action (journal.calls + failures) input) failures := by
      rw [h.succeeds]
      exact .success value failures
    have hgoes : ∀ i < failures, defaultPolicy.backoff i = .ok (steadyWait i) ∧
        ¬ defaultPolicy.Ends (action (journal.calls + i) input) i := fun i hi =>
      ⟨by rw [backoff_defaultPolicy, if_pos (by omega)], h.goesOn hi⟩
    have hrun := RetryPolicy.run_of_last hgoes (RetryPolicy.from_of_ends hends) hpatience
    rwa [h.succeeds] at hrun
  · have hwait : defaultPolicy.backoff Backoff.attemptLimit = .error .endlessWait := by
      rw [backoff_defaultPolicy, if_neg (Nat.lt_irrefl _)]
    have hgoes : ∀ i < Backoff.attemptLimit, defaultPolicy.backoff i = .ok (steadyWait i) ∧
        ¬ defaultPolicy.Ends (action (journal.calls + i) input) i := fun i hi =>
      ⟨by rw [backoff_defaultPolicy, if_pos hi], h.goesOn (by omega)⟩
    exact RetryPolicy.run_of_last hgoes (RetryPolicy.from_of_no_wait hwait (h.goesOn hmany))
      (hmany.trans hpatience)

end

/-- A file that cannot be opened one thousand and twenty-five times is given up. -/
theorem call_default_gives_up :
    let action : Action String Fault Nat := fun n _ =>
      if n < 1025 then .error (.outside .system "x") else .ok 1
    FailsThenSucceeds action "text" [] 1025 1 ∧
    ∃ failed after, Leaves Fault.message action "text" [] after 1024 failed ∧
      (defaultPolicy.call Fault.message action "text" 2000).run [] =
        (some (.error .endlessWait), after) := by
  intro action
  have hfails : FailsThenSucceeds action "text" [] 1025 1 :=
    ⟨fun i hi => ⟨_, rfl, if_pos (by simpa [Journal.calls] using hi)⟩, rfl⟩
  exact ⟨hfails, (call_default Fault.message hfails (by decide)).2.1 (by decide)⟩

end LayerBlend.PresetStore
