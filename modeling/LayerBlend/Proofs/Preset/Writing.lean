import LayerBlend.Preset.Store
import LayerBlend.Proofs.Preset.Document
import LayerBlend.Proofs.Retry.Runs
import LayerBlend.Proofs.Workspace.Files
import LayerBlend.Proofs.Workspace.Work

/-!
# What a write leaves in the file

A file is opened before the text is encoded, and to open it is to empty it. So a write that fails
may leave the file as it was, or empty.

* `PresetStore.Attempted` — the three ends of one attempt to write, and what empties the file
  (`PresetStore.Empties`).
* `PresetStore.HasDocument`, `PresetStore.Emptied` — the file is the document of presets; a write
  has left it empty.
* `PresetStore.write_cases` — a write leaves the document in the file, or it fails and leaves the
  file as it was or empty.
* `PresetStore.write_apply`, `PresetStore.exists_write_halved` — without pending faults, a document
  of whole characters is written at once, and one with half of a character empties the file.
-/

namespace LayerBlend

namespace PresetStore

variable {store : PresetStore} {w : Workspace} {path : String} {text : JsonText}
  {met : Option WriteFault} {files : Files} {items : List PresetItem}

/-! ## One attempt -/

/-- What lets an attempt to write fail after the file was opened. -/
inductive Empties (text : JsonText) (met : Option WriteFault) : Prop where
  /-- The fault that it meets comes after the opening. -/
  | met {fault : WriteFault} (hmet : met = some fault) (hopens : fault.opens = true)
  /-- The text has half of a character. -/
  | halved (hmet : met = none) (hhalf : text.isWhole = false)

/-- What an attempt to write comes to. -/
inductive Attempted (path : String) (text : JsonText) (met : Option WriteFault) (files : Files) :
    Except Fault Unit × Files → Prop where
  /-- The text is in the file. -/
  | written {s : String} {after : Files} (hmet : met = none) (htext : text = .whole s)
      (hwrite : files.write path (.text s) = .ok after) :
      Attempted path text met files (.ok (), after)
  /-- The file was opened, and nothing is in it. -/
  | emptied {fault : Fault} {after : Files} (hcause : Empties text met)
      (hwrite : files.write path (.text "") = .ok after) :
      Attempted path text met files (.error fault, after)
  /-- The file was not opened. -/
  | spared {fault : Fault} : Attempted path text met files (.error fault, files)

theorem attempted_attemptWrite (path : String) (text : JsonText) (met : Option WriteFault)
    (files : Files) : Attempted path text met files (attemptWrite path text met files) := by
  unfold attemptWrite
  split
  · next fault opens =>
    split
    · next hopens =>
      unfold put
      split
      · next hwrite => exact .emptied (.met rfl hopens) hwrite
      · exact .spared
    · exact .spared
  · unfold put
    split
    · next hwrite => exact .written rfl rfl hwrite
    · exact .spared
  · unfold put
    split
    · next hwrite => exact .emptied (.halved rfl rfl) hwrite
    · exact .spared

/-- Every attempt leaves the files that the next one finds. -/
theorem attempted_filesBefore (w : Workspace) (path : String) (text : JsonText) (attempt : Nat) :
    Attempted path text w.pending[attempt]? (filesBefore w path text attempt)
      (writeOutcome w path text attempt, filesBefore w path text (attempt + 1)) :=
  attempted_attemptWrite _ _ _ _

/-- What holds of files before and after each write of a file holds after any number of attempts. -/
theorem filesBefore_induction {P : Files → Prop} (hstart : P w.files)
    (hwrite : ∀ files content after, P files → files.write path (.text content) = .ok after →
      P after) (attempts : Nat) : P (filesBefore w path text attempts) := by
  induction attempts with
  | zero => exact hstart
  | succ attempt ih =>
    have hattempt := attempted_filesBefore w path text attempt
    generalize writeOutcome w path text attempt = outcome at hattempt
    generalize filesBefore w path text (attempt + 1) = after at hattempt
    cases hattempt with
    | written _ _ hwritten => exact hwrite _ _ _ ih hwritten
    | emptied _ hemptied => exact hwrite _ _ _ ih hemptied
    | spared => exact ih

/-- Attempts leave the same paths directories. -/
theorem alike_filesBefore (w : Workspace) (path : String) (text : JsonText) (attempts : Nat) :
    w.files.Alike (filesBefore w path text attempts) := by
  refine filesBefore_induction (.refl _) (fun files content after h hwrite => ?_) attempts
  obtain ⟨_, target, hleads, rfl⟩ := Files.write_eq_ok hwrite
  exact h.trans (hleads.alike_set _)

/-! ## Many attempts -/

/-- The file is the document of presets. -/
def HasDocument (store : PresetStore) (w : Workspace) (items : List PresetItem) : Prop :=
  ∃ text, PresetDocument.write items = .whole text ∧
    w.files.read store.path = .ok (.text text)

namespace HasDocument

variable (h : store.HasDocument w items)

include h

/-- Presets whose document is in a file have no half of a character. -/
theorem isWhole : items.all PresetItem.isWhole = true := by
  obtain ⟨text, htext, _⟩ := h
  exact PresetDocument.write_eq_whole_iff.mp ⟨text, htext⟩

/-- And so they are read back as they are written. -/
theorem exact (hreadable : ∀ item ∈ items, item.Readable) : ∀ item ∈ items, item.Exact :=
  fun item hitem => (hreadable item hitem).exact (List.all_eq_true.mp h.isWhole item hitem)

/-- The document of presets is read from the file. -/
theorem readText (hreadable : ∀ item ∈ items, item.Readable) :
    w.files.readText store.path = .ok (PresetDocument.write items).shown := by
  have hexact := h.exact hreadable
  obtain ⟨text, htext, hfile⟩ := h
  have hshown : (FileContent.text text).text? = some text := by
    simpa [htext, JsonText.shown] using PresetDocument.text?_write hexact
  rw [htext, Files.readText, hfile, ok_bind, hshown]
  rfl

end HasDocument

/-- A write of presets that met the faults of a workspace has left the file empty. -/
structure Emptied (store : PresetStore) (w : Workspace) (items : List PresetItem) (files : Files) :
    Prop where
  /-- The file is empty. -/
  file : files.read store.path = .ok (.text "")
  /-- A fault came after the opening, or some text has half of a character. -/
  cause : (∃ fault ∈ w.pending, fault.opens = true) ∨ items.all PresetItem.isWhole = false

/-- Attempts that all fail leave the file as it was, or empty. -/
theorem filesBefore_of_failed {attempts : Nat} (h : ∀ i < attempts, ∃ fault,
      writeOutcome w store.path (PresetDocument.write items) i = .error fault) :
    filesBefore w store.path (PresetDocument.write items) attempts = w.files ∨
      store.Emptied w items (filesBefore w store.path (PresetDocument.write items) attempts) := by
  induction attempts with
  | zero => exact Or.inl rfl
  | succ attempt ih =>
    obtain ⟨fault, hfault⟩ := h attempt (Nat.lt_succ_self _)
    have hattempt := attempted_filesBefore w store.path (PresetDocument.write items) attempt
    rw [hfault] at hattempt
    generalize filesBefore w store.path _ (attempt + 1) = after at hattempt ⊢
    cases hattempt with
    | emptied hcause hwrite =>
      refine Or.inr ⟨Files.read_write hwrite, ?_⟩
      cases hcause with
      | met hmet hopens => exact Or.inl ⟨_, List.mem_of_getElem? hmet, hopens⟩
      | halved _ hhalf => exact Or.inr ((PresetDocument.isWhole_write items).symm.trans hhalf)
    | spared => exact ih fun i hi => h i (Nat.lt_succ_of_lt hi)

/-- The attempts of a write of presets, unless they are too many. -/
def writeRun (store : PresetStore) (w : Workspace) (items : List PresetItem) :
    Option (RetryRun Fault Unit) :=
  store.policy.run (writeOutcome w store.path (PresetDocument.write items))
    (patience store.policy w.pending.length)

/-- A write whose attempts are too many is given up. -/
theorem write_of_none (h : store.writeRun w items = none) :
    store.write items w = .error .outOfPatience (afterAttempts w store.path
      (PresetDocument.write items) (patience store.policy w.pending.length)) := by
  unfold writeRun at h
  rw [write, Work.get_bind]
  simp only [h]
  rfl

/-- A write ends as its last attempt. -/
theorem write_of_some {run : RetryRun Fault Unit} (h : store.writeRun w items = some run) :
    store.write items w =
      match run.result with
      | .ok () => .ok () (afterRun w store.path (PresetDocument.write items) run)
      | .error fault => .error fault (afterRun w store.path (PresetDocument.write items) run) := by
  unfold writeRun at h
  rw [write, Work.get_bind]
  simp only [h]
  cases run.result <;> rfl

/-- A write leaves the workspace after some attempts, with a longer log and more waits. -/
theorem left_write (store : PresetStore) (items : List PresetItem) (w : Workspace) :
    ∃ attempts told waits, (store.write items).left w =
      { afterAttempts w store.path (PresetDocument.write items) attempts with
        log := w.log ++ told
        waits := w.waits ++ waits } := by
  cases hrun : store.writeRun w items with
  | none =>
    refine ⟨patience store.policy w.pending.length, [], [],
      (Work.left_of_error (write_of_none hrun)).trans ?_⟩
    rw [List.append_nil, List.append_nil]
    rfl
  | some run =>
    refine ⟨run.calls, run.warnings Fault.message, run.waits, ?_⟩
    rw [Work.left, write_of_some hrun]
    cases run.result <;> rfl

/-- A write leaves the document of the presets in the file, or it fails and leaves the file as it
was, or empty. -/
theorem write_cases (store : PresetStore) (items : List PresetItem) (w : Workspace) :
    (∃ v, store.write items w = .ok () v ∧ store.HasDocument v items) ∨
      ∃ fault v, store.write items w = .error fault v ∧
        (v.files = w.files ∨ store.Emptied w items v.files) := by
  cases hrun : store.writeRun w items with
  | none =>
    have hfailed := RetryPolicy.failed_of_runFrom_eq_none hrun
    simp only [Nat.zero_add] at hfailed
    exact Or.inr ⟨_, _, write_of_none hrun, filesBefore_of_failed hfailed⟩
  | some run =>
    obtain ⟨hfailed, hlast⟩ := RetryPolicy.attempts_of_runFrom hrun
    simp only [Nat.zero_add] at hfailed hlast
    rw [write_of_some hrun]
    rcases hlast with ⟨value, hresult, hsuccess⟩ | ⟨fault, failure, hresult, hfailure⟩
    · have hattempt := attempted_filesBefore w store.path (PresetDocument.write items)
        run.retried.length
      rw [hsuccess] at hattempt
      rw [hresult]
      refine Or.inl ⟨_, rfl, ?_⟩
      show ∃ text, _ ∧ (filesBefore _ _ _ (run.retried.length + 1)).read _ = _
      generalize filesBefore w store.path _ (run.retried.length + 1) = after at hattempt ⊢
      cases hattempt with
      | written _ htext hwrite => exact ⟨_, htext, Files.read_write hwrite⟩
    · have hall : ∀ i < run.retried.length + 1, ∃ fault,
          writeOutcome w store.path (PresetDocument.write items) i = .error fault := by
        intro i hi
        rcases Nat.lt_succ_iff_lt_or_eq.mp hi with hlt | rfl
        · exact hfailed i hlt
        · exact ⟨failure, hfailure⟩
      rw [hresult]
      exact Or.inr ⟨fault, _, rfl, filesBefore_of_failed hall⟩

/-! ## Writes without pending faults -/

/-- A write of presets fails and leaves the file empty. -/
structure WriteEmpties (store : PresetStore) (w : Workspace) (items : List PresetItem)
    (fault : Fault) (v : Workspace) : Prop where
  /-- The write fails. -/
  answer : store.write items w = .error fault v
  /-- The fault is that of the encoding, if the store does not try again after it. -/
  fault : store.policy.retryOn .unencodable = false → fault = .unencodable
  /-- Nothing is in the file. -/
  file : v.files.read store.path = .ok (.text "")

/-- A run whose first attempt succeeds is over with it. -/
theorem run_of_first {β : Type} {outcome : Nat → Except Fault β} {value : β}
    (h : outcome 0 = .ok value) (policy : RetryPolicy Fault) (patience : Nat) :
    policy.run outcome (patience + 1) = some ⟨.ok value, []⟩ := by
  rw [RetryPolicy.run, RetryPolicy.runFrom, h]

variable (hpending : w.pending = [])

include hpending

/-- Without pending faults a document of whole characters is written at the first attempt, and
nothing but the file is changed. -/
theorem write_apply {text : String} {files : Files}
    (htext : PresetDocument.write items = .whole text)
    (hfiles : w.files.write store.path (.text text) = .ok files) :
    store.write items w = .ok () { w with files } := by
  have hattempt : attemptWrite store.path (PresetDocument.write items) w.pending[0]? w.files =
      (.ok (), files) := by
    rw [hpending, htext, List.getElem?_nil, attemptWrite, put, hfiles]
  have houtcome : writeOutcome w store.path (PresetDocument.write items) 0 = .ok () :=
    congrArg Prod.fst hattempt
  have hrun : store.writeRun w items = some ⟨.ok (), []⟩ := run_of_first houtcome store.policy _
  have hfirst : filesBefore w store.path (PresetDocument.write items) 1 = files :=
    congrArg Prod.snd hattempt
  have hafter : afterRun w store.path (PresetDocument.write items) ⟨.ok (), []⟩ =
      { w with files } := by
    simp [afterRun, afterAttempts, hpending, hfirst, RetryRun.calls, RetryRun.warnings,
      RetryRun.waits]
  rw [write_of_some hrun, ← hafter]

/-- Without pending faults an attempt to write half of a character empties the file. -/
theorem attemptWrite_halved (hwritable : w.files.Writable store.path)
    (hhalf : items.all PresetItem.isWhole = false) (attempt : Nat) :
    writeOutcome w store.path (PresetDocument.write items) attempt = .error .unencodable ∧
      (filesBefore w store.path (PresetDocument.write items) (attempt + 1)).read store.path =
        .ok (.text "") := by
  obtain ⟨after, hafter⟩ := (alike_filesBefore w store.path (PresetDocument.write items)
    attempt).writable hwritable (.text "")
  have hattempt : attemptWrite store.path (PresetDocument.write items) w.pending[attempt]?
      (filesBefore w store.path (PresetDocument.write items) attempt) =
        (.error .unencodable, after) := by
    rw [← PresetDocument.isWhole_write] at hhalf
    rw [hpending, List.getElem?_nil]
    cases hwrite : PresetDocument.write items with
    | whole s =>
      rw [hwrite] at hhalf
      cases hhalf
    | halved t =>
      rw [hwrite] at hafter
      rw [attemptWrite, put, hafter]
  refine ⟨congrArg Prod.fst hattempt, ?_⟩
  rw [filesBefore, hattempt]
  exact Files.read_write hafter

/-- Without pending faults a write of half of a character fails and leaves the file empty. -/
theorem exists_write_halved (hwritable : w.files.Writable store.path)
    (hhalf : items.all PresetItem.isWhole = false) :
    ∃ fault v, store.WriteEmpties w items fault v := by
  have hattempt := attemptWrite_halved hpending hwritable hhalf
  have hfirst : store.policy.retryOn .unencodable = false →
      store.writeRun w items = some ⟨.error .unencodable, []⟩ := by
    intro hrejected
    have hends : store.policy.Ends
        (writeOutcome w store.path (PresetDocument.write items) 0) 0 := by
      rw [(hattempt 0).1]
      exact .rejected 0 hrejected
    rw [← (hattempt 0).1]
    exact (RetryPolicy.from_of_ends hends _).1
  cases hrun : store.writeRun w items with
  | none =>
    refine ⟨_, _, write_of_none hrun, fun hrejected => ?_, (hattempt _).2⟩
    cases hrun.symm.trans (hfirst hrejected)
  | some run =>
    obtain ⟨fault, hresult⟩ : ∃ fault, run.result = .error fault := by
      rcases (RetryPolicy.attempts_of_runFrom hrun).2 with
        ⟨value, _, hsuccess⟩ | ⟨fault, _, hresult, _⟩
      · rw [(hattempt _).1] at hsuccess
        cases hsuccess
      · exact ⟨fault, hresult⟩
    have hwrite := write_of_some hrun
    rw [hresult] at hwrite
    refine ⟨fault, _, hwrite, fun hrejected => ?_, (hattempt run.retried.length).2⟩
    cases hrun.symm.trans (hfirst hrejected)
    exact (Except.error.inj hresult).symm

/-- Without pending faults a write of presets leaves their document in a file that can be written,
unless one of them has half of a character: then it fails and leaves the file empty. -/
theorem write_ends (hwritable : w.files.Writable store.path) (items : List PresetItem) :
    (∃ v, store.write items w = .ok () v ∧ store.HasDocument v items) ∨
      items.all PresetItem.isWhole = false ∧ ∃ fault v, store.WriteEmpties w items fault v := by
  cases hwhole : items.all PresetItem.isWhole with
  | true =>
    obtain ⟨text, htext⟩ := PresetDocument.write_eq_whole_iff.mpr hwhole
    obtain ⟨files, hfiles⟩ := hwritable (.text text)
    exact Or.inl ⟨_, write_apply hpending htext hfiles, text, htext, Files.read_write hfiles⟩
  | false => exact Or.inr ⟨rfl, exists_write_halved hpending hwritable hwhole⟩

end PresetStore

end LayerBlend
