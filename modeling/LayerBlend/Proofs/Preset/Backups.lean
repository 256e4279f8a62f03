import LayerBlend.Proofs.Preset.Sparing
import LayerBlend.Proofs.Workspace.Siblings

/-!
# Backups are kept

* `PresetStore.create_backup` — a backup can be created unless its name is taken
  (`PresetStore.Taken`).
* `PresetStore.Recovers` — a content is in a backup, or its name was taken and a warning says so.
* `PresetStore.Mending` — work that replaces a content that it cannot read only after it is
  recovered. All operations are of this kind (`PresetStore.mending_perform`).
* `PresetStore.course` — a store in use, while someone else writes to its file too.
* `PresetStore.course_keeps_content` — what becomes of a content that is replaced on the way.
-/

namespace LayerBlend

namespace PresetStore

variable {store : PresetStore} {w v u : Workspace} {content : String} {α β : Type}

/-! ## Recovery -/

/-- The file of a store has a text that is not blank and no document of presets. -/
structure Unreadable (store : PresetStore) (w : Workspace) (text : String) : Prop where
  /-- The text is in the file. -/
  held : w.files.readText store.path = .ok text
  /-- It is not blank. -/
  filled : Text.blank text.toList = false
  /-- It is no document of presets. -/
  unsound : ¬ ∃ entries, PresetDocument.Sound text entries

/-- Where the backup of a time is: beside the file. -/
def beside (target : Path) (time : Int) : Path :=
  target.dropLast ++ [backupName time]

/-- The name of the backup of a time is in use, or it is too long. -/
def Taken (store : PresetStore) (files : Files) (target : Path) (time : Int) : Prop :=
  (∃ found, files.get? (beside target time) = some found) ∨
    files.hasDirectory (beside target time) = true ∨
    Path.maxPart < (backupName time).utf8ByteSize ∨
    Path.maxLength < (store.backupPath time).utf8ByteSize

theorem toList_backupName (time : Int) : (backupName time).toList =
    "formulas_backup_".toList ++ (toString time).toList ++ ".json".toList := by
  unfold backupName
  rw [String.toList_append, String.toList_append]

/-- The name of a backup has no characters but the letters of its pattern, digits and a minus. -/
theorem notMem_backupName {c : Char} (hpattern : c ∉ "formulas_backup_.json".toList)
    (hdigit : c.isDigit = false) (hminus : c ≠ '-') (time : Int) :
    c ∉ (backupName time).toList := by
  have hrepr : ∀ n : Nat, c ∉ n.repr.toList := by
    intro n hmem
    rw [Nat.toList_repr] at hmem
    exact Bool.false_ne_true
      (hdigit.symm.trans (Nat.isDigit_of_mem_toDigits (by decide) (by decide) hmem))
  have htime : c ∉ (toString time).toList := by
    cases time with
    | ofNat n => exact hrepr n
    | negSucc n =>
      show c ∉ ("-" ++ (n + 1).repr).toList
      rw [String.toList_append, List.mem_append]
      exact fun h => h.elim (fun h => hminus (List.mem_singleton.mp h)) (hrepr (n + 1))
  intro hmem
  rw [toList_backupName, List.mem_append, List.mem_append] at hmem
  rcases hmem with (hfront | hmem) | hback
  · exact hpattern (List.mem_append_left ".json".toList hfront)
  · exact htime hmem
  · exact hpattern (List.mem_append_right "formulas_backup_".toList hback)

/-- A text without the first letter of that pattern is not the name of a backup. -/
theorem backupName_ne {other : String} (h : 'f' ∉ other.toList) (time : Int) :
    backupName time ≠ other := by
  rintro rfl
  rw [toList_backupName, List.mem_append, List.mem_append] at h
  exact h (Or.inl (Or.inl (by decide)))

theorem isStay_backupName (time : Int) : Path.isStay (backupName time) = false := by
  rw [Path.isStay, beq_eq_false_iff_ne.mpr (backupName_ne (by decide) time),
    beq_eq_false_iff_ne.mpr (backupName_ne (by decide) time), Bool.or_false]

/-- The name of a backup enters what is there, unless it is too long. -/
theorem enter_backupName (files : Files) (path : Path) (time : Int) :
    files.enter path (backupName time) =
      if Path.maxPart < (backupName time).utf8ByteSize then .error .longName
      else .ok (files.placeAt (path ++ [backupName time])) := by
  rw [Files.enter, isStay_backupName, if_neg Bool.false_ne_true,
    if_neg (backupName_ne (by decide) time)]

/-- The name of a backup spells where it is. -/
theorem backupPath_eq {files : Files} {target : Path} (h : files.Leads store.path target)
    (time : Int) : store.backupPath time = Path.toText (beside target time) := by
  rw [backupPath, ← h.eq_ofText]
  rfl

/-- A backup can be created unless its name is taken. -/
theorem create_backup {files : Files} {target : Path} (h : files.Leads store.path target)
    (time : Int) (found : FileContent) :
    (files.create (store.backupPath time) found = .ok (files.set (beside target time) found) ∧
      files.get? (beside target time) = none) ∨
    (store.Taken files target time ∧
      ∃ cause, files.create (store.backupPath time) found = .error cause) := by
  have hcreate := h.create_sibling (backupName_ne (by decide) time)
    (notMem_backupName (by decide) (by decide) (by decide) time)
    (notMem_backupName (by decide) (by decide) (by decide) time) found
  rw [← beside, ← backupPath_eq h, enter_backupName, ← beside] at hcreate
  rw [hcreate]
  by_cases htext : Path.maxLength < (store.backupPath time).utf8ByteSize
  · rw [if_pos htext]
    exact Or.inr ⟨Or.inr (Or.inr (Or.inr htext)), _, rfl⟩
  by_cases hname : Path.maxPart < (backupName time).utf8ByteSize
  · rw [if_neg htext, if_pos hname]
    exact Or.inr ⟨Or.inr (Or.inr (Or.inl hname)), _, rfl⟩
  rw [if_neg htext, if_neg hname, Files.placeAt]
  cases hfile : files.get? (beside target time) with
  | some there => exact Or.inr ⟨Or.inl ⟨there, hfile⟩, _, rfl⟩
  | none =>
    cases hdirectory : files.hasDirectory (beside target time) with
    | true => exact Or.inr ⟨Or.inr (Or.inl hdirectory), _, rfl⟩
    | false => exact Or.inl ⟨rfl, rfl⟩

/-- A backup holds a text, and is not the file of the store. -/
structure HasBackup (store : PresetStore) (w : Workspace) (backup : Path) (text : String) :
    Prop where
  /-- The text is in the backup. -/
  file : w.files.get? backup = some (.text text)
  /-- The backup is another file. -/
  apart : ¬ w.files.Leads store.path backup

/-- A backup stays when nothing but the file of the store changes. -/
theorem HasBackup.of_spares {backup : Path} {text : String} (h : store.HasBackup w backup text)
    (hspares : store.Spares w v) : store.HasBackup v backup text :=
  ⟨hspares.files backup _ h.apart h.file, fun hleads => h.apart (hspares.alike.symm.leads hleads)⟩

/-- What is told when there can be no backup. -/
def notBackedUp (cause : FileFault) : LogEntry :=
  ⟨.warning, "Failed to back up preset file: " ++ cause.message⟩

/-- At a reading of the clock in between, a text has come to be in the backup of that time, beside
the file; or the name of the backup was taken, and a warning says that there is none. -/
def Recovers (store : PresetStore) (text : String) (w v : Workspace) : Prop :=
  ∃ n target, w.readings ≤ n ∧ n < v.readings ∧ w.files.Leads store.path target ∧
    (store.HasBackup v (beside target (w.clock n)) text ∨
      store.Taken w.files target (w.clock n) ∧ ∃ told cause,
        w.log ++ told ++ [notBackedUp cause] <+: v.log)

theorem Recovers.of_spares {text : String} (h : store.Recovers text w v)
    (hspares : store.Spares v u) : store.Recovers text w u := by
  obtain ⟨n, target, hle, hlt, hleads, hrecovers⟩ := h
  refine ⟨n, target, hle, Nat.lt_of_lt_of_le hlt hspares.readings, hleads, hrecovers.imp ?_ ?_⟩
  · exact fun hbackup => hbackup.of_spares hspares
  · exact fun ⟨htaken, told, cause, hlog⟩ => ⟨htaken, told, cause, hlog.trans hspares.log⟩

/-- A text is recovered by a backup. -/
theorem BackedUp.recovers {text : String} (h : store.BackedUp text w v)
    (hfile : ∃ found, w.files.read store.path = .ok found) : store.Recovers text w v := by
  obtain ⟨found, hread⟩ := hfile
  obtain ⟨target, hleads, hthere⟩ := Files.exists_leads_of_read hread
  have hreadings : w.readings < v.readings := by
    cases h <;> exact Nat.lt_succ_self _
  have halike := h.alike
  refine ⟨w.readings, target, Nat.le_refl _, hreadings, hleads, ?_⟩
  rcases create_backup hleads (w.clock w.readings) (.text text) with
    ⟨hcreate, hnone⟩ | ⟨htaken, cause, hcreate⟩
  · refine Or.inl ?_
    cases h with
    | created hcreated =>
      obtain rfl := Except.ok.inj (hcreate.symm.trans hcreated)
      refine ⟨by rw [Files.get?_set, if_pos rfl], fun hbackup => ?_⟩
      -- there was no file where the backup is, and so it is not where the file of the store is
      have heq := (halike.symm.leads hbackup).unique hleads
      rw [heq, hthere] at hnone
      cases hnone
    | refused hrefused => cases hcreate.symm.trans hrefused
  · cases h with
    | created hcreated => cases hcreate.symm.trans hcreated
    | @refused cause hrefused =>
      exact Or.inr ⟨htaken, [], cause, by rw [List.append_nil]; exact List.prefix_rfl⟩

/-- Work that replaces a text which is no document of presets only after it is recovered. -/
def Mending (store : PresetStore) (x : Work α) : Prop :=
  ∀ w text, store.Unreadable w text → match x w with
    | .ok _ v => store.Recovers text w v
    | .error _ v => v.files = w.files ∨ store.Recovers text w v

theorem mending_load (store : PresetStore) : store.Mending store.load := by
  intro w text h
  by_cases hendless : PresetDocument.Endless text
  · obtain ⟨v, hload, hfiles⟩ := load_of_endless h.held h.filled hendless
    rw [hload]
    exact Or.inl hfiles
  · obtain ⟨cause, readings, draws, v, hbacked, hload⟩ :=
      load_of_unsound h.held h.filled h.unsound hendless
    have hrecovers : store.Recovers text w v := by
      obtain ⟨found, hread, _⟩ := bind_eq_ok.mp h.held
      obtain ⟨n, target, hle, hlt, hleads, hrecovers⟩ := hbacked.recovers ⟨found, hread⟩
      refine ⟨n, target, Nat.le_of_add_right_le hle, hlt, hleads, hrecovers.imp id ?_⟩
      rintro ⟨htaken, told, last, hlog⟩
      exact ⟨htaken, store.corrupted cause :: told, last, by simpa using hlog⟩
    have hreset := sparing_reset store v
    rw [hload]
    cases hwork : store.reset v with
    | ok items u =>
      rw [Work.left_of_ok hwork] at hreset
      exact hrecovers.of_spares hreset
    | error fault u =>
      rw [Work.left_of_error hwork] at hreset
      exact Or.inr (hrecovers.of_spares hreset)

/-- What follows spares the backup. -/
theorem Mending.bind {x : Work α} {f : α → Work β} (hx : store.Mending x)
    (hf : ∀ a, store.Sparing (f a)) : store.Mending (x >>= f) := by
  intro w text h
  have hfirst := hx w text h
  cases hwork : x w with
  | ok a v =>
    rw [hwork] at hfirst
    have hnext := hf a v
    rw [Work.bind_of_ok hwork]
    cases hlast : f a v with
    | ok b u =>
      rw [Work.left_of_ok hlast] at hnext
      exact hfirst.of_spares hnext
    | error fault u =>
      rw [Work.left_of_error hlast] at hnext
      exact Or.inr (hfirst.of_spares hnext)
  | error fault v =>
    rw [hwork] at hfirst
    rw [Work.bind_of_error hwork]
    exact hfirst

/-- What comes before makes no difference when it only spends. -/
theorem Mending.after {x : Work α} {f : α → Work β} (hx : x.OnlySpends)
    (hf : ∀ a, store.Mending (f a)) : store.Mending (x >>= f) := by
  intro w text h
  obtain ⟨outcome, readings, draws, hframe⟩ := hx w
  have hwork : x w = Work.ofExcept outcome (w.spent readings draws) := hframe w.files
  have hback : ∀ v, store.Recovers text (w.spent readings draws) v → store.Recovers text w v :=
    fun v ⟨n, target, hle, hlt, hrecovers⟩ =>
      ⟨n, target, Nat.le_of_add_right_le hle, hlt, hrecovers⟩
  cases outcome with
  | error fault =>
    rw [Work.bind_of_error hwork]
    exact Or.inl rfl
  | ok a =>
    have hnext := hf a (w.spent readings draws) text ⟨h.held, h.filled, h.unsound⟩
    rw [Work.bind_of_ok hwork]
    cases hlast : f a (w.spent readings draws) with
    | ok b u =>
      rw [hlast] at hnext
      exact hback u hnext
    | error fault u =>
      rw [hlast] at hnext
      exact hnext.imp id (hback u)

/-! ## One operation -/

/-- Every operation loads the presets and then changes nothing but the file; only an import reads
its document first. -/
theorem mending_perform (store : PresetStore) (request : PresetRequest) :
    store.Mending (store.perform request) := by
  have hload := mending_load store
  have hpure : ∀ {γ : Type} (c : γ), store.Sparing (pure c) := fun c =>
    sparing_of_onlySpends (Work.onlySpends_pure c)
  cases request with
  | load => exact hload.bind fun items => hpure _
  | save name expr =>
    exact (hload.bind fun items => (sparing_of_onlySpends (PresetItem.onlySpends_make _ _)).bind
      fun item => sparing_write_pure store _).bind fun items => hpure _
  | delete id =>
    exact (hload.bind fun items => sparing_write_pure store _).bind fun items => hpure _
  | exportText => exact (hload.bind fun items => hpure _).bind fun text => hpure _
  | importText text =>
    refine Mending.bind ?_ fun items => hpure _
    refine .after (PresetDocument.onlySpends_read text) fun parsed => ?_
    refine .after (Work.OnlySpends.mapM (fun _ => PresetItem.onlySpends_make _ _) parsed)
      fun imported => ?_
    exact hload.bind fun stored => (sparing_of_onlySpends (Work.onlySpends_ofExcept _)).bind
      fun items => sparing_write_pure store items
  | find name =>
    refine (hload.bind fun items => ?_).bind fun item => hpure _
    split
    · exact hpure _
    · exact sparing_of_onlySpends (Work.onlySpends_ofExcept (.error _))

/-- An operation on a text that is no document of presets recovers it or leaves all files as they
are. -/
theorem recovers_answer (request : PresetRequest) {text : String}
    (h : store.Unreadable w text) :
    (store.answer request w).2.files = w.files ∨
      store.Recovers text w (store.answer request w).2 := by
  have hmending := mending_perform store request w text h
  rw [answer_snd]
  cases hwork : store.perform request w with
  | ok reply v =>
    rw [hwork] at hmending
    rw [Work.left_of_ok hwork]
    exact Or.inr hmending
  | error fault v =>
    rw [hwork] at hmending
    rw [Work.left_of_error hwork]
    exact hmending

/-! ## A store in use -/

/-- What happens to the file of a store: an operation of the store, or someone else writes to it. -/
inductive StoreStep where
  /-- An operation of the store. -/
  | operation (request : PresetRequest)
  /-- Someone else overwrites the file with a text, if it can be written. -/
  | overwrite (text : String)

/-- The workspace after a step. -/
def advance (store : PresetStore) (w : Workspace) : StoreStep → Workspace
  | .operation request => (store.answer request w).2
  | .overwrite text =>
    match w.files.write store.path (.text text) with
    | .ok files => { w with files }
    | .error _ => w

/-- The workspace after steps one after the other. -/
def course (store : PresetStore) (steps : List StoreStep) (w : Workspace) : Workspace :=
  steps.foldl store.advance w

/-- A step changes nothing but the file of the store. -/
theorem spares_advance (store : PresetStore) (w : Workspace) (step : StoreStep) :
    store.Spares w (store.advance w step) := by
  cases step with
  | operation request => exact (frame_spares store).answer request w
  | overwrite text =>
    unfold advance
    dsimp only
    split
    · next hwrite => exact spares_of_write hwrite
    · exact .refl store w

/-- Steps change nothing but the file of the store. -/
theorem spares_course (store : PresetStore) (steps : List StoreStep) (w : Workspace) :
    store.Spares w (store.course steps w) := by
  induction steps generalizing w with
  | nil => exact .refl store w
  | cons step steps ih => exact (spares_advance store w step).trans (ih (store.advance w step))

/-- Whatever operations are made, and whatever someone else writes to the file in between, no other
file is altered. When an operation replaces a text that is no document of presets, it has tried to
create a backup of the time that the clock then showed: either there was none of this name and the
text is in it, where it stays, or it could not be created and a warning says so. -/
theorem course_keeps_content (store : PresetStore) (w : Workspace) (before after : List StoreStep)
    (request : PresetRequest) :
    let u := store.course before w
    let u' := store.advance u (.operation request)
    let v := store.course after u'
    (∀ path found, ¬ w.files.Leads store.path path → w.files.get? path = some found →
      v.files.get? path = some found) ∧
    ∀ text, store.Unreadable u text → u'.files.read store.path ≠ u.files.read store.path →
      store.Recovers text u u' ∧ store.Recovers text u v := by
  intro u u' v
  have hbefore : store.Spares w u := spares_course store before w
  have hstep : store.Spares u u' := spares_advance store u (.operation request)
  have hafter : store.Spares u' v := spares_course store after u'
  refine ⟨((hbefore.trans hstep).trans hafter).files, fun text hunreadable hreplaced => ?_⟩
  have hrecovers : store.Recovers text u u' := by
    rcases recovers_answer request hunreadable with hfiles | hrecovers
    · exact absurd (congrArg (Files.read · store.path) hfiles) hreplaced
    · exact hrecovers
  exact ⟨hrecovers, hrecovers.of_spares hafter⟩

/-- A text that is no JSON is no document of presets. -/
theorem unreadable_notJson (h : w.files.readText bareStore.path = .ok "not json") :
    bareStore.Unreadable w "not json" ∧ ¬ PresetDocument.Endless "not json" := by
  have hentries : PresetDocument.entriesOf "not json" = .error (.document .notJson) := rfl
  have hshaped : ∀ entries, ¬ PresetDocument.Shaped "not json" entries := by
    intro entries hshaped
    cases hentries.symm.trans (PresetDocument.entriesOf_of_shaped hshaped)
  exact ⟨⟨h, by decide +kernel, fun ⟨entries, hsound⟩ => hshaped entries hsound.1⟩,
    fun ⟨_, _, _, hdocument, _⟩ => hshaped _ hdocument⟩

/-- A document that is written starts with a brace. -/
theorem write_ne_notJson (items : List PresetItem) :
    PresetDocument.write items ≠ .whole "not json" := by
  intro heq
  have hhead : (PresetDocument.write items).shown.toList.head? = some '\x7b' := by
    rw [PresetDocument.write, Json.shown_write, String.toList_ofList]
    rfl
  rw [heq] at hhead
  cases hhead

/-- Loading leaves the document of the default presets where it fills the file. -/
theorem hasDocument_advance_load (h : store.Refills w) :
    ∃ items, store.HasDocument (store.advance w (.operation .load)) items := by
  obtain ⟨items, v, hload, _, hfile⟩ := h
  have hperform : store.perform .load w = .ok (.presets items) v := Work.map_of_ok hload
  refine ⟨items, ?_⟩
  rw [advance, answer_of_ok hperform]
  exact hfile

/-- A workspace with a file that is no document of presets, and some other files. -/
def spoiltWorkspace (others : List (Path × FileContent)) : Workspace :=
  { bareWorkspace with files := ⟨[], ([fileName], .text "not json") :: others⟩ }

variable (others : List (Path × FileContent))

theorem leads_spoilt : (spoiltWorkspace others).files.Leads bareStore.path [fileName] := by
  have hfile : (spoiltWorkspace others).files.get? [fileName] = some (.text "not json") := by
    simp [spoiltWorkspace, Files.get?]
  exact ⟨_, find_fileName _, by rw [Files.placeAt, hfile]; rfl⟩

theorem read_spoilt :
    (spoiltWorkspace others).files.read bareStore.path = .ok (.text "not json") :=
  (leads_spoilt others).read_of_some (by simp [spoiltWorkspace, Files.get?])

theorem writable_spoilt : (spoiltWorkspace others).files.Writable bareStore.path := by
  obtain ⟨place, hfind, htarget⟩ := leads_spoilt others
  exact fun _ => ⟨_, Files.write_of_find (by decide +kernel) hfind htarget⟩

theorem unreadable_spoilt :
    bareStore.Unreadable (spoiltWorkspace others) "not json" ∧
      ¬ PresetDocument.Endless "not json" := by
  refine unreadable_notJson ?_
  rw [Files.readText, read_spoilt, ok_bind]
  decide +kernel

/-- Loading such a file replaces its content. -/
theorem replaced_spoilt :
    (bareStore.advance (spoiltWorkspace others) (.operation .load)).files.read bareStore.path ≠
      (spoiltWorkspace others).files.read bareStore.path := by
  obtain ⟨hunreadable, hendless⟩ := unreadable_spoilt others
  obtain ⟨items, text, htext, hread⟩ := hasDocument_advance_load (refills_of_unsound rfl
    (writable_spoilt others) hunreadable.held hunreadable.filled hunreadable.unsound hendless)
  rw [hread, read_spoilt]
  intro heq
  cases heq
  exact write_ne_notJson items htext

/-- A content is in a backup after it was replaced. -/
theorem course_keeps_content_fresh :
    bareStore.HasBackup (bareStore.advance (spoiltWorkspace []) (.operation .load))
      [backupName 1] "not json" := by
  have hrecovers := ((course_keeps_content bareStore (spoiltWorkspace []) [] [] .load).2 "not json"
    (unreadable_spoilt []).1 (replaced_spoilt [])).1
  obtain ⟨n, target, _, _, hleads, hrecovers⟩ := hrecovers
  have hfree : ¬ bareStore.Taken (spoiltWorkspace []).files [fileName] 1 := by
    have hnone : (spoiltWorkspace []).files.get? (beside [fileName] 1) = none := by decide +kernel
    rintro (⟨found, hfound⟩ | hdirectory | hname | htext)
    · cases hnone.symm.trans hfound
    · exact absurd hdirectory (by decide +kernel)
    · exact absurd hname (by decide +kernel)
    · rw [backupPath_eq (leads_spoilt [])] at htext
      exact absurd htext (by decide +kernel)
  rw [hleads.unique (leads_spoilt [])] at hrecovers
  exact hrecovers.resolve_right fun htaken => hfree htaken.1

/-- When the name of the backup is in use, the content that is replaced is in no file any more. -/
theorem load_loses_content :
    bareStore.Unreadable (spoiltWorkspace [([backupName 1], .text "older")]) "not json" ∧
    (bareStore.advance (spoiltWorkspace [([backupName 1], .text "older")])
      (.operation .load)).files.read bareStore.path ≠
        (spoiltWorkspace [([backupName 1], .text "older")]).files.read bareStore.path ∧
    ∀ path, (bareStore.advance (spoiltWorkspace [([backupName 1], .text "older")])
      (.operation .load)).files.get? path ≠ some (.text "not json") := by
  have hleads := leads_spoilt [([backupName 1], .text "older")]
  obtain ⟨hunreadable, hendless⟩ := unreadable_spoilt [([backupName 1], .text "older")]
  refine ⟨hunreadable, replaced_spoilt _, fun path => ?_⟩
  obtain ⟨cause, readings, draws, v, hbacked, hload⟩ :=
    load_of_unsound hunreadable.held hunreadable.filled hunreadable.unsound hendless
  -- the name of the backup is in use, and so there is none
  have hsame : v.files = (spoiltWorkspace [([backupName 1], .text "older")]).files := by
    cases hbacked with
    | refused _ => rfl
    | created hcreate =>
      rcases create_backup hleads 1 (.text "not json") with ⟨_, hnone⟩ | ⟨_, cause, hrefused⟩
      · exact absurd hnone (by decide +kernel)
      · cases hcreate.symm.trans hrefused
  obtain ⟨items, u, target, text, hreset, -, htarget, htext, hset⟩ :=
    exists_reset (hbacked.pending_eq.trans rfl) (hbacked.alike.writable (writable_spoilt _))
  have hperform : bareStore.perform .load (spoiltWorkspace [([backupName 1], .text "older")]) =
      .ok (.presets items) u := Work.map_of_ok (hload.trans hreset)
  rw [hsame] at htarget hset
  rw [advance, answer_of_ok hperform, hset, htarget.unique hleads, Files.get?_set]
  split
  · intro heq
    cases heq
    exact write_ne_notJson items htext
  · next hother =>
    have hget : (spoiltWorkspace [([backupName 1], .text "older")]).files.get? path =
        if [backupName 1] = path then some (.text "older") else none := by
      simp [Files.get?, spoiltWorkspace, Ne.symm hother]
    rw [hget]
    split
    · decide
    · exact (Option.some_ne_none _).symm

end PresetStore

end LayerBlend
