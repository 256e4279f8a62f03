import LayerBlend.Proofs.Preset.Conversion
import LayerBlend.Proofs.Preset.Refinement

/-!
# What loading makes of a file

* `PresetStore.BackedUp` — what a backup leaves behind: a new file with the content, or a warning.
* `PresetStore.exists_reset`, `PresetStore.recover_eq` — filling a file with the default presets,
  and what comes before it when there is a content to be replaced.
* `PresetStore.Refills` — loading gives the default presets and leaves their document in the file.
* `PresetStore.load_by_content` — what loading does with every content that a file can have.
-/

namespace LayerBlend

namespace PresetStore

variable {store : PresetStore} {w v : Workspace} {content : String}

/-! ## Backups -/

/-- The name of the backup that is made at a time, beside the file. -/
def backupPath (store : PresetStore) (time : Int) : String :=
  Path.toText ((Path.ofText store.path).dropLast ++ [backupName time])

/-- What a backup of a content leaves behind. -/
inductive BackedUp (store : PresetStore) (content : String) (w : Workspace) : Workspace → Prop where
  /-- The content is in a new file. -/
  | created {files : Files}
      (h : w.files.create (store.backupPath (w.clock w.readings)) (.text content) = .ok files) :
      BackedUp store content w { w with
        files
        readings := w.readings + 1
        log := w.log ++ [⟨.info, "Backed up preset file to " ++
          Path.join w.directory (store.backupPath (w.clock w.readings))⟩] }
  /-- There can be no such file, and a warning says so. -/
  | refused {cause : FileFault}
      (h : w.files.create (store.backupPath (w.clock w.readings)) (.text content) =
        .error cause) :
      BackedUp store content w { w with
        readings := w.readings + 1
        log := w.log ++ [⟨.warning, "Failed to back up preset file: " ++ cause.message⟩] }

/-- A backup always goes on, with a new file or a warning. -/
theorem exists_backup (store : PresetStore) (content : String) (w : Workspace) :
    ∃ v, store.backup content w = .ok () v ∧ store.BackedUp content w v := by
  have hnow : Work.now w = .ok (w.clock w.readings) { w with readings := w.readings + 1 } := rfl
  rw [backup, Work.bind_of_ok hnow, Work.get_bind]
  dsimp only
  rw [← backupPath]
  cases hcreate : w.files.create (store.backupPath (w.clock w.readings)) (.text content) with
  | ok files => exact ⟨_, rfl, .created hcreate⟩
  | error cause => exact ⟨_, rfl, .refused hcreate⟩

namespace BackedUp

theorem clock_eq (h : store.BackedUp content w v) : v.clock = w.clock := by
  cases h <;> rfl

theorem suffix_eq (h : store.BackedUp content w v) : v.suffix = w.suffix := by
  cases h <;> rfl

theorem pending_eq (h : store.BackedUp content w v) : v.pending = w.pending := by
  cases h <;> rfl

theorem alike (h : store.BackedUp content w v) : w.files.Alike v.files := by
  cases h with
  | created hcreate =>
    obtain ⟨target, hleads, _, rfl⟩ := Files.create_eq_ok hcreate
    exact hleads.alike_set _
  | refused _ => exact .refl _

end BackedUp

/-! ## Filling the file -/

/-- Loading gives the default presets, and leaves their document in the file. -/
def Refills (store : PresetStore) (w : Workspace) : Prop :=
  ∃ items v, store.load w = .ok items v ∧ PresetItem.DefaultsMade w items ∧
    store.HasDocument v items

/-- A file that can be written is filled with the default presets, and no other file changes. -/
theorem exists_reset (hpending : w.pending = []) (hwritable : w.files.Writable store.path) :
    ∃ items v target text, store.reset w = .ok items v ∧ PresetItem.DefaultsMade w items ∧
      w.files.Leads store.path target ∧ PresetDocument.write items = .whole text ∧
      v.files = w.files.set target (.text text) := by
  obtain ⟨items, readings, draws, hmake, hmade⟩ := PresetItem.exists_defaultsMade w
  obtain ⟨text, htext⟩ := PresetDocument.write_eq_whole_iff.mpr hmade.isWhole
  obtain ⟨files, hfiles⟩ := hwritable (.text text)
  obtain ⟨_, target, hleads, hset⟩ := Files.write_eq_ok hfiles
  refine ⟨items, { w.spent readings draws with files }, target, text, ?_, hmade, hleads, htext,
    hset⟩
  have hwrite : store.write items (w.spent readings draws) = .ok () _ :=
    write_apply (w := w.spent readings draws) hpending htext hfiles
  rw [reset, Work.bind_of_ok hmake]
  exact Work.bind_of_ok hwrite

/-- What a store tells before it replaces a content. -/
def corrupted (store : PresetStore) (cause : DocumentFault) : LogEntry :=
  ⟨.warning, "Corrupted preset file " ++ store.path ++ ": " ++ cause.message⟩

/-- A content is replaced after it was backed up. -/
theorem recover_eq (store : PresetStore) (content : String) (cause : DocumentFault)
    (w : Workspace) :
    ∃ v, store.BackedUp content { w with log := w.log ++ [store.corrupted cause] } v ∧
      store.recover content cause w = store.reset v := by
  obtain ⟨v, hbackup, hbacked⟩ :=
    store.exists_backup content { w with log := w.log ++ [store.corrupted cause] }
  refine ⟨v, hbacked, ?_⟩
  rw [recover, Work.bind_of_ok (Work.tell_apply _ _ w)]
  exact Work.bind_of_ok hbackup

/-! ## Loading -/

/-- A content that is not blank is read, and only a fault of documents is mended. -/
theorem load_of_text (htext : w.files.readText store.path = .ok content)
    (hblank : Text.blank content.toList = false) :
    store.load w = match PresetDocument.read content w with
      | .error (.document cause) v => store.recover content cause v
      | outcome => outcome := by
  have hcontent : store.content w = .ok content w := by
    rw [PresetStore.content, Work.get_bind, htext]
    rfl
  rw [load, Work.bind_of_ok hcontent, hblank, if_neg Bool.false_ne_true]
  cases hread : PresetDocument.read content w with
  | ok items v => exact Work.tryCatch_of_ok hread
  | error fault v =>
    rw [Work.tryCatch_of_error hread]
    cases fault <;> rfl

/-- A content that is no document of presets is backed up, and then the file is filled with the
default presets. -/
theorem load_of_unsound (htext : w.files.readText store.path = .ok content)
    (hblank : Text.blank content.toList = false)
    (hsound : ¬ ∃ entries, PresetDocument.Sound content entries)
    (hendless : ¬ PresetDocument.Endless content) :
    ∃ cause readings draws v, store.BackedUp content
        { w.spent readings draws with log := w.log ++ [store.corrupted cause] } v ∧
      store.load w = store.reset v := by
  obtain ⟨cause, hread⟩ := PresetDocument.read_of_unsound hsound hendless
  obtain ⟨readings, draws, hread⟩ := hread w
  obtain ⟨v, hbacked, hrecover⟩ := store.recover_eq content cause (w.spent readings draws)
  refine ⟨cause, readings, draws, v, hbacked, ?_⟩
  rw [load_of_text htext hblank, hread]
  exact hrecover

/-- Filling a file leaves the document of the default presets in it. -/
theorem refills_of_reset (hpending : v.pending = []) (hwritable : v.files.Writable store.path)
    (hload : store.load w = store.reset v) (hclock : v.clock = w.clock)
    (hsuffix : v.suffix = w.suffix) : store.Refills w := by
  obtain ⟨items, u, target, text, hreset, hmade, hleads, htext, hfiles⟩ :=
    exists_reset hpending hwritable
  refine ⟨items, u, hload.trans hreset, hmade.imp fun _ _ h => h.of_eq hclock hsuffix, text, htext,
    ?_⟩
  rw [hfiles]
  exact ((hleads.alike_set _).leads hleads).read_of_some (by rw [Files.get?_set, if_pos rfl])

/-- A file that is missing or blank is filled with the default presets. -/
theorem refills_of_unfilled (hpending : w.pending = []) (hwritable : w.files.Writable store.path)
    (h : store.Unfilled w) : store.Refills w :=
  refills_of_reset hpending hwritable (load_of_unfilled h) rfl rfl

/-- A content that is no document of presets is replaced by the default presets. -/
theorem refills_of_unsound (hpending : w.pending = []) (hwritable : w.files.Writable store.path)
    (htext : w.files.readText store.path = .ok content)
    (hblank : Text.blank content.toList = false)
    (hsound : ¬ ∃ entries, PresetDocument.Sound content entries)
    (hendless : ¬ PresetDocument.Endless content) : store.Refills w := by
  obtain ⟨cause, readings, draws, v, hbacked, hload⟩ :=
    load_of_unsound htext hblank hsound hendless
  exact refills_of_reset (hbacked.pending_eq.trans hpending) (hbacked.alike.writable hwritable)
    hload hbacked.clock_eq hbacked.suffix_eq

/-- A document of presets is loaded, and the file stays as it is. -/
theorem load_of_sound {entries : List Json} (htext : w.files.readText store.path = .ok content)
    (hblank : Text.blank content.toList = false)
    (hsound : PresetDocument.Sound content entries) :
    ∃ items v, store.load w = .ok items v ∧
      List.Forall₂ (PresetItem.Decodes w) entries items ∧ v.files = w.files := by
  obtain ⟨items, readings, draws, hread, hall⟩ := hsound.exists_read w
  refine ⟨items, w.spent readings draws, ?_, hall, rfl⟩
  rw [load_of_text htext hblank, hread]

/-- A document with an infinite time is not mended: loading fails, and the file stays as it is. -/
theorem load_of_endless (htext : w.files.readText store.path = .ok content)
    (hblank : Text.blank content.toList = false) (hendless : PresetDocument.Endless content) :
    ∃ v, store.load w = .error .infiniteTime v ∧ v.files = w.files := by
  obtain ⟨readings, draws, hread⟩ := hendless.read_eq w
  refine ⟨w.spent readings draws, ?_, rfl⟩
  rw [load_of_text htext hblank, hread]

/-- A file that cannot be read as a text is not mended: loading fails, and nothing changes. -/
theorem load_of_unreadable {cause : FileFault} (hcause : cause ≠ .missing)
    (htext : w.files.readText store.path = .error cause) :
    store.load w = .error (.file store.path cause) w := by
  have hcontent : store.content w = .error (.file store.path cause) w := by
    rw [PresetStore.content, Work.get_bind, htext]
    cases cause with
    | missing => exact absurd rfl hcause
    | _ => rfl
  rw [load, Work.bind_of_error hcontent]

/-- A file that can be written is missing or blank, has a text, or has no text at all. -/
theorem readText_cases (hwritable : w.files.Writable store.path) :
    store.Unfilled w ∨
      (∃ text, w.files.readText store.path = .ok text ∧ Text.blank text.toList = false) ∨
      w.files.readText store.path = .error .undecodable := by
  rcases hwritable.read_cases with hmissing | ⟨found, hread⟩
  · refine Or.inl (Or.inl ?_)
    rw [Files.readText, hmissing, error_bind]
  · cases htext : found.text? with
    | none =>
      refine Or.inr (Or.inr ?_)
      rw [Files.readText, hread, ok_bind, htext]
      rfl
    | some text =>
      have hreadText : w.files.readText store.path = .ok text := by
        rw [Files.readText, hread, ok_bind, htext]
        rfl
      cases hblank : Text.blank text.toList with
      | true => exact Or.inl (Or.inr ⟨text, hreadText, hblank⟩)
      | false => exact Or.inr (Or.inl ⟨text, hreadText, hblank⟩)

/-- What loading does with every content of a file that can be written, whatever the clock shows. A
file that is missing or blank is filled with the default presets. A document of presets is loaded,
and the file stays as it is. Any other text is replaced by the default presets. Only two kinds of
content are not mended but end the work, and the file stays as it is: bytes that are no text, and a
document with an infinite time before any other fault. -/
theorem load_by_content (store : PresetStore) (w : Workspace) (hpending : w.pending = [])
    (hwritable : w.files.Writable store.path) :
    (store.Unfilled w → store.Refills w) ∧
    (∀ text, w.files.readText store.path = .ok text → Text.blank text.toList = false →
      (∀ entries, PresetDocument.Sound text entries → ∃ items v, store.load w = .ok items v ∧
        List.Forall₂ (PresetItem.Decodes w) entries items ∧ v.files = w.files) ∧
      (PresetDocument.Endless text →
        ∃ v, store.load w = .error .infiniteTime v ∧ v.files = w.files) ∧
      ((¬ ∃ entries, PresetDocument.Sound text entries) → ¬ PresetDocument.Endless text →
        store.Refills w)) ∧
    (w.files.readText store.path = .error .undecodable →
      store.load w = .error (.file store.path .undecodable) w) ∧
    (store.Unfilled w ∨
      (∃ text, w.files.readText store.path = .ok text ∧ Text.blank text.toList = false) ∨
      w.files.readText store.path = .error .undecodable) :=
  ⟨refills_of_unfilled hpending hwritable,
    fun _ htext hblank => ⟨fun _ hsound => load_of_sound htext hblank hsound,
      load_of_endless htext hblank, refills_of_unsound hpending hwritable htext hblank⟩,
    load_of_unreadable (by decide), readText_cases hwritable⟩

/-- A workspace whose only file is a single byte that is no text. -/
def garbledWorkspace : Workspace :=
  { bareWorkspace with files := ⟨[], [([fileName], .raw #[0xff])]⟩ }

/-- A file whose bytes are no text is not mended. -/
theorem load_by_content_garbled : garbledWorkspace.pending = [] ∧
    garbledWorkspace.files.Writable bareStore.path ∧
    garbledWorkspace.files.readText bareStore.path = .error .undecodable ∧
    bareStore.load garbledWorkspace =
      .error (.file bareStore.path .undecodable) garbledWorkspace := by
  have hfind : garbledWorkspace.files.find fileName = .ok (.file [fileName] (.raw #[0xff])) := by
    have hfile : garbledWorkspace.files.get? [fileName] = some (.raw #[0xff]) := by decide +kernel
    rw [find_fileName, Files.placeAt, hfile]
  have hwritable : garbledWorkspace.files.Writable bareStore.path :=
    fun _ => ⟨_, Files.write_of_find (by decide +kernel) hfind rfl⟩
  have hread : garbledWorkspace.files.read fileName = .ok (.raw #[0xff]) := by
    rw [Files.read, hfind]
    rfl
  have hnone : FileContent.text? (.raw #[0xff]) = none := by
    rw [FileContent.text?, String.fromUTF8?, dif_neg (by decide +kernel), Option.map_none]
  have htext : garbledWorkspace.files.readText bareStore.path = .error .undecodable := by
    show garbledWorkspace.files.readText fileName = _
    rw [Files.readText, hread, ok_bind, hnone]
    rfl
  exact ⟨rfl, hwritable, htext,
    (load_by_content bareStore garbledWorkspace rfl hwritable).2.2.1 htext⟩

end PresetStore

end LayerBlend
