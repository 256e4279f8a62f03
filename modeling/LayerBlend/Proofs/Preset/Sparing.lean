import LayerBlend.Proofs.Preset.Recovery

/-!
# Stores change no file but their own

* `PresetStore.Spares` — nothing but the file of a store was changed, and the log only grew.
* `PresetStore.Frame` — a relation of workspaces that every step of a store keeps to, and so every
  operation (`PresetStore.Frame.perform`).
* `PresetStore.frame_spares`, `PresetStore.Sparing` — every step spares the other files.
* `PresetStore.frame_later` — every step leaves the clock and the supply of identifiers alone.
-/

namespace LayerBlend

namespace PresetStore

variable {store : PresetStore} {w v u : Workspace} {content : String} {α β : Type}

/-! ## Other files -/

/-- Nothing but the file of a store was changed: the other files are as they were, also after time
has passed and more was told. -/
structure Spares (store : PresetStore) (w v : Workspace) : Prop where
  /-- The clock is the same. -/
  clock : v.clock = w.clock
  /-- It was not turned back. -/
  readings : w.readings ≤ v.readings
  /-- What was told stays told. -/
  log : w.log <+: v.log
  /-- The same paths are directories. -/
  alike : w.files.Alike v.files
  /-- Other files are as they were. -/
  files : ∀ path found, ¬ w.files.Leads store.path path → w.files.get? path = some found →
    v.files.get? path = some found

theorem Spares.refl (store : PresetStore) (w : Workspace) : store.Spares w w :=
  ⟨rfl, Nat.le_refl _, List.prefix_rfl, .refl _, fun _ _ _ hfile => hfile⟩

theorem Spares.trans (h : store.Spares w v) (hnext : store.Spares v u) : store.Spares w u :=
  ⟨hnext.clock.trans h.clock, h.readings.trans hnext.readings, h.log.trans hnext.log,
    h.alike.trans hnext.alike, fun path found hother hfile =>
      hnext.files path found (fun hleads => hother (h.alike.symm.leads hleads))
        (h.files path found hother hfile)⟩

/-- A file that is written to is the only one that changes. -/
theorem spares_of_write {files : Files} {found : FileContent}
    (h : w.files.write store.path found = .ok files) : store.Spares w { w with files } := by
  obtain ⟨_, target, hleads, rfl⟩ := Files.write_eq_ok h
  refine ⟨rfl, Nat.le_refl _, List.prefix_rfl, hleads.alike_set found,
    fun path there hother hfile => ?_⟩
  have hpath : path ≠ target := by
    rintro rfl
    exact hother hleads
  rw [Files.get?_set, if_neg hpath, hfile]

/-- A backup changes no file at all. -/
theorem BackedUp.spares (h : store.BackedUp content w v) : store.Spares w v := by
  refine ⟨h.clock_eq, ?_, ?_, h.alike, ?_⟩
  · cases h <;> exact Nat.le_succ _
  · cases h <;> exact List.prefix_append _ _
  · cases h with
    | created hcreate =>
      obtain ⟨target, _, hnone, rfl⟩ := Files.create_eq_ok hcreate
      intro path found _ hfile
      have hpath : path ≠ target := by
        rintro rfl
        rw [hnone] at hfile
        cases hfile
      rw [Files.get?_set, if_neg hpath, hfile]
    | refused _ => exact fun _ _ _ hfile => hfile

/-- Whatever comes of attempts to write, at most the file was changed. -/
theorem spares_filesBefore (store : PresetStore) (w : Workspace) (text : JsonText)
    (attempts : Nat) :
    store.Spares w { w with files := filesBefore w store.path text attempts } := by
  refine filesBefore_induction (P := fun files => store.Spares w { w with files })
    (.refl store w) (fun files content after h hwrite => ?_) attempts
  exact h.trans (spares_of_write (w := { w with files }) hwrite)

/-! ## Frames -/

/-- A relation of workspaces that every step of a store keeps to. -/
structure Frame (store : PresetStore) (R : Workspace → Workspace → Prop) : Prop where
  /-- Steps can be taken one after the other. -/
  trans : ∀ ⦃w v u⦄, R w v → R v u → R w u
  /-- Reading the clock and drawing is such a step. -/
  spent : ∀ w readings draws, R w (w.spent readings draws)
  /-- Telling something is. -/
  tell : ∀ level message, (Work.tell level message).Steps R
  /-- Making a backup is. -/
  backup : ∀ content, (store.backup content).Steps R
  /-- Writing presets is. -/
  write : ∀ items, (store.write items).Steps R

namespace Frame

variable {R : Workspace → Workspace → Prop}

theorem onlySpends (h : store.Frame R) {x : Work α} (hx : x.OnlySpends) : x.Steps R :=
  hx.steps h.spent

theorem bind (h : store.Frame R) {x : Work α} {f : α → Work β} (hx : x.Steps R)
    (hf : ∀ a, (f a).Steps R) : (x >>= f).Steps R :=
  hx.bind hf h.trans

theorem pure (h : store.Frame R) (a : α) : (Pure.pure a : Work α).Steps R :=
  h.onlySpends (Work.onlySpends_pure a)

/-- Looking at the file changes nothing. -/
theorem look (h : store.Frame R) : store.content.Steps R := by
  intro w
  have hleft : store.content.left w = w.spent 0 0 := by
    rw [Work.left, PresetStore.content, Work.get_bind]
    cases w.files.readText store.path with
    | ok text => rfl
    | error cause => cases cause <;> rfl
  rw [hleft]
  exact h.spent w 0 0

theorem reset (h : store.Frame R) : store.reset.Steps R :=
  h.bind (h.onlySpends (Work.OnlySpends.mapM (fun _ => PresetItem.onlySpends_make _ _) _))
    fun items => h.bind (h.write items) fun _ => h.pure items

theorem load (h : store.Frame R) : store.load.Steps R := by
  refine h.bind h.look fun content => ?_
  split
  · exact h.reset
  · refine (h.onlySpends (PresetDocument.onlySpends_read content)).tryCatch (fun fault => ?_)
      h.trans
    split
    · exact h.bind (h.tell _ _) fun _ => h.bind (h.backup content) fun _ => h.reset
    · exact h.onlySpends (Work.onlySpends_ofExcept (.error _))

/-- Writing presets and giving them back is such a step. -/
theorem write_pure (h : store.Frame R) (items : List PresetItem) :
    (do store.write items; return items : Work _).Steps R :=
  h.bind (h.write items) fun _ => h.pure items

/-- Every operation is such a step. -/
theorem perform (h : store.Frame R) (request : PresetRequest) :
    (store.perform request).Steps R := by
  have hpure : ∀ {β γ : Type} (f : β → γ) (b : β), (Pure.pure (f b) : Work γ).Steps R :=
    fun f b => h.pure (f b)
  cases request with
  | load => exact h.bind h.load (hpure _)
  | save name expr =>
    exact h.bind (h.bind h.load fun items => h.bind
      (h.onlySpends (PresetItem.onlySpends_make _ _)) fun item => h.write_pure _) (hpure _)
  | delete id => exact h.bind (h.bind h.load fun items => h.write_pure _) (hpure _)
  | exportText => exact h.bind (h.bind h.load (hpure _)) (hpure _)
  | importText text =>
    refine h.bind (h.bind (h.onlySpends (PresetDocument.onlySpends_read text)) fun parsed => ?_)
      (hpure _)
    exact h.bind (h.onlySpends (Work.OnlySpends.mapM (fun _ => PresetItem.onlySpends_make _ _) _))
      fun imported => h.bind h.load fun stored =>
        h.bind (h.onlySpends (Work.onlySpends_ofExcept _)) fun items => h.write_pure items
  | find name =>
    refine h.bind (h.bind h.load fun items => ?_) (hpure _)
    split
    · exact h.pure _
    · exact h.onlySpends (Work.onlySpends_ofExcept (.error _))

end Frame

/-- An operation leaves what its work leaves. -/
theorem answer_snd (store : PresetStore) (request : PresetRequest) (w : Workspace) :
    (store.answer request w).2 = (store.perform request).left w := by
  rw [answer, Work.left]
  cases store.perform request w <;> rfl

theorem Frame.answer {R : Workspace → Workspace → Prop} (h : store.Frame R)
    (request : PresetRequest) (w : Workspace) : R w (store.answer request w).2 := by
  rw [answer_snd]
  exact h.perform request w

/-! ## Work that spares other files -/

/-- Work that changes nothing but the file of a store, whether it fails or not. -/
def Sparing (store : PresetStore) (x : Work α) : Prop :=
  ∀ w, store.Spares w (x.left w)

/-- Every step of a store spares the other files. -/
theorem frame_spares (store : PresetStore) : store.Frame store.Spares where
  trans _ _ _ h hnext := h.trans hnext
  spent _ readings _ := ⟨rfl, Nat.le_add_right _ readings, List.prefix_rfl, .refl _,
    fun _ _ _ hfile => hfile⟩
  tell _ _ w := ⟨rfl, Nat.le_refl _, List.prefix_append w.log _, .refl _, fun _ _ _ hfile => hfile⟩
  backup content w := by
    obtain ⟨v, hbackup, hbacked⟩ := store.exists_backup content w
    rw [Work.left_of_ok hbackup]
    exact hbacked.spares
  write items w := by
    obtain ⟨attempts, told, waits, hleft⟩ := left_write store items w
    have hfiles := spares_filesBefore store w (PresetDocument.write items) attempts
    rw [hleft]
    exact ⟨rfl, Nat.le_refl _, List.prefix_append _ _, hfiles.alike, hfiles.files⟩

theorem sparing_of_onlySpends {x : Work α} (h : x.OnlySpends) : store.Sparing x :=
  (frame_spares store).onlySpends h

theorem Sparing.bind {x : Work α} {f : α → Work β} (hx : store.Sparing x)
    (hf : ∀ a, store.Sparing (f a)) : store.Sparing (x >>= f) :=
  (frame_spares store).bind hx hf

theorem sparing_reset (store : PresetStore) : store.Sparing store.reset :=
  (frame_spares store).reset

/-- Writing presets and giving them back changes nothing but the file. -/
theorem sparing_write_pure (store : PresetStore) (items : List PresetItem) :
    store.Sparing (do store.write items; return items) :=
  (frame_spares store).write_pure items

/-! ## What time leaves alone -/

/-- A workspace some steps later: the clock and the supply of identifiers are the same, some of it
is drawn, and of the faults that were pending some are left. -/
structure Later (w v : Workspace) : Prop where
  /-- The clock is the same. -/
  clock : v.clock = w.clock
  /-- So is the supply of identifiers. -/
  suffix : v.suffix = w.suffix
  /-- What is drawn stays drawn. -/
  draws : w.draws ≤ v.draws
  /-- No more faults are pending. -/
  pending : v.pending <:+ w.pending

theorem Later.refl (w : Workspace) : Later w w :=
  ⟨rfl, rfl, Nat.le_refl _, List.suffix_rfl⟩

theorem Later.trans (h : Later w v) (hnext : Later v u) : Later w u :=
  ⟨hnext.clock.trans h.clock, hnext.suffix.trans h.suffix, h.draws.trans hnext.draws,
    hnext.pending.trans h.pending⟩

theorem Later.timed (h : Later w v) (htimed : w.Timed) : v.Timed := by
  intro n
  rw [h.clock]
  exact htimed n

/-- Where no fault is pending none comes up. -/
theorem Later.pending_eq_nil (h : Later w v) (hpending : w.pending = []) : v.pending = [] :=
  List.suffix_nil.mp (hpending ▸ h.pending)

/-- Every step of a store leads to a later workspace. -/
theorem frame_later (store : PresetStore) : store.Frame Later where
  trans _ _ _ h hnext := h.trans hnext
  spent _ _ draws := ⟨rfl, rfl, Nat.le_add_right _ draws, List.suffix_rfl⟩
  tell _ _ _ := ⟨rfl, rfl, Nat.le_refl _, List.suffix_rfl⟩
  backup content w := by
    obtain ⟨v, hbackup, hbacked⟩ := store.exists_backup content w
    rw [Work.left_of_ok hbackup]
    cases hbacked <;> exact ⟨rfl, rfl, Nat.le_refl _, List.suffix_rfl⟩
  write items w := by
    obtain ⟨attempts, told, waits, hleft⟩ := left_write store items w
    rw [hleft]
    exact ⟨rfl, rfl, Nat.le_refl _, List.drop_suffix _ _⟩

end PresetStore

end LayerBlend
