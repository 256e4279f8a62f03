import LayerBlend.Proofs.Preset.Identifiers
import LayerBlend.Proofs.Preset.Stability

/-!
# Files whose presets are identified

* `PresetStore.Identified`, `PresetStore.Stores` — the presets of a file have identifiers that were
  drawn, and no two have the same one; a file that is missing or blank has no presets.
* `PresetStore.answer_cases_of_write` — an operation that ends with a write leaves presets in the
  file, or it fails and leaves the files as they were, or an empty file.
* `PresetStore.Opened`, `PresetStore.exists_opened` — what is loaded from such a file, and what the
  file has then.
-/

namespace LayerBlend

namespace PresetStore

variable {store : PresetStore} {w v u : Workspace} {items stored again last : List PresetItem}
  {request : PresetRequest}

/-! ## Files with identified presets -/

/-- The identifiers of presets were drawn, each for one of them. -/
structure Identified (w : Workspace) (items : List PresetItem) : Prop where
  /-- The presets are readable. -/
  readable : ∀ item ∈ items, item.Readable
  /-- Each has the identifier of a draw that was made. -/
  drawn : ∀ item ∈ items, item.Drawn w 0 w.draws
  /-- No two have the same. -/
  distinct : PresetDocument.Distinct items

theorem Identified.later (h : Identified w items) (hlater : Later w v) : Identified v items :=
  ⟨h.readable, fun item hitem => ((h.drawn item hitem).of_eq hlater.suffix).mono (Nat.le_refl _)
    hlater.draws, h.distinct⟩

/-- The presets of a file: none when it is missing or blank, and else those of its document, which
are identified. -/
inductive Stores (store : PresetStore) (w : Workspace) : List PresetItem → Prop where
  /-- The file is missing or blank. -/
  | unfilled (h : store.Unfilled w) : Stores store w []
  /-- The file is the document of identified presets. -/
  | filled {items : List PresetItem}
      (hfile : store.HasDocument w items)
      (hidentified : Identified w items) : Stores store w items

theorem Stores.distinct (h : store.Stores w items) : PresetDocument.Distinct items := by
  cases h with
  | unfilled => exact List.nodup_nil
  | filled _ hidentified => exact hidentified.distinct

theorem Stores.drawn (h : store.Stores w items) : ∀ item ∈ items, item.Drawn w 0 w.draws := by
  cases h with
  | unfilled => exact fun _ hitem => nomatch hitem
  | filled _ hidentified => exact hidentified.drawn

/-- Where no file changes, the presets are the same. -/
theorem Stores.of_files_eq (h : store.Stores w items) (hlater : Later w v)
    (hfiles : v.files = w.files) : store.Stores v items := by
  cases h with
  | unfilled h =>
    refine .unfilled ?_
    unfold Unfilled
    rw [hfiles]
    exact h
  | filled hfile hidentified =>
    obtain ⟨text, htext, hfile⟩ := hfile
    exact .filled ⟨text, htext, hfiles ▸ hfile⟩ (hidentified.later hlater)

/-! ## Writing -/

/-- An operation that ends with writing presets has written them, or it fails and leaves the files
as they were, or an empty file. -/
theorem answer_cases_of_write
    (h : store.perform request w =
      (PresetReply.presets <$> (do store.write last; return last : Work _)) u) :
    ∃ v, Later u v ∧
      (store.answer request w = (.presets last, v) ∧ store.HasDocument v last ∨
        ∃ fault, store.answer request w = (.refused fault, v) ∧
          (v.files = u.files ∨ store.Emptied u last v.files)) := by
  have hlater := (frame_later store).write last u
  rcases write_cases store last u with ⟨v, hwrite, hfile⟩ | ⟨fault, v, hwrite, hfiles⟩
  · rw [Work.left_of_ok hwrite] at hlater
    exact ⟨v, hlater, Or.inl ⟨answer_of_ok (h.trans (Work.map_of_ok (Work.bind_of_ok hwrite))),
      hfile⟩⟩
  · rw [Work.left_of_error hwrite] at hlater
    exact ⟨v, hlater, Or.inr ⟨fault,
      answer_of_error (h.trans (Work.map_of_error (Work.bind_of_error hwrite))), hfiles⟩⟩

/-! ## Loading -/

/-- What is loaded, and what the file has then. -/
structure Opened (store : PresetStore) (w : Workspace) (items stored again : List PresetItem)
    (v : Workspace) : Prop where
  /-- Time has passed. -/
  later : Later w v
  /-- The file has presets. -/
  stores : store.Stores v stored
  /-- These are loaded, but for times that are zero. -/
  persists : List.Forall₂ PresetItem.Persists stored again
  /-- What is loaded is identified. -/
  identified : Identified v again
  /-- No part of it has half of a character. -/
  whole : again.all PresetItem.isWhole = true
  /-- The file has the presets that it had, or it had none and was filled. -/
  same : stored = items ∨ items = [] ∧ ∀ item ∈ stored, item.Drawn w w.draws v.draws

/-- An identified preset that is read persists. -/
theorem persists_of_rereads (hidentified : Identified w items)
    (h : List.Forall₂ PresetItem.Rereads items again) :
    List.Forall₂ PresetItem.Persists items again := by
  refine List.forall₂_iff_get.mpr ⟨h.length_eq, fun i hi hi' => ?_⟩
  have hitem := (List.forall₂_iff_get.mp h).2 i hi hi'
  obtain ⟨s, hne, hid⟩ := (hidentified.drawn _ (List.get_mem items ⟨i, hi⟩)).exists_text
  have htruthy : (items.get ⟨i, hi⟩).id.isTruthy = true := by
    rw [hid]
    simpa [Json.isTruthy, JsonText.isEmpty] using hne
  exact ⟨hitem.name, hitem.expr, hitem.id htruthy, hitem.time⟩

/-- Presets that persist are as well identified as they were. -/
theorem Identified.of_persists (h : Identified w items)
    (hreadable : ∀ item ∈ again, item.Readable)
    (hpersists : List.Forall₂ PresetItem.Persists items again) : Identified w again := by
  have hids : again.map PresetItem.id = items.map PresetItem.id := by
    clear h hreadable
    induction hpersists with
    | nil => rfl
    | cons hitem _ ih => rw [List.map_cons, List.map_cons, hitem.id, ih]
  refine ⟨hreadable, fun other hother => ?_, ?_⟩
  · obtain ⟨item, hitem, hpersist⟩ := exists_of_forall₂ hpersists hother
    exact (h.drawn item hitem).of_id_eq hpersist.id
  · rw [PresetDocument.Distinct, hids]
    exact h.distinct

/-- The default presets are made with identifiers that were not drawn before. -/
theorem exists_drawn_defaults (hsuffix : Function.Injective w.suffix) :
    ∃ made readings, PresetItem.makeDefaults w = .ok made (w.spent readings made.length) ∧
      PresetItem.DefaultsMade w made ∧ PresetDocument.Distinct made ∧
      ∀ item ∈ made, item.Drawn w w.draws (w.draws + made.length) := by
  obtain ⟨made, hmake, hmade, hnumbered⟩ := PresetItem.mapM_make
    (fun p : String × String => .text p.1) (fun p => .text p.2) PresetItem.defaults w
  rw [hmade.length_eq] at hmake hnumbered
  exact ⟨made, _, hmake, hmade, PresetDocument.drawn_of_numbered hsuffix hnumbered⟩

/-- A file without presets is filled with the default ones, unless it cannot be written. -/
theorem opened_of_unfilled (htimed : w.Timed) (hsuffix : Function.Injective w.suffix)
    (h : store.Unfilled w) :
    (∃ fault v, store.load w = .error fault v ∧ store.Stores v []) ∨
      ∃ again v, store.load w = .ok again v ∧ store.Opened w [] again again v := by
  obtain ⟨made, readings, hmake, hmade, hdistinct, hdrawn⟩ := exists_drawn_defaults hsuffix
  have hload : store.load w =
      (do store.write made; return made : Work _) (w.spent readings made.length) := by
    rw [load_of_unfilled h]
    exact Work.bind_of_ok hmake
  have hwritten := (frame_later store).write made (w.spent readings made.length)
  rcases write_cases store made (w.spent readings made.length) with
    ⟨v, hwrite, hfile⟩ | ⟨fault, v, hwrite, hends⟩
  · rw [Work.left_of_ok hwrite] at hwritten
    have hlater : Later w v := ((frame_later store).spent w readings made.length).trans hwritten
    have hafter : ∀ item ∈ made, item.Drawn w w.draws v.draws := fun item hitem =>
      (hdrawn item hitem).mono (Nat.le_refl _) hwritten.draws
    have hidentified : Identified v made := by
      refine ⟨fun item hitem => ?_, fun item hitem => ?_, hdistinct⟩
      · obtain ⟨preset, _, hitem⟩ := exists_of_forall₂ hmade hitem
        exact hitem.readable htimed (.text preset.1) (.text preset.2)
      · exact ((hafter item hitem).of_eq hlater.suffix).mono (Nat.zero_le _) (Nat.le_refl _)
    exact Or.inr ⟨made, v, hload.trans (Work.bind_of_ok hwrite), hlater,
      .filled hfile hidentified, List.forall₂_same.mpr fun item _ => .refl item, hidentified,
      hmade.isWhole, Or.inr ⟨rfl, hafter⟩⟩
  · refine Or.inl ⟨fault, v, hload.trans (Work.bind_of_error hwrite), .unfilled ?_⟩
    rcases hends with hfiles | hemptied
    · unfold Unfilled
      rw [hfiles]
      exact h
    · exact unfilled_of_empty hemptied.file

/-- Loading gives the presets of the file, or fills it. -/
theorem exists_opened (htimed : w.Timed) (hsuffix : Function.Injective w.suffix)
    (h : store.Stores w items) :
    (∃ fault v, store.load w = .error fault v ∧ store.Stores v items) ∨
      ∃ stored again v, store.load w = .ok again v ∧ store.Opened w items stored again v := by
  cases h with
  | unfilled hunfilled =>
    exact (opened_of_unfilled htimed hsuffix hunfilled).imp id fun ⟨again, v, hopened⟩ =>
      ⟨again, again, v, hopened⟩
  | filled hfile hidentified =>
    obtain ⟨again, v, hload, hrereads, hexact, hfiles⟩ :=
      load_of_hasDocument htimed hfile hidentified.readable
    have hlater := (frame_later store).load w
    rw [Work.left_of_ok hload] at hlater
    have hpersists := persists_of_rereads hidentified hrereads
    have hagain := hidentified.of_persists (fun item hitem => (hexact item hitem).readable)
      hpersists
    exact Or.inr ⟨items, again, v, hload, hlater,
      (Stores.filled hfile hidentified).of_files_eq hlater hfiles, hpersists, hagain.later hlater,
      List.all_eq_true.mpr fun item hitem => (hexact item hitem).isWhole, Or.inl rfl⟩

end PresetStore

end LayerBlend
