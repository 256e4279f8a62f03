import LayerBlend.Proofs.Preset.Collapse
import LayerBlend.Proofs.Preset.Importing

/-!
# Imports merge by name and formula

* `PresetStore.Serves` — the file of a store can be read and written, and its presets have texts for
  names and formulas.
* `PresetStore.LeavesFile` — what work makes of such a file, and so every operation
  (`PresetStore.leavesFile_answer`, `PresetStore.leavesFile_run`): the store goes on to serve
  (`PresetStore.serves_run`), and no half of a character comes into an identifier
  (`PresetStore.WholeIds.of_leavesFile`).
* `PresetStore.ImportsMerged` — the presets of a document, made anew, are merged with those of the
  file, or the write fails for the half of a character in a stored identifier
  (`PresetStore.Serves.exists_importsMerged`).
* `PresetStore.importText_merges` — so it is with every document of such presets, a second import of
  it changes no label, and what one store exports every other one imports.
-/

namespace LayerBlend

namespace PresetItem

/-- A preset is readable, and has texts for name and formula. -/
structure Legible (item : PresetItem) : Prop where
  /-- It is readable. -/
  readable : item.Readable
  /-- It has texts for name and formula. -/
  labelled : item.Labelled

/-- Of its parts only the identifier may have half of a character. -/
theorem Legible.isWhole_eq {item : PresetItem} (h : item.Legible) :
    item.isWhole = item.id.isWhole := by
  obtain ⟨name, hname⟩ := h.labelled.name
  obtain ⟨expr, hexpr⟩ := h.labelled.expr
  rw [isWhole, hname, hexpr, Json.isWhole_text, Json.isWhole_text]
  rfl

end PresetItem

namespace PresetStore

variable {store : PresetStore} {w v u : Workspace} {items stored imported : List PresetItem}
  {text : String} {entries : List Json}

/-! ## Files that serve -/

/-- The file of a store can be written and read. It is missing or blank, or it has a text without
infinite times; and if that is a document of presets, these have texts for names and formulas. -/
structure Serves (store : PresetStore) (w : Workspace) : Prop where
  /-- No fault is pending for the next attempts to write. -/
  pending : w.pending = []
  /-- The file can be written. -/
  writable : w.files.Writable store.path
  /-- The clock shows whole parts of doubles. -/
  timed : w.Timed
  /-- The bytes of the file are a text, if it is there. -/
  decodable : w.files.readText store.path ≠ .error .undecodable
  /-- No time is infinite. -/
  bounded : ∀ content, w.files.readText store.path = .ok content →
    Text.blank content.toList = false → ¬ PresetDocument.Endless content
  /-- The presets of the file have texts for names and formulas. -/
  texts : ∀ content entries, w.files.readText store.path = .ok content →
    Text.blank content.toList = false → PresetDocument.Sound content entries →
      PresetDocument.HasTexts content

/-- A file that is missing or blank serves. -/
theorem serves_of_unfilled (hpending : w.pending = []) (hwritable : w.files.Writable store.path)
    (htimed : w.Timed) (h : store.Unfilled w) : store.Serves w := by
  refine ⟨hpending, hwritable, htimed, ?_, ?_, ?_⟩
  · rcases h with hmissing | ⟨s, hs, _⟩
    · rw [hmissing]
      exact fun h => nomatch h
    · rw [hs]
      exact fun h => nomatch h
  · intro content hcontent hblank
    cases hblank.symm.trans (blank_of_unfilled h hcontent)
  · intro content _ hcontent hblank
    cases hblank.symm.trans (blank_of_unfilled h hcontent)

/-- Where no file changes, the store goes on to serve. -/
theorem Serves.of_files_eq (h : store.Serves w) (hlater : Later w v) (hfiles : v.files = w.files) :
    store.Serves v where
  pending := hlater.pending_eq_nil h.pending
  writable := hfiles ▸ h.writable
  timed := hlater.timed h.timed
  decodable := hfiles ▸ h.decodable
  bounded := hfiles ▸ h.bounded
  texts := hfiles ▸ h.texts

theorem Serves.spent (h : store.Serves w) (readings draws : Nat) :
    store.Serves (w.spent readings draws) :=
  h.of_files_eq ((frame_later store).spent w readings draws) rfl

/-- The names and formulas in the document of presets are theirs. -/
theorem hasTexts_of_legible (hlegible : ∀ item ∈ items, item.Legible)
    (hwhole : items.all PresetItem.isWhole = true) :
    PresetDocument.HasTexts (PresetDocument.write items).shown :=
  PresetDocument.hasTexts_write
    (fun item hitem => (hlegible item hitem).readable.exact (List.all_eq_true.mp hwhole item hitem))
    fun item hitem => ⟨(hlegible item hitem).labelled.name, (hlegible item hitem).labelled.expr⟩

/-- A file that is the document of presets with texts serves. -/
theorem serves_of_file (hpending : w.pending = []) (hwritable : w.files.Writable store.path)
    (htimed : w.Timed) (hlegible : ∀ item ∈ items, item.Legible)
    (hfile : store.HasDocument w items) : store.Serves w := by
  have hreadable : ∀ item ∈ items, item.Readable := fun item hitem => (hlegible item hitem).readable
  have hread := hfile.readText hreadable
  refine ⟨hpending, hwritable, htimed, ?_, ?_, ?_⟩
  · rw [hread]
    exact fun h => nomatch h
  · intro content hcontent _
    cases hcontent.symm.trans hread
    exact (PresetDocument.sound_write (hfile.exact hreadable)).not_endless
  · intro content entries hcontent _ _
    cases hcontent.symm.trans hread
    exact hasTexts_of_legible hlegible hfile.isWhole

/-- Presets with texts are written, and then the file is their document, unless an identifier has
half of a character: then the file is left empty. -/
theorem Serves.exists_write (h : store.Serves w) (hlegible : ∀ item ∈ items, item.Legible) :
    (∃ v, store.write items w = .ok () v ∧ store.HasDocument v items) ∨
      (∃ item ∈ items, item.id.isWhole = false) ∧ ∃ fault v,
        store.WriteEmpties w items fault v := by
  rcases write_ends h.pending h.writable items with hwritten | ⟨hhalf, hempties⟩
  · exact Or.inl hwritten
  · obtain ⟨item, hitem, hid⟩ := List.all_eq_false.mp hhalf
    rw [(hlegible item hitem).isWhole_eq, Bool.not_eq_true] at hid
    exact Or.inr ⟨⟨item, hitem, hid⟩, hempties⟩

/-! ## What work leaves in the file -/

/-- What work makes of the file: it is as it was, or the document of presets with texts, or
empty. -/
inductive LeavesFile (store : PresetStore) (w v : Workspace) : Prop where
  /-- No file has changed. -/
  | kept (hfiles : v.files = w.files)
  /-- The file is the document of presets with texts. -/
  | written {items : List PresetItem} (hlegible : ∀ item ∈ items, item.Legible)
      (hfile : store.HasDocument v items)
  /-- Nothing is in the file. -/
  | emptied (hfile : v.files.read store.path = .ok (.text ""))

theorem LeavesFile.trans (h : store.LeavesFile w v) (hnext : store.LeavesFile v u) :
    store.LeavesFile w u := by
  cases hnext with
  | kept hfiles =>
    cases h with
    | kept hbefore => exact .kept (hfiles.trans hbefore)
    | written hlegible hfile =>
      obtain ⟨s, hs, hread⟩ := hfile
      exact .written hlegible ⟨s, hs, hfiles ▸ hread⟩
    | emptied hfile => exact .emptied (hfiles ▸ hfile)
  | written hlegible hfile => exact .written hlegible hfile
  | emptied hfile => exact .emptied hfile

/-- Whatever work leaves in the file, the store goes on to serve. -/
theorem Serves.of_leavesFile (h : store.Serves w) (hlater : Later w v) (hspares : store.Spares w v)
    (hleaves : store.LeavesFile w v) : store.Serves v := by
  have hpending := hlater.pending_eq_nil h.pending
  have hwritable := hspares.alike.writable h.writable
  have htimed := hlater.timed h.timed
  cases hleaves with
  | kept hfiles => exact h.of_files_eq hlater hfiles
  | written hlegible hfile => exact serves_of_file hpending hwritable htimed hlegible hfile
  | emptied hfile => exact serves_of_unfilled hpending hwritable htimed (unfilled_of_empty hfile)

/-- No identifier that stands in the file has half of a character. -/
def WholeIds (store : PresetStore) (w : Workspace) : Prop :=
  ∀ content entries, w.files.readText store.path = .ok content →
    Text.blank content.toList = false → PresetDocument.Sound content entries →
      ∀ entry ∈ entries, ∀ id, PresetItem.truthy? entry "id" = some id → id.isWhole = true

/-- No work brings such an identifier into the file. -/
theorem WholeIds.of_leavesFile (h : store.WholeIds w) (hleaves : store.LeavesFile w v) :
    store.WholeIds v := by
  intro content entries htext hblank hsound entry hentry id hid
  cases hleaves with
  | kept hfiles => exact h content entries (hfiles ▸ htext) hblank hsound entry hentry id hid
  | written hlegible hfile =>
    have hexact := hfile.exact fun item hitem => (hlegible item hitem).readable
    cases htext.symm.trans (hfile.readText fun item hitem => (hlegible item hitem).readable)
    cases hsound.1.unique (PresetDocument.sound_write hexact).1
    obtain ⟨item, hitem, rfl⟩ := List.mem_map.mp hentry
    rw [PresetItem.truthy?_id_toJson] at hid
    split at hid
    · cases hid
      exact (hexact item hitem).id.isWhole
    · cases hid
  | emptied hfile => cases hblank.symm.trans (blank_of_unfilled (unfilled_of_empty hfile) htext)

/-- The file has no such identifier when none is loaded from it. -/
theorem wholeIds_of_load (h : ∀ items v, store.load w = .ok items v →
    ∀ item ∈ items, item.id.isWhole = true) : store.WholeIds w := by
  intro content entries htext hblank hsound entry hentry id hid
  obtain ⟨items, v, hload, hdecodes, _⟩ := load_of_sound htext hblank hsound
  obtain ⟨item, hitem, hdecode⟩ := exists_of_forall₂ hdecodes.flip hentry
  rcases hdecode.id with hsame | ⟨hnone, _⟩
  · cases hid.symm.trans hsame
    exact h items v hload item hitem
  · cases hid.symm.trans hnone

/-- And then none is ever loaded. -/
theorem WholeIds.load (h : store.WholeIds w) (hserves : store.Serves w)
    (hload : store.load w = .ok items v) : ∀ item ∈ items, item.id.isWhole = true := by
  intro item hitem
  rcases load_cases hserves.pending hserves.writable with
    ⟨fault, u, hfails, _⟩ | ⟨found, u, hfound, hloaded⟩
  · cases hload.symm.trans hfails
  · cases hload.symm.trans hfound
    cases hloaded with
    | refilled hmade =>
      obtain ⟨preset, _, hmade⟩ := exists_of_forall₂ hmade hitem
      obtain ⟨n, k, hid⟩ := hmade.id
      rw [hid, Json.isWhole_text]
      rfl
    | read htext hblank hsound hdecodes =>
      obtain ⟨entry, hentry, hdecode⟩ := exists_of_forall₂ hdecodes hitem
      rcases hdecode.id with hid | ⟨_, n, k, hid⟩
      · exact h _ _ htext hblank hsound entry hentry _ hid
      · rw [hid, Json.isWhole_text]
        rfl

/-- What is made with texts has texts. -/
theorem legible_of_made (htimed : w.Timed) {name expr : Json} {item : PresetItem}
    (h : PresetItem.Made w name expr item) (hname : ∃ s : String, name = .text s)
    (hexpr : ∃ s : String, expr = .text s) : item.Legible := by
  obtain ⟨s, rfl⟩ := hname
  obtain ⟨t, rfl⟩ := hexpr
  exact ⟨h.readable htimed (.text s) (.text t), ⟨⟨s, h.name⟩, ⟨t, h.expr⟩⟩⟩

/-- The default presets have texts. -/
theorem legible_of_defaultsMade (htimed : w.Timed) (h : PresetItem.DefaultsMade w items) :
    ∀ item ∈ items, item.Legible := by
  intro item hitem
  obtain ⟨preset, _, hmade⟩ := exists_of_forall₂ h hitem
  exact legible_of_made htimed hmade ⟨preset.1, rfl⟩ ⟨preset.2, rfl⟩

/-- A name and a formula in a document with texts are texts. -/
theorem texts_of_hasFields (htexts : PresetDocument.HasTexts text)
    (hshaped : PresetDocument.Shaped text entries) {entry name expr : Json}
    (hentry : entry ∈ entries) (h : PresetItem.HasFields entry name expr) :
    (∃ s : String, name = .text s) ∧ ∃ s : String, expr = .text s := by
  obtain ⟨hnames, hexprs⟩ :=
    htexts entries (PresetDocument.entriesOf_of_shaped hshaped) entry hentry
  obtain ⟨formula, hformula, hexpr⟩ := h.expr
  exact ⟨hnames name (PresetItem.fieldOf_of_some h.name),
    hexprs formula expr (PresetItem.fieldOf_of_some hformula) (PresetItem.fieldOf_of_some hexpr)⟩

/-- What loading gives has texts, and the store goes on to serve. -/
theorem Serves.load (h : store.Serves w) :
    ∃ items v, store.load w = .ok items v ∧ (∀ item ∈ items, item.Legible) ∧ store.Serves v ∧
      store.LeavesFile w v := by
  rcases load_cases h.pending h.writable with
    ⟨fault, v, _, hbarred, _⟩ | ⟨items, v, hload, hloaded⟩
  · cases hbarred with
    | garbled hgarbled => exact absurd hgarbled h.decodable
    | endless htext hblank hendless => exact absurd hendless (h.bounded _ htext hblank)
  have hlater := (frame_later store).load w
  have hspares := (frame_spares store).load w
  rw [Work.left_of_ok hload] at hlater hspares
  have hlegible : ∀ item ∈ items, item.Legible := by
    intro item hitem
    cases hloaded with
    | refilled hmade => exact legible_of_defaultsMade h.timed hmade item hitem
    | @read content entries htext hblank hsound hdecodes =>
      have hreadable := PresetItem.readable_of_forall₂_decodes h.timed hsound.1.readable hdecodes
      obtain ⟨entry, hentry, hdecode⟩ := exists_of_forall₂ hdecodes hitem
      obtain ⟨hname, hexpr⟩ :=
        texts_of_hasFields (h.texts _ _ htext hblank hsound) hsound.1 hentry hdecode.fields
      exact ⟨hreadable item hitem, ⟨hname, hexpr⟩⟩
  have hleaves : store.LeavesFile w v := by
    cases hloaded with
    | refilled _ hfile => exact .written hlegible hfile
    | read _ _ _ _ hfiles => exact .kept hfiles
  exact ⟨items, v, hload, hlegible, h.of_leavesFile hlater hspares hleaves, hleaves⟩

/-! ## Merging imports -/

/-- An import merges the presets of a document, made anew, with those of the file. -/
structure ImportsMerged (store : PresetStore) (text : String) (entries : List Json) (w : Workspace)
    (stored imported after : List PresetItem) (v : Workspace) : Prop where
  /-- The presets of the file are loaded after each entry was made anew with a draw of its own. -/
  load : ∃ readings first u,
    store.load (w.spent readings (first + imported.length)) = .ok stored u ∧
    List.Forall₂ (PresetItem.Numbered w) (List.range' (w.draws + first) imported.length) imported
  /-- Name and formula are those of the entries. -/
  renewed : List.Forall₂ (Renewed w) entries imported
  /-- Of each name and formula one preset is left. -/
  merges : PresetDocument.Merges stored imported after
  /-- These presets are the answer. -/
  answer : store.importText text w = .ok after v
  /-- The file is their document. -/
  file : store.HasDocument v after

/-- An import fails as it cannot write what it has merged: an identifier of a stored preset that is
left has half of a character. -/
structure ImportsHalved (store : PresetStore) (text : String) (entries : List Json) (w : Workspace)
    (stored imported : List PresetItem) (fault : Fault) (v : Workspace) : Prop where
  /-- The presets of the file are loaded. -/
  load : ∃ readings draws u, store.load (w.spent readings draws) = .ok stored u
  /-- Each entry is made anew. -/
  renewed : List.Forall₂ (Renewed w) entries imported
  /-- An identifier among those that are left has half of a character. -/
  half : ∃ item ∈ PresetDocument.collapse (stored ++ imported),
    item ∈ stored ∧ item.id.isWhole = false
  /-- The import fails. -/
  answer : store.importText text w = .error fault v
  /-- The fault is that of the encoding, if the store does not try again after it. -/
  fault : store.policy.retryOn .unencodable = false → fault = .unencodable
  /-- The file is left empty. -/
  file : v.files.read store.path = .ok (.text "")

/-- What is made anew of the entries of a document with texts has texts. -/
theorem legible_of_renewed (htimed : w.Timed) (htexts : PresetDocument.HasTexts text)
    (hshaped : PresetDocument.Shaped text entries)
    (h : List.Forall₂ (Renewed w) entries imported) : ∀ item ∈ imported, item.Legible := by
  intro item hitem
  obtain ⟨entry, hentry, name, expr, hfields, hmade⟩ := exists_of_forall₂ h hitem
  obtain ⟨hname, hexpr⟩ := texts_of_hasFields htexts hshaped hentry hfields
  exact legible_of_made htimed hmade hname hexpr

/-- A document of presets with texts is imported, unless a stored identifier cannot be written. -/
theorem Serves.exists_importsMerged (h : store.Serves w)
    (hsound : PresetDocument.Sound text entries) (htexts : PresetDocument.HasTexts text) :
    (∃ stored imported after v, store.ImportsMerged text entries w stored imported after v ∧
      ∀ item ∈ after, item.Legible) ∨
    ∃ stored imported fault v, store.ImportsHalved text entries w stored imported fault v := by
  obtain ⟨imported, readings, first, himport, hrenewed, hnumbered⟩ := exists_renewed hsound store w
  obtain ⟨stored, u, hload, hstored, hu, _⟩ := (h.spent readings (first + imported.length)).load
  have himported := legible_of_renewed h.timed htexts hsound.1 hrenewed
  have hall : ∀ item ∈ stored ++ imported, item.Legible :=
    List.forall_mem_append.mpr ⟨hstored, himported⟩
  have hlabelled : ∀ item ∈ stored ++ imported, item.Labelled :=
    fun item hitem => (hall item hitem).labelled
  have hmerge := PresetDocument.merge_of_texts fun item hitem =>
    ⟨(hlabelled item hitem).name, (hlabelled item hitem).expr⟩
  have hafter : ∀ item ∈ PresetDocument.collapse (stored ++ imported), item.Legible :=
    fun item hitem => hall item (PresetDocument.mem_of_mem_collapse hitem)
  have hwrites : store.importText text w = (do
      store.write (PresetDocument.collapse (stored ++ imported))
      return PresetDocument.collapse (stored ++ imported) : Work _) u := by
    rw [himport, Work.bind_of_ok hload, hmerge]
    rfl
  rcases hu.exists_write hafter with
    ⟨v, hwrite, hfile⟩ | ⟨⟨item, hitem, hid⟩, fault, v, hempties⟩
  · exact Or.inl ⟨stored, imported, _, v, ⟨⟨readings, first, u, hload, hnumbered⟩, hrenewed,
      PresetDocument.merges_collapse hlabelled, hwrites.trans (Work.bind_of_ok hwrite), hfile⟩,
      hafter⟩
  · refine Or.inr ⟨stored, imported, fault, v, ⟨readings, _, u, hload⟩, hrenewed,
      ⟨item, hitem, ?_, hid⟩, hwrites.trans (Work.bind_of_error hempties.answer),
      hempties.fault, hempties.file⟩
    -- the identifiers of imported presets are made here
    refine (List.mem_append.mp (PresetDocument.mem_of_mem_collapse hitem)).resolve_right ?_
    intro hnew
    obtain ⟨_, _, _, _, _, hmade⟩ := exists_of_forall₂ hrenewed hnew
    obtain ⟨n, k, heq⟩ := hmade.id
    rw [heq, Json.isWhole_text] at hid
    cases hid

/-- An entry has one name and one formula, and so all that is made anew of it has one label. -/
theorem map_label_of_renewed {others : List PresetItem}
    (h : List.Forall₂ (Renewed w) entries imported)
    (hothers : List.Forall₂ (Renewed v) entries others) :
    others.map PresetItem.label = imported.map PresetItem.label := by
  induction h generalizing others with
  | nil =>
    cases hothers
    rfl
  | cons hitem _ ih =>
    cases hothers with
    | cons hother hothers =>
      obtain ⟨name, expr, hfields, hmade⟩ := hitem
      obtain ⟨name', expr', hfields', hmade'⟩ := hother
      obtain ⟨formula, hformula, hexpr⟩ := hfields.expr
      obtain ⟨formula', hformula', hexpr'⟩ := hfields'.expr
      cases hfields.name.symm.trans hfields'.name
      cases hformula.symm.trans hformula'
      cases hexpr.symm.trans hexpr'
      rw [List.map_cons, List.map_cons, ih hothers, PresetItem.label, PresetItem.label, hmade.name,
        hmade.expr, hmade'.name, hmade'.expr]

/-- What is read again has the labels that were written. -/
theorem map_label_of_rereads {again : List PresetItem}
    (h : List.Forall₂ PresetItem.Rereads items again) :
    again.map PresetItem.label = items.map PresetItem.label := by
  induction h with
  | nil => rfl
  | cons hitem _ ih =>
    rw [List.map_cons, List.map_cons, ih, PresetItem.label, PresetItem.label, hitem.name,
      hitem.expr]

/-- A second import of a document changes no label. -/
theorem ImportsMerged.labels_again {after again others last : List PresetItem} {u : Workspace}
    (h : store.ImportsMerged text entries w stored imported after v)
    (hnext : store.ImportsMerged text entries v again others last u) (hv : store.Serves v)
    (hafter : ∀ item ∈ after, item.Legible) :
    last.map PresetItem.label = after.map PresetItem.label := by
  obtain ⟨readings, first, _, hload, _⟩ := hnext.load
  obtain ⟨reread, _, hreload, hrereads, _⟩ := load_of_hasDocument
    (hv.spent readings (first + others.length)).timed h.file
    fun item hitem => (hafter item hitem).readable
  cases hload.symm.trans hreload
  exact h.merges.labels_again hnext.merges (map_label_of_rereads hrereads)
    (map_label_of_renewed h.renewed hnext.renewed)

/-- What was written once can be written again. -/
theorem ImportsMerged.not_halved {after again others : List PresetItem} {fault : Fault}
    {u : Workspace} (h : store.ImportsMerged text entries w stored imported after v)
    (hv : store.Serves v) (hafter : ∀ item ∈ after, item.Legible) :
    ¬ store.ImportsHalved text entries v again others fault u := by
  intro hhalved
  obtain ⟨readings, draws, _, hload⟩ := hhalved.load
  obtain ⟨reread, _, hreload, _, hexact, _⟩ := load_of_hasDocument (hv.spent readings draws).timed
    h.file fun item hitem => (hafter item hitem).readable
  cases hload.symm.trans hreload
  obtain ⟨item, _, hitem, hid⟩ := hhalved.half
  rw [(hexact item hitem).id.isWhole] at hid
  cases hid

/-! ## Many operations -/

/-- Work that goes on with what was loaded leaves in the file what the rest leaves. -/
theorem Serves.leaves_load_bind {α : Type} {f : List PresetItem → Work α} (h : store.Serves w)
    (hf : ∀ items v, (∀ item ∈ items, item.Legible) → store.Serves v →
      store.LeavesFile v ((f items).left v)) : store.LeavesFile w ((store.load >>= f).left w) := by
  obtain ⟨items, v, hload, hlegible, hv, hleaves⟩ := h.load
  rw [Work.left, Work.bind_of_ok hload]
  exact hleaves.trans (hf items v hlegible hv)

/-- Presets with texts are written and given back. -/
theorem Serves.leaves_write (h : store.Serves w) (hlegible : ∀ item ∈ items, item.Legible) :
    store.LeavesFile w ((do store.write items; return items : Work _).left w) := by
  rcases h.exists_write hlegible with ⟨v, hwrite, hfile⟩ | ⟨_, fault, v, hempties⟩
  · rw [Work.left, Work.bind_of_ok hwrite]
    exact .written hlegible hfile
  · rw [Work.left, Work.bind_of_error hempties.answer]
    exact .emptied hempties.file

/-- An import leaves presets with texts in the file, whether it is refused or not. -/
theorem Serves.leaves_importText (h : store.Serves w) (htexts : PresetDocument.HasTexts text) :
    store.LeavesFile w ((store.importText text).left w) := by
  by_cases hsound : ∃ entries, PresetDocument.Sound text entries
  · obtain ⟨entries, hsound⟩ := hsound
    rcases h.exists_importsMerged hsound htexts with
      ⟨_, _, _, v, himport, hlegible⟩ | ⟨_, _, _, v, himport⟩
    · rw [Work.left_of_ok himport.answer]
      exact .written hlegible himport.file
    · rw [Work.left_of_error himport.answer]
      exact .emptied himport.file
  · have himports := imports_of_unsound hsound store w
    rw [Work.left]
    generalize store.importText text w = result at himports ⊢
    cases himports with
    | merged hthere => exact absurd ⟨_, hthere⟩ hsound
    | refused _ _ hfiles => exact .kept hfiles
    | endless _ hfiles => exact .kept hfiles
    | barred hthere => exact absurd ⟨_, hthere⟩ hsound
    | unkeyed hthere => exact absurd ⟨_, hthere⟩ hsound
    | unencodable hthere => exact absurd ⟨_, hthere⟩ hsound

/-- Every operation leaves presets with texts in the file. -/
theorem leavesFile_answer {request : PresetRequest} (h : store.Serves w)
    (htexts : request.HasTexts) : store.LeavesFile w (store.answer request w).2 := by
  rw [answer_snd]
  cases request with
  | load =>
    rw [perform, Work.left_map]
    obtain ⟨items, v, hload, _, _, hleaves⟩ := h.load
    rwa [Work.left_of_ok hload]
  | save name expr =>
    rw [perform, Work.left_map]
    refine h.leaves_load_bind fun items v hlegible hv => ?_
    have hmade := legible_of_made hv.timed
      (PresetItem.made_madeIn v (.text name) (.text expr)) ⟨name, rfl⟩ ⟨expr, rfl⟩
    have hall := List.forall_mem_append.mpr ⟨hlegible, List.forall_mem_singleton.mpr hmade⟩
    have hspent : store.LeavesFile v (v.spent 2 1) := .kept rfl
    rw [Work.left, Work.bind_of_ok (PresetItem.make_apply (.text name) (.text expr) v)]
    exact hspent.trans ((hv.spent 2 1).leaves_write hall)
  | delete id =>
    rw [perform, Work.left_map]
    exact h.leaves_load_bind fun items v hlegible hv => hv.leaves_write fun item hitem =>
      hlegible item (List.mem_of_mem_filter hitem)
  | exportText =>
    rw [perform, Work.left_map]
    exact h.leaves_load_bind fun items v _ hv => .kept rfl
  | importText text =>
    rw [perform, Work.left_map]
    exact h.leaves_importText htexts
  | find name =>
    rw [perform, Work.left_map]
    refine h.leaves_load_bind fun items v _ hv => ?_
    cases items.find? fun item => item.name.same (.text name) <;> exact .kept rfl

/-- Every operation keeps the store serving. -/
theorem serves_answer {request : PresetRequest} (h : store.Serves w) (htexts : request.HasTexts) :
    store.Serves (store.answer request w).2 :=
  h.of_leavesFile ((frame_later store).answer request w) ((frame_spares store).answer request w)
    (leavesFile_answer h htexts)

/-- Operations one after the other keep the store serving. -/
theorem serves_run {requests : List PresetRequest} (h : store.Serves w)
    (htexts : ∀ request ∈ requests, request.HasTexts) :
    store.Serves (store.run requests w).2 := by
  induction requests generalizing w with
  | nil => exact h
  | cons request requests ih =>
    rw [List.forall_mem_cons] at htexts
    rw [run_cons]
    exact ih (serves_answer h htexts.1) htexts.2

/-- Whatever was in the file, operations leave presets with texts in it. -/
theorem leavesFile_run {requests : List PresetRequest} (h : store.Serves w)
    (htexts : ∀ request ∈ requests, request.HasTexts) :
    store.LeavesFile w (store.run requests w).2 := by
  induction requests generalizing w with
  | nil => exact .kept rfl
  | cons request requests ih =>
    rw [List.forall_mem_cons] at htexts
    rw [run_cons]
    exact (leavesFile_answer h htexts.1).trans (ih (serves_answer h htexts.1) htexts.2)

/-- Every store that serves imports a text, unless one of its own identifiers cannot be written, and
none at all refuses it as no document. -/
structure Importable (text : String) : Prop where
  /-- A store that serves imports the text. -/
  imported : ∀ (store : PresetStore) w, store.Serves w →
    (∃ items v, store.importText text w = .ok items v) ∨
      ∃ entries stored imported fault v,
        store.ImportsHalved text entries w stored imported fault v
  /-- The text is a document of presets. -/
  read : ∀ w, ∃ items v, PresetDocument.read text w = .ok items v
  /-- No store refuses the text, whatever else keeps it from the import. -/
  accepted : ∀ (store : PresetStore) w, w.pending = [] → w.files.Writable store.path →
    store.policy.retryOn .unencodable = false →
      ∀ cause v, store.importText text w ≠ .error (.document cause) v

/-- The document of presets with texts can be imported. -/
theorem importable_write (h : ∀ item ∈ items, item.Legible)
    (hwhole : items.all PresetItem.isWhole = true) :
    Importable (PresetDocument.write items).shown := by
  have hsound := PresetDocument.sound_write fun item hitem =>
    (h item hitem).readable.exact (List.all_eq_true.mp hwhole item hitem)
  refine ⟨fun store w hserves => ?_, fun w => ?_,
    fun store w hpending hwritable hretry cause v => ?_⟩
  · rcases hserves.exists_importsMerged hsound (hasTexts_of_legible h hwhole) with
      ⟨_, _, after, v, himport, _⟩ | ⟨_, _, _, _, himport⟩
    · exact Or.inl ⟨after, v, himport.answer⟩
    · exact Or.inr ⟨_, _, _, _, _, himport⟩
  · obtain ⟨items, _, _, hread, _⟩ := hsound.exists_read w
    exact ⟨items, _, hread⟩
  · intro hrefused
    have himports := imports_of_sound hsound store hpending hwritable
    rw [hrefused] at himports
    cases himports with
    | refused hnone => exact hnone ⟨_, hsound⟩
    | barred _ hbarred => cases hbarred
    | unencodable _ _ _ _ _ _ hfault => cases hfault hretry

/-- A document of presets with texts for names and formulas is merged with whatever such presets a
file holds: of each name and formula the last preset is left, where the first one was, and the
imported ones are made anew. To import the document again changes neither which names and formulas
there are nor their order. Only where a stored identifier that is left has half of a character the
write fails. And whatever operations a store has gone through, what it exports can be imported: it
is a text as any other, unless an identifier has half of a character, and none has unless one that
was stored at first has. -/
theorem importText_merges (store : PresetStore) (w : Workspace) (hserves : store.Serves w) :
    (∀ text entries, PresetDocument.Sound text entries → PresetDocument.HasTexts text →
      (∃ stored imported after v, store.ImportsMerged text entries w stored imported after v ∧
        ∃ again others last u, store.ImportsMerged text entries v again others last u ∧
          last.map PresetItem.label = after.map PresetItem.label) ∨
      ∃ stored imported fault v, store.ImportsHalved text entries w stored imported fault v) ∧
    ∀ requests, (∀ request ∈ requests, PresetRequest.HasTexts request) →
      ∃ items u, store.exportText (store.run requests w).2 = .ok (PresetDocument.write items) u ∧
        ((∀ item ∈ items, item.id.isWhole = true) → ∃ text,
          PresetDocument.write items = .whole text ∧ Importable text) ∧
        ((∀ stored v, store.load w = .ok stored v → ∀ item ∈ stored, item.id.isWhole = true) →
          ∀ item ∈ items, item.id.isWhole = true) := by
  refine ⟨fun text entries hsound htexts => ?_, fun requests hrequests => ?_⟩
  · rcases hserves.exists_importsMerged hsound htexts with
      ⟨stored, imported, after, v, himport, hafter⟩ | ⟨stored, imported, fault, v, himport⟩
    · have hv : store.Serves v := by
        have hrequest : (PresetRequest.importText text).HasTexts := htexts
        have hleft := serves_answer hserves hrequest
        rwa [answer_snd, perform, Work.left_map, Work.left_of_ok himport.answer] at hleft
      rcases hv.exists_importsMerged hsound htexts with
        ⟨again, others, last, u, hnext, _⟩ | ⟨again, others, fault, u, hhalved⟩
      · exact Or.inl ⟨stored, imported, after, v, himport, again, others, last, u, hnext,
          himport.labels_again hnext hv hafter⟩
      · exact absurd hhalved (himport.not_halved hv hafter)
    · exact Or.inr ⟨stored, imported, fault, v, himport⟩
  · have hafter := serves_run hserves hrequests
    obtain ⟨items, u, hload, hlegible, _⟩ := hafter.load
    refine ⟨items, u, Work.map_of_ok hload, fun hids => ?_, fun hstored => ?_⟩
    · have hwhole : items.all PresetItem.isWhole = true :=
        List.all_eq_true.mpr fun item hitem =>
          (hlegible item hitem).isWhole_eq.trans (hids item hitem)
      obtain ⟨text, htext⟩ := PresetDocument.write_eq_whole_iff.mpr hwhole
      have himportable := importable_write hlegible hwhole
      rw [htext] at himportable
      exact ⟨text, htext, himportable⟩
    · have hids := (wholeIds_of_load hstored).of_leavesFile (leavesFile_run hserves hrequests)
      exact hids.load hafter hload

theorem sound_otherText : PresetDocument.Sound otherText [otherPreset.toJson] :=
  PresetDocument.sound_write fun item hitem => (plain_otherPreset item hitem).exact

/-- A preset is imported into a missing file, and one that is saved is exported. -/
theorem importText_merges_bare : bareStore.Serves bareWorkspace ∧
    (∃ stored imported after v, bareStore.ImportsMerged otherText [otherPreset.toJson] bareWorkspace
      stored imported after v) ∧
    ∃ items u, bareStore.exportText (bareStore.run [.save "a" "b"] bareWorkspace).2 =
        .ok (PresetDocument.write items) u ∧
      ∃ text, PresetDocument.write items = .whole text ∧ Importable text := by
  have hserves : bareStore.Serves bareWorkspace :=
    serves_of_unfilled rfl works_bare.writable works_bare.clock.timed unfilled_bare
  obtain ⟨himports, hexports⟩ := importText_merges bareStore bareWorkspace hserves
  obtain ⟨items, u, hexport, himportable, hids⟩ :=
    hexports [.save "a" "b"] (List.forall_mem_singleton.mpr trivial)
  -- the default presets have identifiers that were made here
  have hwhole : ∀ readings draws stored u,
      bareStore.load (bareWorkspace.spent readings draws) = .ok stored u →
        ∀ item ∈ stored, item.id.isWhole = true := by
    intro readings draws stored u hload item hitem
    have hall := (exists_of_load_bare hload).1.isWhole
    exact (PresetItem.isWhole_iff.mp (List.all_eq_true.mp hall item hitem)).2.2
  refine ⟨hserves, ?_, items, u, hexport, himportable (hids (hwhole 0 0))⟩
  rcases himports _ _ sound_otherText hasTexts_otherText with
    ⟨stored, imported, after, v, himport, _⟩ | ⟨stored, imported, fault, v, himport⟩
  · exact ⟨stored, imported, after, v, himport⟩
  · obtain ⟨readings, draws, u, hload⟩ := himport.load
    obtain ⟨item, _, hitem, hid⟩ := himport.half
    rw [hwhole readings draws stored u hload item hitem] at hid
    cases hid

end PresetStore

end LayerBlend
