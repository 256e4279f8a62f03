import LayerBlend.Preset.Document
import LayerBlend.Proofs.Preset.Item

/-!
# Documents of presets that are written and read

* `PresetDocument.read_write` — the document of plain presets is read as the presets, and nothing
  is spent.
* `PresetDocument.blank_write`, `PresetDocument.text?_write` — it is not blank, and reading it from
  a file leaves its line ends as they are.
* `PresetDocument.merge_of_texts` — presets with texts for names and formulas can be merged.
-/

namespace LayerBlend.PresetDocument

variable {items : List PresetItem}

/-- Reading a document spends no more than what its entries lack. -/
theorem onlySpends_read (text : String) : (read text).OnlySpends :=
  (Work.onlySpends_ofExcept _).bind fun entries =>
    Work.OnlySpends.mapM PresetItem.onlySpends_ofJson entries

/-- The document of readable presets is readable. -/
theorem readable_toJson (h : ∀ item ∈ items, item.Readable) : (toJson items).Readable := by
  have hitems : (Json.list (items.map PresetItem.toJson)).Readable := by
    refine .list fun entry hentry => ?_
    obtain ⟨item, hitem, rfl⟩ := List.mem_map.mp hentry
    exact (h item hitem).toJson
  have hversion : (Json.int version).Readable := .int (Nat.one_lt_pow (by decide) (by decide))
  refine .object (by simp) fun field hfield => ?_
  simp only [List.mem_cons, List.not_mem_nil, or_false] at hfield
  rcases hfield with rfl | rfl
  · exact hversion
  · exact hitems

/-- The document of presets has half of a character exactly when one of them has. -/
theorem isWhole_write (items : List PresetItem) :
    (write items).isWhole = items.all PresetItem.isWhole := by
  have hversion : (Json.int version).isWhole = true := rfl
  rw [write, Json.isWhole_write]
  simp [toJson, Json.isWhole_object, Json.isWhole_list, hversion, JsonText.isWhole,
    Function.comp_def, PresetItem.isWhole_toJson]

/-- The document of presets is a text as any other exactly when none of them has half of a
character. -/
theorem write_eq_whole_iff :
    (∃ text, write items = .whole text) ↔ items.all PresetItem.isWhole = true := by
  rw [← isWhole_write]
  constructor
  · rintro ⟨text, htext⟩
    rw [htext]
    rfl
  · intro hwhole
    exact ⟨_, JsonText.eq_whole hwhole⟩

/-- The document of presets that are read back as they are written is exact. -/
theorem exact_toJson (h : ∀ item ∈ items, item.Exact) : (toJson items).Exact := by
  refine Json.exact_of_readable (readable_toJson fun item hitem => (h item hitem).readable) ?_
  rw [← Json.isWhole_write, ← write, isWhole_write, List.all_eq_true]
  exact fun item hitem => (h item hitem).isWhole

/-- It is a text as any other. -/
theorem write_of_exact (h : ∀ item ∈ items, item.Exact) :
    write items = .whole (write items).shown :=
  Json.write_of_isWhole (exact_toJson h).isWhole

/-- And it is read as the value that is written. -/
theorem json_write (h : ∀ item ∈ items, item.Exact) :
    Json.read (write items).shown = some (toJson items) :=
  Json.read_write (exact_toJson h)

/-- The entries of such a document are found. -/
theorem entriesOf_write (h : ∀ item ∈ items, item.Exact) :
    entriesOf (write items).shown = .ok (items.map PresetItem.toJson) := by
  rw [entriesOf, json_write h]
  rfl

/-- The entries of plain presets are read one after the other. -/
theorem mapM_ofJson (h : ∀ item ∈ items, item.Plain) :
    (items.map PresetItem.toJson).mapM PresetItem.ofJson = (pure items : Work _) := by
  induction items with
  | nil => rfl
  | cons item items ih =>
    rw [List.forall_mem_cons] at h
    rw [List.map_cons, List.mapM_cons, h.1.ofJson_toJson, ih h.2]
    rfl

/-- The document of plain presets is read as the presets, and nothing is spent. -/
theorem read_write (h : ∀ item ∈ items, item.Plain) : read (write items).shown = pure items := by
  rw [read, entriesOf_write fun item hitem => (h item hitem).exact]
  exact mapM_ofJson h

/-- A document that is written is not blank. -/
theorem blank_write (items : List PresetItem) :
    Text.blank (write items).shown.toList = false := by
  rw [write, Json.shown_write, String.toList_ofList]
  rfl

/-- A document that is written has newlines for its only line ends. -/
theorem text?_write (h : ∀ item ∈ items, item.Exact) :
    (FileContent.text (write items).shown).text? = some (write items).shown := by
  have hreturn : '\r' ∉ (write items).shown.toList := by
    rw [write, Json.shown_write, String.toList_ofList]
    exact Json.Writer.return_notMem_value (exact_toJson h) 0
  rw [FileContent.text?, Text.unifyLineEnds_of_notMem hreturn, String.ofList_toList]

/-! ## Merging -/

/-- Texts for names and formulas can be compared. -/
theorem all_hasKey_of_texts
    (h : ∀ item ∈ items, (∃ s : String, item.name = .text s) ∧ ∃ s : String, item.expr = .text s) :
    items.all hasKey = true := by
  refine List.all_eq_true.mpr fun item hitem => ?_
  obtain ⟨⟨name, hname⟩, ⟨expr, hexpr⟩⟩ := h item hitem
  rw [hasKey, hname, hexpr]
  rfl

/-- Presets with texts for names and formulas can be merged. -/
theorem merge_of_texts {stored imported : List PresetItem}
    (h : ∀ item ∈ stored ++ imported,
      (∃ s : String, item.name = .text s) ∧ ∃ s : String, item.expr = .text s) :
    merge stored imported = .ok (collapse (stored ++ imported)) := by
  rw [merge, if_pos (all_hasKey_of_texts h)]

/-- Adding a preset puts it in, and leaves no others than were there. -/
theorem mem_insert {item other : PresetItem} (h : other ∈ insert items item) :
    other = item ∨ other ∈ items := by
  unfold insert at h
  split at h
  · obtain ⟨old, hold, rfl⟩ := List.mem_map.mp h
    split
    · exact Or.inl rfl
    · exact Or.inr hold
  · rcases List.mem_append.mp h with h | h
    · exact Or.inr h
    · exact Or.inl (List.mem_singleton.mp h)

/-- What is added is there. -/
theorem mem_insert_self (items : List PresetItem) (item : PresetItem) :
    item ∈ insert items item := by
  unfold insert
  split
  · next hthere =>
    obtain ⟨other, hother, hsame⟩ := List.any_eq_true.mp hthere
    exact List.mem_map.mpr ⟨other, hother, if_pos hsame⟩
  · exact List.mem_append.mpr (Or.inr (List.mem_singleton_self item))

/-- The last of some presets is left when they are collapsed. -/
theorem mem_collapse_concat (items : List PresetItem) (item : PresetItem) :
    item ∈ collapse (items ++ [item]) := by
  rw [collapse, List.foldl_append]
  exact mem_insert_self _ item

/-- Collapsing leaves no others than were there. -/
theorem mem_of_mem_collapse {other : PresetItem} (h : other ∈ collapse items) : other ∈ items := by
  -- the induction carries the presets that are kept so far
  have hfold : ∀ kept : List PresetItem, other ∈ items.foldl insert kept →
      other ∈ kept ∨ other ∈ items := by
    clear h
    induction items with
    | nil => exact fun kept h => Or.inl h
    | cons item items ih =>
      intro kept h
      rcases ih (insert kept item) h with h | h
      · rcases mem_insert h with rfl | h
        · exact Or.inr List.mem_cons_self
        · exact Or.inl h
      · exact Or.inr (List.mem_cons_of_mem _ h)
  exact (hfold [] h).resolve_left List.not_mem_nil

end LayerBlend.PresetDocument
