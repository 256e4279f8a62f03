import Mathlib.Data.List.Induction
import Mathlib.Data.List.Nodup
import LayerBlend.Proofs.Json.Sameness
import LayerBlend.Proofs.Preset.Document

/-!
# Presets with the same name and formula become one

Each preset has a key, such as its label, and presets with the same key are taken for the same.

* `PresetDocument.Keyed` — a key tells the presets of a list apart.
* `PresetDocument.map_collapse` — of each key one preset is left, in the order in which the keys
  first appear, and no key is left twice (`PresetDocument.nodup_collapse`).
* `PresetDocument.getLast?_of_mem_collapse` — the one that is left is the last with its key.
* `PresetItem.label`, `PresetDocument.keyed_label` — name and formula are such a key where both are
  texts.
* `PresetDocument.Merges` — what becomes of stored presets and imported ones.
-/

namespace LayerBlend

namespace PresetDocument

variable {κ : Type} {key : PresetItem → κ} {items others : List PresetItem} {a item : PresetItem}

/-- Two presets of a list have the same name and formula when they have the same key. -/
def Keyed (key : PresetItem → κ) (items : List PresetItem) : Prop :=
  ∀ a ∈ items, ∀ b ∈ items, sameKey a b = true ↔ key a = key b

theorem Keyed.mono (h : Keyed key items) (hsub : ∀ item ∈ others, item ∈ items) :
    Keyed key others :=
  fun a ha b hb => h a (hsub a ha) b (hsub b hb)

/-- Collapsing goes through the presets from the first to the last. -/
theorem collapse_concat (items : List PresetItem) (a : PresetItem) :
    collapse (items ++ [a]) = insert (collapse items) a := by
  rw [collapse, List.foldl_append]
  rfl

/-! ## One step -/

variable (hkeyed : Keyed key (items ++ [a]))

include hkeyed

/-- A preset has a place in a list when its key is there. -/
theorem any_sameKey : items.any (sameKey a) = true ↔ key a ∈ items.map key := by
  simp only [List.any_eq_true, List.mem_map]
  constructor
  · rintro ⟨other, hother, hsame⟩
    have hkey := (hkeyed a (by simp) other (by simp [hother])).mp hsame
    exact ⟨other, hother, hkey.symm⟩
  · rintro ⟨other, hother, hkey⟩
    exact ⟨other, hother, (hkeyed a (by simp) other (by simp [hother])).mpr hkey.symm⟩

/-- A preset is put where its key is, and at the end where it is not there. -/
theorem map_insert [BEq κ] [LawfulBEq κ] : (insert items a).map key =
    if key a ∈ items.map key then items.map key else items.map key ++ [key a] := by
  unfold insert
  by_cases hthere : key a ∈ items.map key
  · rw [if_pos ((any_sameKey hkeyed).mpr hthere), if_pos hthere, List.map_map]
    apply List.map_congr_left
    intro other hother
    by_cases hsame : sameKey a other = true
    · have hkey := (hkeyed a (by simp) other (by simp [hother])).mp hsame
      simp [hsame, hkey]
    · simp [hsame]
  · rw [if_neg (mt (any_sameKey hkeyed).mp hthere), if_neg hthere]
    simp

/-- A preset that is left after one was put in is that one, or it was there and has another key. -/
theorem eq_or_of_mem_insert (h : item ∈ insert items a) :
    item = a ∨ item ∈ items ∧ key item ≠ key a := by
  unfold insert at h
  split at h
  · obtain ⟨old, hold, rfl⟩ := List.mem_map.mp h
    by_cases hsame : sameKey a old = true
    · exact Or.inl (if_pos hsame)
    · rw [if_neg hsame]
      refine Or.inr ⟨hold, fun hkey => hsame ?_⟩
      exact (hkeyed a (by simp) old (by simp [hold])).mpr hkey.symm
  · next hnone =>
    rcases List.mem_append.mp h with hold | hnew
    · refine Or.inr ⟨hold, fun hkey => hnone ?_⟩
      exact (any_sameKey hkeyed).mpr (List.mem_map.mpr ⟨item, hold, hkey⟩)
    · exact Or.inl (List.mem_singleton.mp hnew)

omit hkeyed

/-! ## All steps -/

/-- The presets that are left and the next one are told apart by the key. -/
theorem Keyed.collapse_concat (h : Keyed key (items ++ [a])) :
    Keyed key (collapse items ++ [a]) := by
  refine h.mono fun item hitem => ?_
  rcases List.mem_append.mp hitem with hleft | hnext
  · exact List.mem_append.mpr (Or.inl (mem_of_mem_collapse hleft))
  · exact List.mem_append.mpr (Or.inr hnext)

theorem Keyed.init (h : Keyed key (items ++ [a])) : Keyed key items :=
  h.mono fun _ hitem => List.mem_append.mpr (Or.inl hitem)

section

variable [BEq κ] [LawfulBEq κ]

/-- A value at the end of a list counts if it is not there already. -/
theorem eraseDups_concat (keys : List κ) (k : κ) :
    (keys ++ [k]).eraseDups = if k ∈ keys then keys.eraseDups else keys.eraseDups ++ [k] := by
  rw [List.eraseDups_append, List.cons_removeAll, List.contains_eq_mem]
  by_cases hthere : k ∈ keys <;> simp [hthere, List.removeAll, List.eraseDups_cons]

/-- Where no value is there twice, and no value comes that is not there already, all stay. -/
theorem eraseDups_append_of_subset {keys more : List κ} (hnodup : keys.Nodup)
    (hsub : ∀ k ∈ more, k ∈ keys) : (keys ++ more).eraseDups = keys := by
  have hself : keys.eraseDups = keys := by
    clear hsub
    induction keys using List.reverseRecOn with
    | nil => rfl
    | append_singleton keys k ih =>
      obtain ⟨hkeys, _, hother⟩ := List.nodup_append.mp hnodup
      have hnone : k ∉ keys := fun hk => hother k hk k (List.mem_singleton_self k) rfl
      rw [eraseDups_concat, if_neg hnone, ih hkeys]
  have hnone : more.removeAll keys = [] := by
    simpa [List.removeAll, List.filter_eq_nil_iff] using hsub
  rw [List.eraseDups_append, hself, hnone, List.eraseDups_nil, List.append_nil]

/-- Of each key one preset is left, in the order in which the keys first appear. -/
theorem map_collapse (h : Keyed key items) :
    (collapse items).map key = (items.map key).eraseDups := by
  induction items using List.reverseRecOn with
  | nil => rfl
  | append_singleton items a ih =>
    rw [PresetDocument.collapse_concat, map_insert h.collapse_concat, ih h.init, List.map_append,
      List.map_singleton, eraseDups_concat]
    simp only [List.mem_eraseDups]

end

/-- No key is left twice. -/
theorem nodup_collapse (h : Keyed key items) : ((collapse items).map key).Nodup := by
  classical
  induction items using List.reverseRecOn with
  | nil => exact List.nodup_nil
  | append_singleton items a ih =>
    rw [PresetDocument.collapse_concat, map_insert h.collapse_concat]
    split
    · exact ih h.init
    · next hnone => exact List.nodup_append.mpr ⟨ih h.init, List.nodup_singleton _, by
        rintro _ hleft _ hnext rfl
        exact hnone (List.mem_singleton.mp hnext ▸ hleft)⟩

/-- What is left of a key is the last preset that has it. -/
theorem getLast?_of_mem_collapse [DecidableEq κ] (h : Keyed key items)
    (hitem : item ∈ collapse items) :
    (items.filter fun other => key other = key item).getLast? = some item := by
  induction items using List.reverseRecOn with
  | nil => cases hitem
  | append_singleton items a ih =>
    rw [PresetDocument.collapse_concat] at hitem
    rcases eq_or_of_mem_insert h.collapse_concat hitem with rfl | ⟨hleft, hkey⟩
    · simp
    · rw [List.filter_append]
      simp [Ne.symm hkey, ih h.init hleft]

end PresetDocument

/-- What is in a list is its last member or stands before it. -/
theorem eq_or_sublist_of_getLast? {α : Type} {a b : α} {l : List α} (hlast : l.getLast? = some b)
    (ha : a ∈ l) : a = b ∨ [a, b].Sublist l := by
  obtain ⟨before, rfl⟩ := List.getLast?_eq_some_iff.mp hlast
  rcases List.mem_append.mp ha with hbefore | hlast
  · exact Or.inr ((List.singleton_sublist.mpr hbefore).append (List.Sublist.refl [b]))
  · exact Or.inl (List.mem_singleton.mp hlast)

/-! ## Labels -/

namespace PresetItem

/-- A preset has texts for name and formula. -/
structure Labelled (item : PresetItem) : Prop where
  /-- The name is a text. -/
  name : ∃ s : String, item.name = .text s
  /-- The formula is a text. -/
  expr : ∃ s : String, item.expr = .text s

/-- The name and the formula of a preset, as texts. -/
def label (item : PresetItem) : Option JsonText × Option JsonText :=
  (item.name.text?, item.expr.text?)

end PresetItem

namespace PresetDocument

variable {stored imported after : List PresetItem}

/-- Presets with texts for names and formulas are told apart by their labels. -/
theorem keyed_label {items : List PresetItem} (h : ∀ item ∈ items, item.Labelled) :
    Keyed PresetItem.label items := by
  intro a ha b hb
  obtain ⟨name, hname⟩ := (h a ha).name
  obtain ⟨expr, hexpr⟩ := (h a ha).expr
  obtain ⟨other, hother⟩ := (h b hb).name
  obtain ⟨formula, hformula⟩ := (h b hb).expr
  simp [sameKey, PresetItem.label, hname, hexpr, hother, hformula, Json.sameKey, Json.text?]

/-- What becomes of stored presets and imported ones. -/
structure Merges (stored imported after : List PresetItem) : Prop where
  /-- Of each label one preset is left, in the order in which the labels first appear. -/
  labels : after.map PresetItem.label =
    ((stored ++ imported).map PresetItem.label).eraseDups
  /-- No label is left twice. -/
  nodup : (after.map PresetItem.label).Nodup
  /-- Each preset that is left is the last with its label. -/
  last : ∀ item ∈ after,
    ((stored ++ imported).filter fun other => other.label = item.label).getLast? = some item
  /-- No label is lost, and none is new. -/
  union : ∀ label, label ∈ after.map PresetItem.label ↔
    label ∈ stored.map PresetItem.label ∨ label ∈ imported.map PresetItem.label
  /-- Where a label is not imported, a stored preset is left. -/
  kept : ∀ item ∈ after, item.label ∉ imported.map PresetItem.label → item ∈ stored
  /-- Where it is, an imported one is left. -/
  renewed : ∀ item ∈ after, item.label ∈ imported.map PresetItem.label → item ∈ imported

/-- The last of the stored and the imported presets of a kind is imported, if there is one. -/
theorem mem_imported_of_last {p : PresetItem → Bool} {item : PresetItem}
    (hlast : ((stored ++ imported).filter p).getLast? = some item)
    (hthere : ∃ other ∈ imported, p other = true) : item ∈ imported := by
  obtain ⟨other, hother, hp⟩ := hthere
  rw [List.filter_append] at hlast
  have hne : imported.filter p ≠ [] :=
    List.ne_nil_of_mem (List.mem_filter.mpr ⟨hother, hp⟩)
  rw [List.getLast?_append_of_ne_nil _ hne] at hlast
  exact List.mem_of_mem_filter (List.mem_of_getLast? hlast)

/-- Presets with texts for names and formulas are merged by their labels. -/
theorem merges_collapse (h : ∀ item ∈ stored ++ imported, item.Labelled) :
    Merges stored imported (collapse (stored ++ imported)) := by
  have hkeyed := keyed_label h
  have hlabels := map_collapse hkeyed
  have hlast : ∀ item ∈ collapse (stored ++ imported), ((stored ++ imported).filter fun other =>
      other.label = item.label).getLast? = some item := fun _ => getLast?_of_mem_collapse hkeyed
  refine ⟨hlabels, nodup_collapse hkeyed, hlast, fun label => ?_, fun item hitem hnone => ?_,
    fun item hitem hthere => ?_⟩
  · rw [hlabels, List.mem_eraseDups, List.map_append, List.mem_append]
  · rcases List.mem_append.mp (mem_of_mem_collapse hitem) with hstored | himported
    · exact hstored
    · exact absurd (List.mem_map_of_mem himported) hnone
  · obtain ⟨other, hother, hsame⟩ := List.mem_map.mp hthere
    exact mem_imported_of_last (hlast item hitem) ⟨other, hother, by simpa using hsame⟩

/-- What was merged has all labels already when the same labels are merged again. -/
theorem Merges.labels_again (h : Merges stored imported after) {again others last : List PresetItem}
    (hagain : Merges again others last)
    (hstored : again.map PresetItem.label = after.map PresetItem.label)
    (himported : others.map PresetItem.label = imported.map PresetItem.label) :
    last.map PresetItem.label = after.map PresetItem.label := by
  rw [hagain.labels, List.map_append, hstored, himported]
  exact eraseDups_append_of_subset h.nodup fun label hlabel => (h.union label).mpr (Or.inr hlabel)

end PresetDocument

end LayerBlend
