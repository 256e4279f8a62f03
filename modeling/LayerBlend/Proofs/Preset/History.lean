import LayerBlend.Proofs.Preset.Identified
import LayerBlend.Proofs.Preset.Merging

/-!
# What becomes of presets and their identifiers

* `PresetStore.Fate` — what an operation can make of a preset: it is there afterwards, it was
  deleted by its identifier, or an import has put another one with its name and formula in its
  place. It is lost only with all others, when a write fails after it opened the file
  (`PresetStore.Endangers`).
* `PresetStore.Preserves`, `PresetStore.exists_preserves` — every operation leaves identified
  presets, whether it fails or not; each preset has a fate, and each that is there afterwards a
  source.
* `PresetStore.History`, `PresetStore.history_of_unfilled` — so do operations one after the other,
  from a file that is missing or blank on.
* `PresetStore.import_merges_stored` — an import can put one stored preset in the place of another.
-/

namespace LayerBlend

namespace PresetStore

variable {store : PresetStore} {w v u : Workspace} {items stored again last : List PresetItem}
  {request : PresetRequest} {reply : PresetReply}

/-! ## What becomes of a preset -/

/-- What can make a write fail after it opened the file, which leaves the file empty. -/
inductive Endangers (w : Workspace) (request : PresetRequest) : Prop where
  /-- A pending fault comes after the opening. -/
  | met {fault : WriteFault} (hpending : fault ∈ w.pending) (hopens : fault.opens = true)
  /-- An entry of the document that is imported has half of a character in its name or its
  formula. -/
  | halved {text : String} {entries : List Json} {entry name expr : Json}
      (hrequest : request = .importText text) (hsound : PresetDocument.Sound text entries)
      (hentry : entry ∈ entries) (hfields : PresetItem.HasFields entry name expr)
      (hhalf : (name.isWhole && expr.isWhole) = false)

/-- What an operation has made of a preset. -/
inductive Fate (w : Workspace) (request : PresetRequest) (reply : PresetReply)
    (items after : List PresetItem) (item : PresetItem) : Prop where
  /-- It is there afterwards, with its name, its formula and its identifier. -/
  | survives {other : PresetItem} (hother : other ∈ after) (hpersists : item.Persists other)
  /-- It was deleted by its identifier. -/
  | deleted {id : String} (hrequest : request = .delete id) (hid : item.id = .text id)
  /-- An imported copy is in its place, with its name and its formula. -/
  | copied {text : String} {entries : List Json} {entry : Json} {other : PresetItem}
      (hrequest : request = .importText text) (hsound : PresetDocument.Sound text entries)
      (hentry : entry ∈ entries) (hcopy : Renewed w entry other) (hother : other ∈ after)
      (hkey : PresetDocument.sameKey item other = true)
  /-- At an import, a preset that was stored behind it and has its name and its formula is in its
  place. -/
  | merged {text : String} {later other : PresetItem} (hrequest : request = .importText text)
      (hlater : [item, later].Sublist items) (hpersists : later.Persists other)
      (hother : other ∈ after) (hkey : PresetDocument.sameKey item other = true)
  /-- The operation has failed after it opened the file, and no preset is left. -/
  | lost {fault : Fault} (hrefused : reply = .refused fault) (hempty : after = [])
      (hcause : Endangers w request)

/-- An operation has left presets in the file, and the presets that it had have come to
something. -/
structure Preserves (store : PresetStore) (request : PresetRequest) (w : Workspace)
    (items : List PresetItem) (outcome : PresetReply × Workspace) (after : List PresetItem) :
    Prop where
  /-- The presets are in the file. -/
  stores : store.Stores outcome.2 after
  /-- Each preset that was there has a fate. -/
  fate : ∀ item ∈ items, Fate w request outcome.1 items after item
  /-- Each preset that is there was there, or it has a new identifier. -/
  source : ∀ other ∈ after, (∃ item ∈ items, item.Persists other) ∨
    other.Drawn w w.draws outcome.2.draws
  /-- After a deletion that succeeds no preset has the identifier. -/
  gone : ∀ id rest, request = .delete id → outcome.1 = .presets rest →
    ∀ other ∈ after, other.id ≠ .text id

namespace Opened

variable (h : store.Opened w items stored again v)

include h

/-- Each preset of the file is loaded. -/
theorem exists_again : ∀ item ∈ items, ∃ other ∈ again, item.Persists other := by
  intro item hitem
  rcases h.same with rfl | ⟨rfl, _⟩
  · exact exists_of_forall₂ h.persists.flip hitem
  · cases hitem

/-- Each preset that is loaded was in the file, or it has a new identifier. -/
theorem source : ∀ other ∈ again, (∃ item ∈ items, item.Persists other) ∨
    other.Drawn w w.draws v.draws := by
  intro other hother
  obtain ⟨item, hitem, hpersists⟩ := exists_of_forall₂ h.persists hother
  rcases h.same with rfl | ⟨rfl, hdrawn⟩
  · exact Or.inl ⟨item, hitem, hpersists⟩
  · exact Or.inr ((hdrawn item hitem).of_id_eq hpersists.id)

/-- What is as it was after loading has kept its presets. -/
theorem preserves (request : PresetRequest) (hlater : Later v u) (hfiles : u.files = v.files)
    (hreply : ∀ id rest, request = .delete id → reply ≠ .presets rest) :
    store.Preserves request w items (reply, u) stored := by
  refine ⟨h.stores.of_files_eq hlater hfiles, fun item hitem => ?_, fun other hother => ?_,
    fun id rest hrequest hpresets => absurd hpresets (hreply id rest hrequest)⟩
  · rcases h.same with rfl | ⟨rfl, _⟩
    · exact .survives hitem (.refl item)
    · cases hitem
  · rcases h.same with rfl | ⟨_, hdrawn⟩
    · exact Or.inl ⟨other, hother, .refl other⟩
    · exact Or.inr ((hdrawn other hother).mono (Nat.le_refl _) hlater.draws)

/-- An operation that ends with writing identified presets has kept the presets, or what was written
takes their place, or the file is left empty. -/
theorem exists_preserves (hlater : Later v u) (hfiles : u.files = v.files)
    (hperform : store.perform request w =
      (PresetReply.presets <$> (do store.write last; return last : Work _)) u)
    (hlast : Identified u last)
    (hhalf : last.all PresetItem.isWhole = false → Endangers w request)
    (hfate : ∀ item ∈ items, Fate w request (.presets last) items last item)
    (hsource : ∀ other ∈ last, (∃ item ∈ items, item.Persists other) ∨
      other.Drawn w w.draws u.draws)
    (hgone : ∀ id, request = .delete id → ∀ other ∈ last, other.id ≠ .text id) :
    ∃ after, store.Preserves request w items (store.answer request w) after := by
  obtain ⟨x, hx, ⟨hanswer, hfile⟩ | ⟨fault, hanswer, hkept | hemptied⟩⟩ :=
    answer_cases_of_write hperform
  · rw [hanswer]
    refine ⟨last, .filled hfile (hlast.later hx), hfate, fun other hother => ?_,
      fun id rest hrequest _ => hgone id hrequest⟩
    exact (hsource other hother).imp id fun hdrawn => hdrawn.mono (Nat.le_refl _) hx.draws
  · rw [hanswer]
    exact ⟨stored, h.preserves request (hlater.trans hx) (hkept.trans hfiles) (by simp)⟩
  · have hcause : Endangers w request := by
      rcases hemptied.cause with ⟨met, hmet, hopens⟩ | hhalved
      · exact .met ((h.later.trans hlater).pending.subset hmet) hopens
      · exact hhalf hhalved
    rw [hanswer]
    exact ⟨[], .unfilled (unfilled_of_empty hemptied.file),
      fun item _ => .lost rfl rfl hcause, by simp, by simp⟩

omit h

end Opened

/-- An operation that fails and leaves the presets in the file keeps them. -/
theorem preserves_refused {fault : Fault} (h : store.Stores v items) :
    store.Preserves request w items (.refused fault, v) items :=
  ⟨h, fun item hitem => .survives hitem (.refl item),
    fun other hother => Or.inl ⟨other, hother, .refl other⟩, by simp⟩

/-! ## One operation -/

section

variable (htimed : w.Timed) (hsuffix : Function.Injective w.suffix) (h : store.Stores w items)

include htimed hsuffix h

/-- An operation that starts with loading fails with it, and the presets are kept, or it goes on. -/
theorem exists_preserves_of_load
    (hfails : ∀ fault v, store.load w = .error fault v → store.perform request w = .error fault v)
    (hworks : ∀ stored again v, store.load w = .ok again v → store.Opened w items stored again v →
      ∃ after, store.Preserves request w items (store.answer request w) after) :
    ∃ after, store.Preserves request w items (store.answer request w) after := by
  rcases exists_opened htimed hsuffix h with
    ⟨fault, v, hload, hstores⟩ | ⟨stored, again, v, hload, hopened⟩
  · rw [answer_of_error (hfails fault v hload)]
    exact ⟨items, preserves_refused hstores⟩
  · exact hworks stored again v hload hopened

theorem exists_preserves_load :
    ∃ after, store.Preserves .load w items (store.answer .load w) after := by
  refine exists_preserves_of_load htimed hsuffix h (fun _ _ => Work.map_of_error)
    fun stored again v hload hopened => ?_
  rw [answer_of_ok (Work.map_of_ok hload)]
  exact ⟨stored, hopened.preserves .load (.refl v) rfl (by simp)⟩

theorem exists_preserves_exportText :
    ∃ after, store.Preserves .exportText w items (store.answer .exportText w) after := by
  refine exists_preserves_of_load htimed hsuffix h
    (fun _ _ hload => Work.map_of_error (Work.map_of_error hload))
    fun stored again v hload hopened => ?_
  rw [answer_of_ok (Work.map_of_ok (Work.map_of_ok hload))]
  exact ⟨stored, hopened.preserves .exportText (.refl v) rfl (by simp)⟩

theorem exists_preserves_find (name : String) :
    ∃ after, store.Preserves (.find name) w items (store.answer (.find name) w) after := by
  refine exists_preserves_of_load htimed hsuffix h
    (fun _ _ hload => Work.map_of_error (Work.bind_of_error hload))
    fun stored again v hload hopened => ⟨stored, ?_⟩
  have hfind := find_apply hload (.text name)
  cases hfound : again.find? fun item => item.name.same (.text name) with
  | some item =>
    rw [hfound] at hfind
    rw [answer_of_ok (Work.map_of_ok hfind)]
    exact hopened.preserves (.find name) (.refl v) rfl (by simp)
  | none =>
    rw [hfound] at hfind
    rw [answer_of_error (Work.map_of_error hfind)]
    exact hopened.preserves (.find name) (.refl v) rfl (by simp)

/-- Saving keeps all presets and adds one with a new identifier. -/
theorem exists_preserves_save (name expr : String) :
    ∃ after, store.Preserves (.save name expr) w items (store.answer (.save name expr) w)
      after := by
  refine exists_preserves_of_load htimed hsuffix h
    (fun _ _ hload => Work.map_of_error (Work.bind_of_error hload))
    fun stored again v hload hopened => ?_
  have hmade := PresetItem.made_madeIn v (.text name) (.text expr)
  have hdrawn : (PresetItem.madeIn v (.text name) (.text expr)).Drawn v v.draws (v.draws + 1) :=
    ⟨v.draws, Nat.le_refl _, Nat.lt_succ_self _, _, rfl⟩
  have hsave : store.save (.text name) (.text expr) w = (do
      store.write (again ++ [PresetItem.madeIn v (.text name) (.text expr)])
      return again ++ [PresetItem.madeIn v (.text name) (.text expr)] : Work _) (v.spent 2 1) := by
    rw [save, Work.bind_of_ok hload]
    exact Work.bind_of_ok (PresetItem.make_apply _ _ v)
  have hspent := (frame_later store).spent v 2 1
  have hafter : Identified (v.spent 2 1) again := hopened.identified.later hspent
  have hvsuffix : Function.Injective v.suffix := hopened.later.suffix ▸ hsuffix
  refine hopened.exists_preserves hspent rfl (Work.map_congr hsave) ⟨?_, ?_, ?_⟩ ?_ ?_ ?_ (by simp)
  · exact List.forall_mem_append.mpr ⟨hafter.readable, List.forall_mem_singleton.mpr
      (hmade.readable (hopened.later.timed htimed) (.text name) (.text expr))⟩
  · exact List.forall_mem_append.mpr ⟨hafter.drawn, List.forall_mem_singleton.mpr
      (hdrawn.mono (Nat.zero_le _) (Nat.le_refl _))⟩
  · refine PresetDocument.distinct_append.mpr ⟨hafter.distinct, List.nodup_singleton _, ?_⟩
    intro a ha b hb
    obtain rfl := List.mem_singleton.mp hb
    exact (hopened.identified.drawn a ha).ne hvsuffix hdrawn (Nat.le_refl _)
  · intro hhalf
    have hname : (Json.text name).isWhole = true := Json.isWhole_text _
    have hexpr : (Json.text expr).isWhole = true := Json.isWhole_text _
    rw [List.all_append, hopened.whole, List.all_cons, hmade.isWhole_eq, hname, hexpr] at hhalf
    cases hhalf
  · intro item hitem
    obtain ⟨other, hother, hpersists⟩ := hopened.exists_again item hitem
    exact .survives (List.mem_append.mpr (Or.inl hother)) hpersists
  · refine List.forall_mem_append.mpr ⟨fun other hother => ?_, List.forall_mem_singleton.mpr ?_⟩
    · exact (hopened.source other hother).imp id fun hnew =>
        hnew.mono (Nat.le_refl _) hspent.draws
    · exact Or.inr ((hdrawn.of_eq hopened.later.suffix.symm).mono hopened.later.draws
        (Nat.le_refl _))

/-- A deletion removes the preset with the identifier and no other. -/
theorem exists_preserves_delete (id : String) :
    ∃ after, store.Preserves (.delete id) w items (store.answer (.delete id) w) after := by
  refine exists_preserves_of_load htimed hsuffix h
    (fun _ _ hload => Work.map_of_error (Work.bind_of_error hload))
    fun stored again v hload hopened => ?_
  have hdelete : store.delete (.text id) w = (do
      store.write (again.filter fun item => !item.id.same (.text id))
      return again.filter fun item => !item.id.same (.text id) : Work _) v := by
    rw [delete, Work.bind_of_ok hload]
  have hsame : ∀ item ∈ again, item.id.same (.text id) = true ↔ item.id = .text id := by
    intro item hitem
    obtain ⟨s, _, hid⟩ := (hopened.identified.drawn item hitem).exists_text
    rw [hid]
    simp [Json.same, Json.isNaN, Json.sameKey]
  have hsub : ∀ item ∈ again.filter (fun item => !item.id.same (.text id)), item ∈ again :=
    fun _ hitem => List.mem_of_mem_filter hitem
  refine hopened.exists_preserves (.refl v) rfl (Work.map_congr hdelete) ⟨?_, ?_, ?_⟩ ?_ ?_ ?_ ?_
  · exact fun item hitem => hopened.identified.readable item (hsub item hitem)
  · exact fun item hitem => hopened.identified.drawn item (hsub item hitem)
  · exact hopened.identified.distinct.sublist List.filter_sublist
  · intro hhalf
    obtain ⟨item, hitem, hitemhalf⟩ := List.all_eq_false.mp hhalf
    exact absurd (List.all_eq_true.mp hopened.whole item (hsub item hitem)) hitemhalf
  · intro item hitem
    obtain ⟨other, hother, hpersists⟩ := hopened.exists_again item hitem
    by_cases hgone : other.id.same (.text id) = true
    · exact .deleted rfl (hpersists.id ▸ (hsame other hother).mp hgone)
    · exact .survives (List.mem_filter.mpr ⟨hother, by simpa using hgone⟩) hpersists
  · exact fun other hother => hopened.source other (hsub other hother)
  · intro other hrequest item hitem hid
    cases hrequest
    have hleft := (List.mem_filter.mp hitem).2
    rw [(hsame item (hsub item hitem)).mpr hid] at hleft
    cases hleft

end

/-! ## An import -/

/-- Drawing before loading leaves the presets of the file where they are. -/
theorem Opened.of_spent {readings draws : Nat}
    (h : store.Opened (w.spent readings draws) items stored again v) :
    store.Opened w items stored again v where
  later := ((frame_later store).spent w readings draws).trans h.later
  stores := h.stores
  persists := h.persists
  identified := h.identified
  whole := h.whole
  same := h.same.imp id fun ⟨hempty, hdrawn⟩ => ⟨hempty, fun item hitem =>
    ((hdrawn item hitem).of_eq rfl).mono (Nat.le_add_right _ _) (Nat.le_refl _)⟩

/-- What was loaded and what is imported is identified: the identifiers of the imported presets are
drawn after those that were stored, and before those with which a file may have been filled. -/
theorem identified_append {imported : List PresetItem} {readings first : Nat}
    (hsuffix : Function.Injective w.suffix) (h : store.Stores w items)
    (hopened : store.Opened (w.spent readings (first + imported.length)) items stored again v)
    (hreadable : ∀ item ∈ imported, item.Readable)
    (hnumbered : List.Forall₂ (PresetItem.Numbered w)
      (List.range' (w.draws + first) imported.length) imported) :
    Identified v (again ++ imported) := by
  obtain ⟨hdistinct, hdrawn⟩ := PresetDocument.drawn_of_numbered hsuffix hnumbered
  have hdraws : w.draws + (first + imported.length) ≤ v.draws := hopened.later.draws
  refine ⟨List.forall_mem_append.mpr ⟨hopened.identified.readable, hreadable⟩,
    List.forall_mem_append.mpr ⟨hopened.identified.drawn, fun item hitem => ?_⟩,
    PresetDocument.distinct_append.mpr ⟨hopened.identified.distinct, hdistinct, ?_⟩⟩
  · exact ((hdrawn item hitem).of_eq hopened.later.suffix).mono (Nat.zero_le _) (by omega)
  · intro a ha b hb
    rcases hopened.source a ha with ⟨item, hitem, hpersists⟩ | hnew
    · have hold := (h.drawn item hitem).of_id_eq hpersists.id
      exact hold.ne hsuffix (hdrawn b hb) (Nat.le_add_right _ _)
    · have hnew : a.Drawn w (w.draws + (first + imported.length)) v.draws := hnew.of_eq rfl
      exact (Ne.symm ((hdrawn b hb).ne hsuffix hnew (by omega)))

/-- The last one of some presets that were loaded is the one that comes from a preset of the file,
or it comes from one that is stored behind it. -/
theorem Opened.fate_of_last {text : String} {reply : PresetReply} {after : List PresetItem}
    {item read other : PresetItem} {p : PresetItem → Bool}
    (hopened : store.Opened w items stored again v) (h : store.Stores w items)
    (hitem : item ∈ items) (hpersists : item.Persists read)
    (hread : read ∈ again.filter p) (hlast : (again.filter p).getLast? = some other)
    (hother : other ∈ after) (hkey : PresetDocument.sameKey item other = true) :
    Fate w (.importText text) reply items after item := by
  rcases eq_or_sublist_of_getLast? hlast hread with rfl | hbehind
  · exact .survives hother hpersists
  · obtain ⟨pair, hpair, hall⟩ := exists_sublist_of_forall₂ hopened.persists
      (hbehind.trans List.filter_sublist)
    rcases hopened.same with rfl | ⟨rfl, _⟩
    · cases hall with
      | @cons first _ _ _ hfirst hrest =>
        cases hrest with
        | @cons later _ _ _ hlater hnil =>
          cases hnil
          have hfirstmem : first ∈ stored := hpair.subset List.mem_cons_self
          have hid : first.id = item.id := hfirst.id.symm.trans hpersists.id
          obtain rfl := h.distinct.eq hfirstmem hitem hid
          exact .merged rfl hpair hlater hother hkey
    · cases hitem

/-- What an import makes of a preset of the file: the preset, an imported copy, or one that was
stored behind it. -/
theorem fate_of_collapse {text : String} {reply : PresetReply} {entries : List Json}
    {imported : List PresetItem} {item : PresetItem} (h : store.Stores w items)
    (hopened : store.Opened w items stored again v) (hsound : PresetDocument.Sound text entries)
    (hrenewed : List.Forall₂ (Renewed w) entries imported)
    (hkeys : (again ++ imported).all PresetDocument.hasKey = true) (hitem : item ∈ items) :
    Fate w (.importText text) reply items (PresetDocument.collapse (again ++ imported)) item := by
  classical
  have hkeyed := PresetDocument.keyed_of_hasKey hkeys
  generalize (fun item : PresetItem =>
    (PresetDocument.keyOf item.name, PresetDocument.keyOf item.expr)) = key at hkeyed
  obtain ⟨read, hread, hpersists⟩ := hopened.exists_again item hitem
  have hreadall : read ∈ again ++ imported := List.mem_append.mpr (Or.inl hread)
  obtain ⟨other, hother, hsame⟩ : ∃ other ∈ PresetDocument.collapse (again ++ imported),
      key other = key read := by
    have hthere : key read ∈ (PresetDocument.collapse (again ++ imported)).map key := by
      rw [PresetDocument.map_collapse hkeyed, List.mem_eraseDups]
      exact List.mem_map_of_mem hreadall
    exact List.mem_map.mp hthere
  have hkey : PresetDocument.sameKey item other = true := by
    rw [PresetDocument.sameKey, ← hpersists.name, ← hpersists.expr]
    exact (hkeyed read hreadall other (PresetDocument.mem_of_mem_collapse hother)).mpr hsame.symm
  have hlast := PresetDocument.getLast?_of_mem_collapse hkeyed hother
  by_cases hcopied : ∃ copy ∈ imported, key copy = key other
  · have himported := PresetDocument.mem_imported_of_last hlast (by simpa using hcopied)
    obtain ⟨entry, hentry, hcopy⟩ := exists_of_forall₂ hrenewed himported
    exact .copied rfl hsound hentry hcopy hother hkey
  · -- without a copy the last preset with the key is one that was loaded
    have hnone : imported.filter (fun copy => key copy = key other) = [] := by
      simpa [List.filter_eq_nil_iff] using hcopied
    rw [List.filter_append, hnone, List.append_nil] at hlast
    exact hopened.fate_of_last h hitem hpersists
      (List.mem_filter.mpr ⟨hread, by simpa using hsame.symm⟩) hlast hother hkey

/-- Where what was loaded and what is imported has half of a character, an entry has it in its name
or its formula. -/
theorem endangers_of_halved {text : String} {entries : List Json} {imported last : List PresetItem}
    (hsound : PresetDocument.Sound text entries)
    (hrenewed : List.Forall₂ (Renewed w) entries imported)
    (hwhole : again.all PresetItem.isWhole = true) (hsub : ∀ item ∈ last, item ∈ again ++ imported)
    (hhalf : last.all PresetItem.isWhole = false) : Endangers w (.importText text) := by
  obtain ⟨item, hitem, hitemhalf⟩ := List.all_eq_false.mp hhalf
  rcases List.mem_append.mp (hsub item hitem) with hagain | himported
  · exact absurd (List.all_eq_true.mp hwhole item hagain) hitemhalf
  · obtain ⟨entry, hentry, name, expr, hfields, hmade⟩ := exists_of_forall₂ hrenewed himported
    rw [hmade.isWhole_eq, Bool.not_eq_true] at hitemhalf
    exact .halved rfl hsound hentry hfields hitemhalf

section

variable (htimed : w.Timed) (hsuffix : Function.Injective w.suffix) (h : store.Stores w items)

include htimed hsuffix h

/-- An import keeps the presets, or merges new ones with them. -/
theorem exists_preserves_importText (text : String) :
    ∃ after, store.Preserves (.importText text) w items (store.answer (.importText text) w)
      after := by
  by_cases hsound : ∃ entries, PresetDocument.Sound text entries
  · obtain ⟨entries, hsound⟩ := hsound
    obtain ⟨imported, readings, first, himport, hrenewed, hnumbered⟩ :=
      exists_renewed hsound store w
    have hspent := (frame_later store).spent w readings (first + imported.length)
    rcases exists_opened (w := w.spent readings (first + imported.length)) htimed hsuffix
      (h.of_files_eq hspent rfl) with
      ⟨fault, v, hload, hstores⟩ | ⟨stored, again, v, hload, hopened⟩
    · rw [Work.bind_of_error hload] at himport
      rw [answer_of_error (Work.map_of_error himport)]
      exact ⟨items, preserves_refused hstores⟩
    · rw [Work.bind_of_ok hload, PresetDocument.merge] at himport
      have hall := identified_append hsuffix h hopened
        (readable_of_renewed htimed hsound.1 hrenewed) hnumbered
      obtain ⟨_, hdrawn⟩ := PresetDocument.drawn_of_numbered hsuffix hnumbered
      have hdraws : w.draws + (first + imported.length) ≤ v.draws := hopened.later.draws
      replace hopened := hopened.of_spent
      by_cases hkeys : (again ++ imported).all PresetDocument.hasKey = true
      · rw [if_pos hkeys] at himport
        have hmem : ∀ item ∈ PresetDocument.collapse (again ++ imported),
            item ∈ again ++ imported := fun _ => PresetDocument.mem_of_mem_collapse
        refine hopened.exists_preserves (.refl v) rfl (Work.map_congr himport)
          ⟨fun item hitem => hall.readable item (hmem item hitem),
            fun item hitem => hall.drawn item (hmem item hitem),
            PresetDocument.distinct_collapse hkeys hall.distinct⟩
          (endangers_of_halved hsound hrenewed hopened.whole hmem)
          (fun item hitem => fate_of_collapse h hopened hsound hrenewed hkeys hitem)
          (fun other hother => ?_) (by simp)
        rcases List.mem_append.mp (hmem other hother) with hagain | himported
        · exact hopened.source other hagain
        · exact Or.inr ((hdrawn other himported).mono (Nat.le_add_right _ _) (by omega))
      · rw [if_neg hkeys] at himport
        have hrefused : store.importText text w = .error .notAKey v := himport
        rw [answer_of_error (Work.map_of_error hrefused)]
        exact ⟨stored, hopened.preserves (.importText text) (.refl v) rfl (by simp)⟩
  · obtain ⟨fault, readings, draws, hread⟩ := PresetDocument.exists_read_error hsound w
    have hrefused : store.importText text w = .error fault (w.spent readings draws) :=
      Work.bind_of_error hread
    rw [answer_of_error (Work.map_of_error hrefused)]
    exact ⟨items,
      preserves_refused (h.of_files_eq ((frame_later store).spent w readings draws) rfl)⟩

/-- Every operation leaves identified presets in the file, whether it fails or not. -/
theorem exists_preserves (request : PresetRequest) :
    ∃ after, store.Preserves request w items (store.answer request w) after := by
  cases request with
  | load => exact exists_preserves_load htimed hsuffix h
  | save name expr => exact exists_preserves_save htimed hsuffix h name expr
  | delete id => exact exists_preserves_delete htimed hsuffix h id
  | exportText => exact exists_preserves_exportText htimed hsuffix h
  | importText text => exact exists_preserves_importText htimed hsuffix h text
  | find name => exact exists_preserves_find htimed hsuffix h name

end

/-! ## Many operations -/

/-- Operations one after the other, with the presets that the file has before and after each. -/
inductive History (store : PresetStore) :
    Workspace → List PresetItem → List PresetRequest → Workspace → List PresetItem → Prop where
  /-- Nothing has happened. -/
  | start (w : Workspace) (items : List PresetItem) : History store w items [] w items
  /-- One operation, and then the others. -/
  | next {w v : Workspace} {items between after : List PresetItem} {request : PresetRequest}
      {requests : List PresetRequest}
      (hfirst : store.Preserves request w items (store.answer request w) between)
      (hothers : History store (store.answer request w).2 between requests v after) :
      History store w items (request :: requests) v after

/-- Operations one after the other leave identified presets in the file. -/
theorem exists_history (requests : List PresetRequest) (htimed : w.Timed)
    (hsuffix : Function.Injective w.suffix) (h : store.Stores w items) :
    ∃ after, store.History w items requests (store.run requests w).2 after ∧
      store.Stores (store.run requests w).2 after := by
  induction requests generalizing w items with
  | nil => exact ⟨items, .start w items, h⟩
  | cons request requests ih =>
    obtain ⟨between, hfirst⟩ := exists_preserves htimed hsuffix h request
    have hlater := (frame_later store).answer request w
    obtain ⟨after, hothers, hafter⟩ :=
      ih (hlater.timed htimed) (hlater.suffix ▸ hsuffix) hfirst.stores
    rw [run_cons]
    exact ⟨after, .next hfirst hothers, hafter⟩

/-- From a file that is missing or blank on, whatever operations are made one after the other and
whatever is imported, and whether writes fail or not, no two presets of the file have the same
identifier. At each step each preset of the file stays with its identifier, or it was deleted by it,
or an import has put a copy or a later preset with its name and formula in its place, or a write has
failed after it opened the file and all presets are lost; and what is new has a new identifier. -/
theorem history_of_unfilled (store : PresetStore) (w : Workspace) (requests : List PresetRequest)
    (htimed : w.Timed) (hsuffix : Function.Injective w.suffix) (h : store.Unfilled w) :
    ∃ items, store.History w [] requests (store.run requests w).2 items ∧
      store.Stores (store.run requests w).2 items ∧ PresetDocument.Distinct items := by
  obtain ⟨items, hhistory, hstores⟩ := exists_history requests htimed hsuffix (.unfilled h)
  exact ⟨items, hhistory, hstores, hstores.distinct⟩

/-! ## Presets that are saved twice -/

/-- A workspace without files whose random parts never repeat. -/
def numberedWorkspace : Workspace :=
  { bareWorkspace with suffix := fun n => String.ofList (List.replicate n 'a') }

theorem suffix_injective_numbered : Function.Injective numberedWorkspace.suffix := by
  intro m n h
  have hlength := congrArg String.length h
  simpa [numberedWorkspace] using hlength

theorem works_numbered : bareStore.Works numberedWorkspace :=
  ⟨rfl, works_bare.writable, works_bare.clock⟩

/-- Presets are saved, and another one is imported. -/
theorem history_of_unfilled_numbered : numberedWorkspace.Timed ∧
    Function.Injective numberedWorkspace.suffix ∧ bareStore.Unfilled numberedWorkspace ∧
    ∃ items v, (bareStore.run [.save "a" "b", .save "a" "b",
        .importText otherText] numberedWorkspace).2 = v ∧
      bareStore.History numberedWorkspace [] [.save "a" "b", .save "a" "b",
        .importText otherText] v items ∧
      bareStore.Stores v items ∧ PresetDocument.Distinct items := by
  have htimed := works_numbered.clock.timed
  obtain ⟨items, hhistory⟩ := history_of_unfilled bareStore numberedWorkspace
    [.save "a" "b", .save "a" "b", .importText otherText] htimed
    suffix_injective_numbered unfilled_bare
  exact ⟨htimed, suffix_injective_numbered, unfilled_bare, items, _, rfl, hhistory⟩

/-- The workspace after the same name and formula were saved twice. -/
def savedTwice : Workspace :=
  (bareStore.run [.save "a" "b", .save "a" "b"] numberedWorkspace).2

/-- A preset that is saved at a draw. -/
structure SavedAt (draw : Nat) (item : PresetItem) : Prop where
  /-- It has the name. -/
  name : item.name = .text "a"
  /-- It has the formula. -/
  expr : item.expr = .text "b"
  /-- It has the identifier of the draw. -/
  numbered : PresetItem.Numbered numberedWorkspace draw item

/-- The file holds the default presets and then the two that were saved. -/
structure HoldsSaved (made : List PresetItem) (first second : PresetItem) : Prop where
  /-- The store works. -/
  works : bareStore.Works savedTwice
  /-- The file is the document of the presets. -/
  holds : bareStore.Holds savedTwice (made ++ [first] ++ [second])
  /-- The default presets were drawn first. -/
  drawn : ∀ item ∈ made, item.Drawn numberedWorkspace numberedWorkspace.draws
    (numberedWorkspace.draws + made.length)
  /-- Then the first preset was saved. -/
  first : SavedAt (numberedWorkspace.draws + made.length) first
  /-- Then the second one was. -/
  second : SavedAt (numberedWorkspace.draws + made.length + 1) second
  /-- The supply of identifiers is the same. -/
  suffix : savedTwice.suffix = numberedWorkspace.suffix
  /-- Nothing else was drawn. -/
  draws : savedTwice.draws = numberedWorkspace.draws + made.length + 1 + 1

theorem exists_holdsSaved : ∃ made first second, HoldsSaved made first second := by
  obtain ⟨made, readings, hmake, _, _, hdrawn⟩ := exists_drawn_defaults suffix_injective_numbered
  have htexts : ∀ request ∈ [PresetRequest.save "a" "b", .save "a" "b"], request.HasTexts := by
    simp [PresetRequest.HasTexts]
  have hmatches : bareStore.Matches numberedWorkspace none := unfilled_bare
  have hagrees := agrees_run htexts works_numbered hmatches numberedWorkspace.files
  -- each time the list that is kept is opened, the first time the default one
  have hnone : PresetShelf.opened none numberedWorkspace =
      .ok made (numberedWorkspace.spent readings made.length) := hmake
  have hfirst := PresetShelf.answer_save hnone bareStore.path "a" "b"
  have hsome : ∀ items w, PresetShelf.opened (some items) w = .ok items w := fun _ _ => rfl
  have hsecond := fun items w => PresetShelf.answer_save (hsome items w) bareStore.path "a" "b"
  simp only [PresetShelf.run_cons, hfirst, hsecond] at hagrees
  have hworld : savedTwice = _ := hagrees.world
  exact ⟨made, _, _, hagrees.works, hagrees.kept, hdrawn, ⟨rfl, rfl, _, rfl⟩, ⟨rfl, rfl, _, rfl⟩,
    by rw [hworld]; rfl, by rw [hworld]; rfl⟩

/-- What is made anew of the other preset has its name. -/
theorem name_of_renewed_otherPreset {w : Workspace} {copy : PresetItem}
    (h : Renewed w otherPreset.toJson copy) : copy.name = .text "c" := by
  obtain ⟨name, expr, hfields, hmade⟩ := h
  rw [hmade.name]
  exact (Option.some.inj hfields.name).symm

/-- After an import of another preset, of the two that were saved only the second is left. -/
theorem HoldsSaved.merges {made after : List PresetItem} {first second copy : PresetItem}
    (h : HoldsSaved made first second) (hcopy : copy.name = .text "c")
    (hmerges : PresetDocument.Merges (made ++ [first] ++ [second]) [copy] after) :
    second ∈ after ∧ ∀ other ∈ after, other.label = second.label → other = second := by
  have hother : copy.label ≠ second.label := by
    simp [PresetItem.label, hcopy, h.second.name, Json.text?]
  have hlast : ∀ other ∈ after, other.label = second.label → other = second := by
    intro other hafter hlabel
    have hfound := hmerges.last other hafter
    have hnone : ([copy].filter fun item => item.label = second.label) = [] := by simp [hother]
    have hone : ([second].filter fun item => item.label = second.label) = [second] := by simp
    rw [hlabel, List.filter_append, List.filter_append, hnone, hone, List.append_nil,
      List.getLast?_concat, Option.some.injEq] at hfound
    exact hfound.symm
  have hthere : second.label ∈ after.map PresetItem.label :=
    (hmerges.union second.label).mpr (Or.inl (List.mem_map_of_mem (by simp)))
  obtain ⟨other, hafter, hlabel⟩ := List.mem_map.mp hthere
  exact ⟨hlast other hafter hlabel ▸ hafter, hlast⟩

/-- The identifier of the first preset is gone then. -/
theorem HoldsSaved.gone {made after : List PresetItem} {first second copy : PresetItem} {more : Nat}
    (h : HoldsSaved made first second) (hcopy : copy.name = .text "c")
    (hnumbered : PresetItem.Numbered savedTwice (savedTwice.draws + more) copy)
    (hmerges : PresetDocument.Merges (made ++ [first] ++ [second]) [copy] after) :
    ∀ other ∈ after, other.id ≠ first.id := by
  intro other hafter hid
  have hsame : ∀ {draw}, PresetItem.Numbered numberedWorkspace draw other →
      draw = numberedWorkspace.draws + made.length := fun hdraw =>
    hdraw.eq suffix_injective_numbered h.first.numbered hid
  by_cases himported : other.label ∈ [copy].map PresetItem.label
  · obtain rfl := List.mem_singleton.mp (hmerges.renewed other hafter himported)
    have hdraw : PresetItem.Numbered numberedWorkspace (savedTwice.draws + more) other := by
      obtain ⟨time, htime⟩ := hnumbered
      exact ⟨time, h.suffix ▸ htime⟩
    have := hsame hdraw
    have := h.draws
    omega
  · have hstored := hmerges.kept other hafter himported
    simp only [List.append_assoc, List.mem_append, List.mem_cons, List.not_mem_nil, or_false]
      at hstored
    rcases hstored with hmade | rfl | rfl
    · obtain ⟨draw, _, hlt, hdraw⟩ := h.drawn other hmade
      have := hsame hdraw
      omega
    · have hlabel : other.label = second.label := by
        simp [PresetItem.label, h.first.name, h.first.expr, h.second.name, h.second.expr]
      obtain rfl := (h.merges hcopy hmerges).2 other hafter hlabel
      have := hsame h.second.numbered
      omega
    · have := hsame h.second.numbered
      omega

/-- An import of another preset puts the second of two presets with the same name and formula in the
place of the first, and the identifier of the first is gone. -/
theorem import_merges_stored : numberedWorkspace.Timed ∧
    Function.Injective numberedWorkspace.suffix ∧ bareStore.Unfilled numberedWorkspace ∧
    ∃ before after v, bareStore.importText otherText savedTwice =
        .ok after v ∧
      bareStore.HasDocument savedTwice before ∧ bareStore.HasDocument v after ∧
      ∃ item ∈ before, (∀ other ∈ after, other.id ≠ item.id) ∧
        (∃ other ∈ after, other ∈ before ∧ other.name = item.name ∧ other.expr = item.expr) ∧
        ∀ entries, PresetDocument.Sound otherText entries →
          ∀ entry ∈ entries, ∀ copy, Renewed savedTwice entry copy →
            PresetDocument.sameKey item copy = false := by
  refine ⟨works_numbered.clock.timed, suffix_injective_numbered, unfilled_bare, ?_⟩
  obtain ⟨made, first, second, h⟩ := exists_holdsSaved
  have hlegible : ∀ item ∈ made ++ [first] ++ [second], item.Legible := fun item hitem =>
    have hplain := h.holds.plain item hitem
    ⟨hplain.exact.readable, hplain.name, hplain.expr⟩
  have hserves : bareStore.Serves savedTwice := serves_of_file h.works.pending h.works.writable
    h.works.clock.timed hlegible h.holds.file
  obtain ⟨stored, imported, after, v, himport⟩ : ∃ stored imported after v,
      bareStore.ImportsMerged otherText [otherPreset.toJson] savedTwice stored imported after
        v := by
    rcases hserves.exists_importsMerged sound_otherText hasTexts_otherText with
      ⟨stored, imported, after, v, himport, _⟩ | ⟨stored, imported, fault, v, himport⟩
    · exact ⟨stored, imported, after, v, himport⟩
    · -- plain presets have identifiers without halves of characters
      obtain ⟨readings, draws, u, hload⟩ := himport.load
      cases hload.symm.trans (load_of_holds ⟨h.holds.file, h.holds.plain⟩)
      obtain ⟨item, _, hitem, hid⟩ := himport.half
      rw [(h.holds.plain item hitem).exact.id.isWhole] at hid
      cases hid
  obtain ⟨readings, drawn, u, hload, hnumbered⟩ := himport.load
  cases hload.symm.trans (load_of_holds ⟨h.holds.file, h.holds.plain⟩)
  obtain ⟨copy, rfl, hrenewed⟩ :
      ∃ copy, imported = [copy] ∧ Renewed savedTwice otherPreset.toJson copy := by
    cases himport.renewed with
    | cons hcopy hothers =>
      cases hothers
      exact ⟨_, rfl, hcopy⟩
  have hcopy := name_of_renewed_otherPreset hrenewed
  have hdraw : PresetItem.Numbered savedTwice (savedTwice.draws + drawn) copy := by
    cases hnumbered with
    | cons hdraw _ => exact hdraw
  refine ⟨_, after, v, himport.answer, h.holds.file, himport.file, first, by simp,
    h.gone hcopy hdraw himport.merges, ⟨second, (h.merges hcopy himport.merges).1, by simp, ?_, ?_⟩,
    fun entries hsound entry hentry other hother => ?_⟩
  · rw [h.first.name, h.second.name]
  · rw [h.first.expr, h.second.expr]
  · cases hsound.1.unique sound_otherText.1
    obtain rfl := List.mem_singleton.mp hentry
    simp [PresetDocument.sameKey, h.first.name, name_of_renewed_otherPreset hother, Json.sameKey]

end PresetStore

end LayerBlend
