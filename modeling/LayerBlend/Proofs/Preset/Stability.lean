import LayerBlend.Proofs.Json.Sameness
import LayerBlend.Proofs.Preset.Importing

/-!
# Loading the same file twice

* `PresetItem.Complete` — reading an entry makes nothing anew. What is read of it is always the same
  (`PresetItem.eq_of_complete`).
* `PresetStore.LoadsTwice` — two loads of a document give what its entries say, and leave it alone.
* `PresetStore.DeletesFrom` — what a deletion leaves of the presets is what is loaded after it, but
  for times that are zero.
* `PresetStore.DeletionEmpties` — where a preset with half of a character would be left, the
  deletion leaves an empty file.
* `PresetStore.load_twice` — so it is with every document. Only where all entries are complete do
  two loads agree, and can what was loaded be deleted by its identifier.
-/

namespace LayerBlend

namespace PresetItem

variable {w v : Workspace} {entry : Json} {item again : PresetItem}

/-- Reading an entry makes nothing anew: its identifier and its time count as true. -/
structure Complete (entry : Json) : Prop where
  /-- The identifier counts as true. -/
  id : (truthy? entry "id").isSome = true
  /-- The time counts as true. -/
  time : (truthy? entry "createdAt").isSome = true

/-- What is read of a complete entry is always the same. -/
theorem eq_of_complete (hentry : Complete entry) (h : Decodes w entry item)
    (hagain : Decodes v entry again) : again = item := by
  obtain ⟨id, hid⟩ := Option.isSome_iff_exists.mp hentry.id
  obtain ⟨time, htime⟩ := Option.isSome_iff_exists.mp hentry.time
  obtain ⟨formula, hformula, hexpr⟩ := h.fields.expr
  obtain ⟨formula', hformula', hexpr'⟩ := hagain.fields.expr
  cases hformula.symm.trans hformula'
  have hids : ∀ {u : Workspace} {read : PresetItem}, Decodes u entry read → read.id = id := by
    intro u read hread
    rcases hread.id with hsome | ⟨hnone, _⟩
    · exact Option.some.inj (hsome.symm.trans hid)
    · cases hnone.symm.trans hid
  have htimes : ∀ {u : Workspace} {read : PresetItem}, Decodes u entry read →
      timeOf time = .ok read.createdAt := by
    intro u read hread
    rcases hread.time with ⟨value, hsome, hvalue⟩ | ⟨hnone, _⟩
    · cases hsome.symm.trans htime
      exact hvalue
    · cases hnone.symm.trans htime
  obtain ⟨name, expr, id', time'⟩ := item
  obtain ⟨name', expr', id'', time''⟩ := again
  cases h.fields.name.symm.trans hagain.fields.name
  cases hexpr.symm.trans hexpr'
  cases (hids h).trans (hids hagain).symm
  cases (htimes h).symm.trans (htimes hagain)
  rfl

/-- What is read twice of complete entries is the same. -/
theorem eq_of_forall_complete {entries : List Json} {items again : List PresetItem}
    (hentries : ∀ entry ∈ entries, Complete entry) (h : List.Forall₂ (Decodes w) entries items)
    (hagain : List.Forall₂ (Decodes v) entries again) : again = items := by
  induction h generalizing again with
  | nil =>
    cases hagain
    rfl
  | cons hitem _ ih =>
    cases hagain with
    | cons hother hothers =>
      rw [List.forall_mem_cons] at hentries
      rw [eq_of_complete hentries.1 hitem hother, ih hentries.2 hothers]

/-- The identifier of what is read counts as true. -/
theorem isTruthy_id_of_decodes (h : Decodes w entry item) : item.id.isTruthy = true := by
  rcases h.id with hid | ⟨_, n, k, hid⟩
  · exact (field?_of_truthy? hid).2
  · simp [hid, Json.isTruthy, JsonText.isEmpty, idOf_ne_empty]

/-- A preset that is written and loaded stays as it is, but for a time that is zero. -/
structure Persists (item again : PresetItem) : Prop where
  /-- The name stays. -/
  name : again.name = item.name
  /-- The formula stays. -/
  expr : again.expr = item.expr
  /-- The identifier stays. -/
  id : again.id = item.id
  /-- The time stays, unless it is zero. -/
  time : item.createdAt ≠ 0 → again.createdAt = item.createdAt

theorem Persists.refl (item : PresetItem) : item.Persists item :=
  ⟨rfl, rfl, rfl, fun _ => rfl⟩

theorem Persists.eq (h : item.Persists again) (htime : item.createdAt ≠ 0) : again = item := by
  obtain ⟨name, expr, id, time⟩ := item
  obtain ⟨name', expr', id', time'⟩ := again
  obtain ⟨rfl, rfl, rfl, heq⟩ := h
  cases heq htime
  rfl

/-- Presets whose times are not zero stay as they are. -/
theorem eq_of_forall₂_persists {items again : List PresetItem}
    (h : List.Forall₂ Persists items again) (htimes : ∀ item ∈ items, item.createdAt ≠ 0) :
    again = items := by
  induction h with
  | nil => rfl
  | cons hitem _ ih =>
    rw [List.forall_mem_cons] at htimes
    rw [hitem.eq htimes.1, ih htimes.2]

end PresetItem

namespace PresetStore

variable {store : PresetStore} {w v u : Workspace} {entries : List Json} {id : Json}
  {items again rest last : List PresetItem} {content : String}

/-- Two loads of a document give what its entries say, and leave it as it is. -/
structure LoadsTwice (store : PresetStore) (w : Workspace) (entries : List Json)
    (items again : List PresetItem) (v u : Workspace) : Prop where
  /-- The first load. -/
  first : store.load w = .ok items v
  /-- The second load. -/
  second : store.load v = .ok again u
  /-- The first load gives what the entries say. -/
  decodes : List.Forall₂ (PresetItem.Decodes w) entries items
  /-- So does the second. -/
  decodesAgain : List.Forall₂ (PresetItem.Decodes v) entries again
  /-- The file stays as it is, and so do all others. -/
  files : v.files = w.files ∧ u.files = w.files

/-- What a deletion leaves of presets, and what is loaded after it. -/
structure DeletesFrom (store : PresetStore) (w : Workspace) (items : List PresetItem) (id : Json)
    (rest last : List PresetItem) : Prop where
  /-- The presets with the identifier are left out. -/
  answer : rest = items.filter fun item => !item.id.same id
  /-- The deletion answers with the others, and then they are loaded. -/
  loads : ∃ v u, store.delete id w = .ok rest v ∧ store.load v = .ok last u
  /-- They persist. -/
  persists : List.Forall₂ PresetItem.Persists rest last
  /-- The identifier is gone. -/
  gone : ∀ item ∈ last, item.id.same id = false

/-- A deletion that cannot be written leaves the file empty, and it is filled at the next load. -/
structure DeletionEmpties (store : PresetStore) (w : Workspace) (id : Json) (fault : Fault)
    (v : Workspace) : Prop where
  /-- The deletion fails. -/
  answer : store.delete id w = .error fault v
  /-- The fault is that of the encoding, if the store does not try again after it. -/
  fault : store.policy.retryOn .unencodable = false → fault = .unencodable
  /-- The file is empty. -/
  file : v.files.read store.path = .ok (.text "")
  /-- Then the default presets are loaded. -/
  refills : store.Refills v

/-- A document is loaded twice. -/
theorem exists_loadsTwice (htext : w.files.readText store.path = .ok content)
    (hblank : Text.blank content.toList = false) (hsound : PresetDocument.Sound content entries) :
    ∃ items again v u, store.LoadsTwice w entries items again v u := by
  obtain ⟨items, v, hload, hdecodes, hfiles⟩ := load_of_sound htext hblank hsound
  have htext : v.files.readText store.path = .ok content := hfiles ▸ htext
  obtain ⟨again, u, hagain, hdecodesAgain, hsame⟩ := load_of_sound htext hblank hsound
  exact ⟨items, again, v, u, hload, hagain, hdecodes, hdecodesAgain, hfiles, hsame.trans hfiles⟩

/-- The presets without those of an identifier. -/
def without (items : List PresetItem) (id : Json) : List PresetItem :=
  items.filter fun item => !item.id.same id

/-- A deletion writes what is left of the presets that are loaded. -/
theorem delete_apply (hload : store.load w = .ok items v) (id : Json) :
    store.delete id w = (do
      store.write (without items id)
      return without items id : Work _) v := by
  rw [delete, Work.bind_of_ok hload]
  rfl

/-- What is loaded and has identifiers that count as true can be deleted from, if what is left has
no half of a character. -/
theorem exists_deletesFrom (hload : store.load w = .ok items v) (hpending : w.pending = [])
    (hwritable : w.files.Writable store.path) (htimed : w.Timed)
    (hreadable : ∀ item ∈ items, item.Readable) (hids : ∀ item ∈ items, item.id.isTruthy = true)
    {id : Json} (hwhole : (without items id).all PresetItem.isWhole = true) :
    ∃ rest last, store.DeletesFrom w items id rest last := by
  obtain ⟨hvpending, hvwritable⟩ := writable_of_load hload hpending hwritable
  have hlater := (frame_later store).load w
  rw [Work.left_of_ok hload] at hlater
  have hsub : ∀ item ∈ without items id, item ∈ items := fun _ hitem => List.mem_of_mem_filter hitem
  rcases write_ends hvpending hvwritable (without items id) with
    ⟨x, hwrite, hfile⟩ | ⟨hhalf, _⟩
  · have hdelete : store.delete id w = .ok (without items id) x :=
      (delete_apply hload id).trans (Work.bind_of_ok hwrite)
    have hx := (frame_later store).write (without items id) v
    rw [Work.left_of_ok hwrite] at hx
    obtain ⟨last, u, hlast, hrereads, _⟩ := load_of_hasDocument ((hlater.trans hx).timed htimed)
      hfile fun item hitem => hreadable item (hsub item hitem)
    have hpersists : List.Forall₂ PresetItem.Persists (without items id) last := by
      refine List.forall₂_iff_get.mpr ⟨hrereads.length_eq, fun i hi hi' => ?_⟩
      have hitem := (List.forall₂_iff_get.mp hrereads).2 i hi hi'
      exact ⟨hitem.name, hitem.expr, hitem.id (hids _ (hsub _ (List.get_mem _ _))), hitem.time⟩
    refine ⟨_, last, rfl, ⟨x, u, hdelete, hlast⟩, hpersists, fun item hitem => ?_⟩
    obtain ⟨old, hold, hsame⟩ := exists_of_forall₂ hpersists hitem
    rw [hsame.id]
    simpa using (List.mem_filter.mp hold).2
  · rw [hwhole] at hhalf
    cases hhalf

/-- Where half of a character would be left, the deletion fails and leaves the file empty. -/
theorem exists_deletionEmpties (hload : store.load w = .ok items v) (hpending : w.pending = [])
    (hwritable : w.files.Writable store.path) {id : Json}
    (hhalf : (without items id).all PresetItem.isWhole = false) :
    ∃ fault u, store.DeletionEmpties w id fault u := by
  obtain ⟨hvpending, hvwritable⟩ := writable_of_load hload hpending hwritable
  obtain ⟨fault, u, hempties⟩ := exists_write_halved hvpending hvwritable hhalf
  have hlater := (frame_later store).write (without items id) v
  have hspares := (frame_spares store).write (without items id) v
  rw [Work.left_of_error hempties.answer] at hlater hspares
  exact ⟨fault, u, (delete_apply hload id).trans (Work.bind_of_error hempties.answer),
    hempties.fault, hempties.file, refills_of_unfilled (hlater.pending_eq_nil hvpending)
      (hspares.alike.writable hvwritable) (unfilled_of_empty hempties.file)⟩

/-- A document of presets is loaded twice with what its entries say, and it stays as it is. After a
deletion what is left of the second load is loaded, but for times that are zero; only where half of
a character would be left, the deletion fails, and the file is empty. Where the entries are
complete, the two loads give the same presets; and where no time is zero besides, each of them whose
identifier is no NaN can be deleted by it, if the others have no half of a character: it is gone,
and the others stay as they are. -/
theorem load_twice (store : PresetStore) (w : Workspace) {content : String} {entries : List Json}
    (hpending : w.pending = []) (hwritable : w.files.Writable store.path) (htimed : w.Timed)
    (htext : w.files.readText store.path = .ok content)
    (hblank : Text.blank content.toList = false) (hsound : PresetDocument.Sound content entries) :
    ∃ items again v u, store.LoadsTwice w entries items again v u ∧
      (∀ id, ((without again id).all PresetItem.isWhole = true →
          ∃ rest last, store.DeletesFrom v again id rest last) ∧
        ((without again id).all PresetItem.isWhole = false →
          ∃ fault x, store.DeletionEmpties v id fault x)) ∧
      ((∀ entry ∈ entries, PresetItem.Complete entry) → again = items ∧
        ((∀ item ∈ items, item.createdAt ≠ 0) → ∀ item ∈ items, item.id.isNaN = false →
          (without items item.id).all PresetItem.isWhole = true →
            ∃ rest, store.DeletesFrom v items item.id rest rest ∧ item ∉ rest)) := by
  obtain ⟨items, again, v, u, hloads⟩ := exists_loadsTwice htext hblank hsound
  obtain ⟨hvpending, hvwritable⟩ := writable_of_load hloads.first hpending hwritable
  have hlater := (frame_later store).load w
  rw [Work.left_of_ok hloads.first] at hlater
  have hvtimed := hlater.timed htimed
  have hreadable :=
    PresetItem.readable_of_forall₂_decodes hvtimed hsound.1.readable hloads.decodesAgain
  have hids : ∀ item ∈ again, item.id.isTruthy = true := by
    intro item hitem
    obtain ⟨entry, _, hdecodes⟩ := exists_of_forall₂ hloads.decodesAgain hitem
    exact PresetItem.isTruthy_id_of_decodes hdecodes
  have hdeletes : ∀ id, (without again id).all PresetItem.isWhole = true →
      ∃ rest last, store.DeletesFrom v again id rest last := fun id =>
    exists_deletesFrom hloads.second hvpending hvwritable hvtimed hreadable hids
  refine ⟨items, again, v, u, hloads, fun id => ⟨hdeletes id,
    exists_deletionEmpties hloads.second hvpending hvwritable⟩, fun hcomplete => ?_⟩
  obtain rfl := PresetItem.eq_of_forall_complete hcomplete hloads.decodes hloads.decodesAgain
  refine ⟨rfl, fun htimes item hitem hnan hwhole => ?_⟩
  obtain ⟨rest, last, hdelete⟩ := hdeletes item.id hwhole
  have hrest : last = rest := by
    refine PresetItem.eq_of_forall₂_persists hdelete.persists fun other hother => ?_
    rw [hdelete.answer] at hother
    exact htimes other (List.mem_of_mem_filter hother)
  subst hrest
  refine ⟨last, hdelete, fun hthere => ?_⟩
  have hself := Json.same_self (hreadable item hitem).id hnan
  rw [hdelete.gone item hthere] at hself
  cases hself

/-! ## A file with two presets -/

/-- A preset whose name is half of a character. -/
def halvedPreset : PresetItem :=
  ⟨.text halvedName, .text "b", .text "i", 5⟩

/-- A preset without such a half. -/
def lastingPreset : PresetItem :=
  ⟨.text "c", .text "d", .text "j", 5⟩

/-- A document with the two presets. -/
def pairText : String :=
  "\x7b\"version\":1,\"items\":[" ++
    "\x7b\"id\":\"i\",\"name\":\"\\ud800\",\"formula\":\x7b\"expr\":\"b\"\x7d," ++
    "\"createdAt\":5\x7d," ++
    "\x7b\"id\":\"j\",\"name\":\"c\",\"formula\":\x7b\"expr\":\"d\"\x7d,\"createdAt\":5\x7d]\x7d"

/-- A workspace whose only file is the document. -/
def filledWorkspace : Workspace :=
  { bareWorkspace with files := ⟨[], [([fileName], .text pairText)]⟩ }

theorem find_filled :
    filledWorkspace.files.find fileName = .ok (.file [fileName] (.text pairText)) := by
  rw [find_fileName, Files.placeAt]
  simp [Files.get?, filledWorkspace]

theorem sound_pairText :
    PresetDocument.Sound pairText [halvedPreset.toJson, lastingPreset.toJson] := by
  have hread : Json.read pairText =
      some (PresetDocument.toJson [halvedPreset, lastingPreset]) := by cbv
  refine ⟨⟨_, .int PresetDocument.version, hread, rfl, rfl, rfl⟩, ?_⟩
  simp [PresetItem.convertible_toJson]

/-- Both presets are loaded twice as they are. The first one can be deleted, and the second one
stays as it is; but when the second one is deleted, the file is left empty. -/
theorem load_twice_filled : filledWorkspace.pending = [] ∧
    filledWorkspace.files.Writable bareStore.path ∧ filledWorkspace.Timed ∧
    filledWorkspace.files.readText bareStore.path = .ok pairText ∧
    Text.blank pairText.toList = false ∧
    PresetDocument.Sound pairText [halvedPreset.toJson, lastingPreset.toJson] ∧
    ∃ v u, bareStore.LoadsTwice filledWorkspace [halvedPreset.toJson, lastingPreset.toJson]
        [halvedPreset, lastingPreset] [halvedPreset, lastingPreset] v u ∧
      bareStore.DeletesFrom v [halvedPreset, lastingPreset] halvedPreset.id [lastingPreset]
        [lastingPreset] ∧
      ∃ x, bareStore.DeletionEmpties v lastingPreset.id .unencodable x := by
  have hwritable : filledWorkspace.files.Writable bareStore.path :=
    fun _ => ⟨_, Files.write_of_find (by decide +kernel) find_filled rfl⟩
  have htext : filledWorkspace.files.readText bareStore.path = .ok pairText := by
    have hshown : (FileContent.text pairText).text? = some pairText := by cbv
    have hread : filledWorkspace.files.read fileName = .ok (.text pairText) := by
      rw [Files.read, find_filled]
      rfl
    show filledWorkspace.files.readText fileName = _
    rw [Files.readText, hread, ok_bind, hshown]
    rfl
  have hblank : Text.blank pairText.toList = false := by decide +kernel
  have htimed : filledWorkspace.Timed := works_bare.clock.timed
  refine ⟨rfl, hwritable, htimed, htext, hblank, sound_pairText, ?_⟩
  obtain ⟨items, again, v, u, hloads, hdeletes, hcomplete⟩ :=
    load_twice bareStore filledWorkspace rfl hwritable htimed htext hblank sound_pairText
  have hentries : ∀ entry ∈ [halvedPreset.toJson, lastingPreset.toJson],
      PresetItem.Complete entry := by
    simp only [List.forall_mem_cons, List.not_mem_nil, false_implies, implies_true, and_true]
    constructor
    all_goals
      refine ⟨?_, ?_⟩
      · rw [PresetItem.truthy?_id_toJson]
        rfl
      · rw [PresetItem.truthy?_createdAt_toJson]
        rfl
  obtain ⟨rfl, hdelete⟩ := hcomplete hentries
  obtain rfl : again = [halvedPreset, lastingPreset] := by
    obtain ⟨first, others, hfirst, hothers, rfl⟩ := List.forall₂_cons_left_iff.mp hloads.decodes
    obtain ⟨second, rest, hsecond, hrest, rfl⟩ := List.forall₂_cons_left_iff.mp hothers
    cases hrest
    rw [(PresetItem.rereads_of_decodes hfirst).eq rfl (by decide),
      (PresetItem.rereads_of_decodes hsecond).eq rfl (by decide)]
  have hrest : without [halvedPreset, lastingPreset] halvedPreset.id = [lastingPreset] := by
    simp [without, halvedPreset, lastingPreset, Json.same, Json.isNaN, Json.sameKey]
  have hother : without [halvedPreset, lastingPreset] lastingPreset.id = [halvedPreset] := by
    simp [without, halvedPreset, lastingPreset, Json.same, Json.isNaN, Json.sameKey]
  obtain ⟨rest, hfirst, _⟩ := hdelete (by decide) halvedPreset (by simp) rfl (by rw [hrest]; rfl)
  obtain ⟨fault, x, hsecond⟩ := (hdeletes lastingPreset.id).2 (by rw [hother]; rfl)
  obtain rfl : rest = [lastingPreset] := hfirst.answer.trans hrest
  obtain rfl := hsecond.fault rfl
  exact ⟨v, u, hloads, hfirst, x, hsecond⟩

end PresetStore

end LayerBlend
