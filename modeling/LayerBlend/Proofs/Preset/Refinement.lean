import LayerBlend.Proofs.Preset.Shelf
import LayerBlend.Proofs.Preset.Writing

/-!
# A store of presets is a list in a file

* `PresetStore.Works`, `PresetStore.Unfilled` — the file can be written and the clock runs; the file
  is missing or blank.
* `PresetStore.Holds` — the file is the document of a list of plain presets.
* `PresetStore.exists_load` — what a store loads is what a shelf opens.
* `PresetStore.agrees_answer` — every operation of a store agrees with that of a shelf, one lemma
  for each, and `PresetStore.agrees_run` says so of many.
* `PresetStore.run_refines_list` — a store whose file is missing or blank refines a list in memory.
-/

namespace LayerBlend

namespace PresetStore

variable {store : PresetStore} {w v : Workspace} {items : List PresetItem}
  {kept : Option (List PresetItem)}

/-- The file of a store can be written, and the clock runs. -/
structure Works (store : PresetStore) (w : Workspace) : Prop where
  /-- No fault is pending for the next attempts to write. -/
  pending : w.pending = []
  /-- The file can be written. -/
  writable : w.files.Writable store.path
  /-- The clock runs. -/
  clock : w.Clocked

/-- Readings of the clock and draws make no difference to a store. -/
theorem Works.spent (h : store.Works w) (readings draws : Nat) :
    store.Works (w.spent readings draws) :=
  ⟨h.pending, h.writable, h.clock⟩

/-- The file of a store is missing or blank. -/
def Unfilled (store : PresetStore) (w : Workspace) : Prop :=
  w.files.readText store.path = .error .missing ∨
    ∃ s, w.files.readText store.path = .ok s ∧ Text.blank s.toList = true

/-- An empty file is blank. -/
theorem unfilled_of_empty (h : w.files.read store.path = .ok (.text "")) : store.Unfilled w := by
  have hempty : (FileContent.text "").text? = some "" := by decide
  refine Or.inr ⟨"", ?_, rfl⟩
  rw [Files.readText, h, ok_bind, hempty]
  rfl

/-- What is read from a file that is missing or blank is blank. -/
theorem blank_of_unfilled {content : String} (h : store.Unfilled w)
    (htext : w.files.readText store.path = .ok content) :
    Text.blank content.toList = true := by
  rcases h with hmissing | ⟨s, hs, hblank⟩
  · cases htext.symm.trans hmissing
  · cases htext.symm.trans hs
    exact hblank

/-- The file of a store is the document of plain presets. -/
structure Holds (store : PresetStore) (w : Workspace) (items : List PresetItem) : Prop where
  /-- The file is their document. -/
  file : store.HasDocument w items
  /-- They are plain. -/
  plain : ∀ item ∈ items, item.Plain

/-- The file of a store is what a shelf keeps. -/
def Matches (store : PresetStore) (w : Workspace) : Option (List PresetItem) → Prop
  | none => store.Unfilled w
  | some items => store.Holds w items

/-! ## Writing -/

/-- Plain presets that are written are held. -/
theorem exists_write (hworks : store.Works w) (hplain : ∀ item ∈ items, item.Plain) :
    ∃ files, store.write items w = .ok () { w with files } ∧
      store.Works { w with files } ∧ store.Holds { w with files } items := by
  have htext := PresetDocument.write_of_exact fun item hitem => (hplain item hitem).exact
  obtain ⟨files, hfiles⟩ := hworks.writable (.text (PresetDocument.write items).shown)
  exact ⟨files, write_apply hworks.pending htext hfiles,
    ⟨hworks.pending, Files.writable_write hfiles, hworks.clock⟩,
    ⟨_, htext, Files.read_write hfiles⟩, hplain⟩

/-! ## Loading -/

/-- The presets that are held are loaded, and nothing changes. -/
theorem load_of_holds (h : store.Holds w items) : store.load w = .ok items w := by
  have htext := h.file.readText fun item hitem => (h.plain item hitem).exact.readable
  have hcontent : store.content w = .ok (PresetDocument.write items).shown w := by
    rw [content, Work.get_bind, htext]
    rfl
  rw [load, Work.bind_of_ok hcontent, PresetDocument.blank_write, if_neg Bool.false_ne_true,
    PresetDocument.read_write h.plain]
  rfl

/-- A file that is missing or blank is filled with the default presets. -/
theorem load_of_unfilled (h : store.Unfilled w) : store.load w = store.reset w := by
  obtain ⟨s, hcontent, hblank⟩ : ∃ s, store.content w = .ok s w ∧ Text.blank s.toList = true := by
    rcases h with hmissing | ⟨s, htext, hblank⟩
    · refine ⟨"", ?_, rfl⟩
      rw [content, Work.get_bind, hmissing]
      rfl
    · refine ⟨s, ?_, hblank⟩
      rw [content, Work.get_bind, htext]
      rfl
  rw [load, Work.bind_of_ok hcontent, if_pos hblank]

/-- What a store loads is what a shelf opens, and from then on the store holds it. -/
theorem exists_load (hworks : store.Works w) (hmatches : store.Matches w kept) :
    ∃ items v files, PresetShelf.opened kept w = .ok items v ∧
      store.load w = .ok items { v with files } ∧
      store.Works { v with files } ∧ store.Holds { v with files } items := by
  cases kept with
  | some items => exact ⟨items, w, w.files, rfl, load_of_holds hmatches, hworks, hmatches⟩
  | none =>
    obtain ⟨items, readings, draws, hmake, hplain⟩ := PresetItem.exists_makeDefaults hworks.clock
    obtain ⟨files, hwrite, hafter, hholds⟩ := exists_write (hworks.spent readings draws) hplain
    refine ⟨items, w.spent readings draws, files, hmake, ?_, hafter, hholds⟩
    rw [load_of_unfilled hmatches, reset, Work.bind_of_ok hmake, Work.bind_of_ok hwrite]
    rfl

/-! ## One operation -/

/-- The store gives what the shelf gives, and its file is what the shelf keeps. -/
structure Agrees {ρ : Type} (store : PresetStore) (outcome : ρ × Workspace)
    (expected : ρ × PresetShelf) : Prop where
  /-- The answers are the same. -/
  reply : outcome.1 = expected.1
  /-- Nothing but the files differs. -/
  world : outcome.2 = { expected.2.world with files := outcome.2.files }
  /-- The store works. -/
  works : store.Works outcome.2
  /-- The file is what the shelf keeps. -/
  kept : store.Matches outcome.2 expected.2.kept

/-- An operation that leaves a list leaves it in the file. -/
theorem agrees_of_ok {request : PresetRequest} {reply : PresetReply} {files : Files}
    (hanswer : store.perform request w = .ok reply { v with files })
    (hchange : PresetShelf.change store.path kept request w = .ok (reply, items) v)
    (hworks : store.Works { v with files }) (hholds : store.Holds { v with files } items) :
    store.Agrees (store.answer request w) (PresetShelf.answer store.path request ⟨kept, w⟩) := by
  rw [answer_of_ok hanswer, PresetShelf.answer_of_ok hchange]
  exact ⟨rfl, rfl, hworks, hholds⟩

theorem agrees_load (hworks : store.Works w) (hmatches : store.Matches w kept) :
    store.Agrees (store.answer .load w) (PresetShelf.answer store.path .load ⟨kept, w⟩) := by
  obtain ⟨items, v, files, hopened, hload, hafter, hholds⟩ := exists_load hworks hmatches
  exact agrees_of_ok (Work.map_of_ok hload) (Work.bind_of_ok hopened) hafter hholds

theorem agrees_exportText (hworks : store.Works w) (hmatches : store.Matches w kept) :
    store.Agrees (store.answer .exportText w)
      (PresetShelf.answer store.path .exportText ⟨kept, w⟩) := by
  obtain ⟨items, v, files, hopened, hload, hafter, hholds⟩ := exists_load hworks hmatches
  exact agrees_of_ok (Work.map_of_ok (Work.map_of_ok hload)) (Work.bind_of_ok hopened) hafter hholds

/-- The first preset of the name is found in the list that is loaded. -/
theorem find_apply (hload : store.load w = .ok items v) (name : Json) :
    store.find name w = match items.find? fun item => item.name.same name with
      | some item => .ok item v
      | none => .error (.presetNotFound name store.path) v := by
  rw [find, Work.bind_of_ok hload]
  cases items.find? fun item => item.name.same name <;> rfl

theorem agrees_find (name : String) (hworks : store.Works w) (hmatches : store.Matches w kept) :
    store.Agrees (store.answer (.find name) w)
      (PresetShelf.answer store.path (.find name) ⟨kept, w⟩) := by
  obtain ⟨items, v, files, hopened, hload, hafter, hholds⟩ := exists_load hworks hmatches
  have hfind := find_apply hload (.text name)
  have hchange := PresetShelf.change_find hopened store.path name
  cases hfound : items.find? fun item => item.name.same (.text name) with
  | some item =>
    rw [hfound] at hfind hchange
    exact agrees_of_ok (Work.map_of_ok hfind) hchange hafter hholds
  | none =>
    rw [hfound] at hfind hchange
    have hperform : store.perform (.find name) w = .error _ { v with files } :=
      Work.map_of_error hfind
    rw [answer_of_error hperform, PresetShelf.answer_of_ok hchange]
    exact ⟨rfl, rfl, hafter, hholds⟩

theorem agrees_delete (id : String) (hworks : store.Works w) (hmatches : store.Matches w kept) :
    store.Agrees (store.answer (.delete id) w)
      (PresetShelf.answer store.path (.delete id) ⟨kept, w⟩) := by
  obtain ⟨items, v, files, hopened, hload, hafter, hholds⟩ := exists_load hworks hmatches
  have hplain : ∀ item ∈ items.filter (fun item => !item.id.same (.text id)), item.Plain :=
    fun item hitem => hholds.plain item (List.mem_of_mem_filter hitem)
  obtain ⟨after, hwrite, hafter, hholds⟩ := exists_write hafter hplain
  have hdelete : store.delete (.text id) w =
      .ok (items.filter fun item => !item.id.same (.text id)) { v with files := after } := by
    rw [delete, Work.bind_of_ok hload]
    exact Work.bind_of_ok hwrite
  exact agrees_of_ok (Work.map_of_ok hdelete) (Work.bind_of_ok hopened) hafter hholds

theorem agrees_save (name expr : String) (hworks : store.Works w)
    (hmatches : store.Matches w kept) :
    store.Agrees (store.answer (.save name expr) w)
      (PresetShelf.answer store.path (.save name expr) ⟨kept, w⟩) := by
  obtain ⟨items, v, files, hopened, hload, hafter, hholds⟩ := exists_load hworks hmatches
  have hmake := PresetItem.make_apply (.text name) (.text expr)
  -- the store makes the preset among other files than the shelf, but it is the same preset
  have hmade := (PresetItem.made_madeIn { v with files } (.text name) (.text expr)).plain
    hafter.clock ⟨name, rfl⟩ ⟨expr, rfl⟩
  have hplain : ∀ item ∈ items ++ [PresetItem.madeIn v (.text name) (.text expr)], item.Plain :=
    List.forall_mem_append.mpr ⟨hholds.plain, List.forall_mem_singleton.mpr hmade⟩
  obtain ⟨after, hwrite, hafter, hholds⟩ := exists_write (hafter.spent 2 1) hplain
  have hsave : store.save (.text name) (.text expr) w =
      .ok (items ++ [PresetItem.madeIn v (.text name) (.text expr)])
        { v.spent 2 1 with files := after } := by
    rw [save, Work.bind_of_ok hload]
    refine (Work.bind_of_ok (hmake { v with files })).trans ?_
    exact Work.bind_of_ok hwrite
  refine agrees_of_ok (Work.map_of_ok hsave) ?_ hafter hholds
  rw [PresetShelf.change, Work.bind_of_ok hopened, Work.bind_of_ok (hmake v)]
  rfl

/-- Readings of the clock and draws make no difference to a file. -/
theorem Matches.spent (h : store.Matches w kept) (readings draws : Nat) :
    store.Matches (w.spent readings draws) kept := by
  cases kept with
  | none => exact h
  | some items => exact ⟨h.file, h.plain⟩

/-- An import whose document is read brings its presets, made anew, to those that are loaded. -/
theorem agrees_importText_of_ok {text : String} {parsed : List PresetItem}
    (htexts : PresetDocument.HasTexts text) (hread : PresetDocument.read text w = .ok parsed v)
    (hworks : store.Works v) (hmatches : store.Matches v kept) :
    store.Agrees (store.answer (.importText text) w)
      (PresetShelf.answer store.path (.importText text) ⟨kept, w⟩) := by
  obtain ⟨imported, hmake, hmade, _⟩ :=
    PresetItem.mapM_make PresetItem.name PresetItem.expr parsed v
  obtain ⟨items, u, files, hopened, hload, hafter, hholds⟩ :=
    exists_load (hworks.spent _ _) (hmatches.spent _ _)
  have himported := PresetItem.plain_of_forall₂_made hworks.clock (htexts.read hread) hmade
  have hplain : ∀ item ∈ items ++ imported, item.Plain :=
    List.forall_mem_append.mpr ⟨hholds.plain, himported⟩
  have hmerge := PresetDocument.merge_of_texts fun item hitem =>
    ⟨(hplain item hitem).name, (hplain item hitem).expr⟩
  obtain ⟨after, hwrite, hafter, hholds⟩ := exists_write hafter fun item hitem =>
    hplain item (PresetDocument.mem_of_mem_collapse hitem)
  have himport : store.importText text w =
      .ok (PresetDocument.collapse (items ++ imported)) { u with files := after } := by
    rw [importText, Work.bind_of_ok hread, Work.bind_of_ok hmake, Work.bind_of_ok hload, hmerge]
    exact Work.bind_of_ok hwrite
  refine agrees_of_ok (Work.map_of_ok himport) ?_ hafter hholds
  rw [PresetShelf.change, Work.bind_of_ok hread, Work.bind_of_ok hmake, Work.bind_of_ok hopened]
  rfl

theorem agrees_importText {text : String} (htexts : PresetDocument.HasTexts text)
    (hworks : store.Works w) (hmatches : store.Matches w kept) :
    store.Agrees (store.answer (.importText text) w)
      (PresetShelf.answer store.path (.importText text) ⟨kept, w⟩) := by
  obtain ⟨outcome, readings, draws, hframe⟩ := PresetDocument.onlySpends_read text w
  have hread : PresetDocument.read text w = _ := hframe w.files
  cases outcome with
  | error fault =>
    have hanswer : store.perform (.importText text) w = .error fault (w.spent readings draws) :=
      Work.map_of_error (Work.bind_of_error hread)
    rw [answer_of_error hanswer, PresetShelf.answer_rejected hread]
    exact ⟨rfl, rfl, hworks.spent readings draws, hmatches.spent readings draws⟩
  | ok parsed =>
    exact agrees_importText_of_ok htexts hread (hworks.spent readings draws)
      (hmatches.spent readings draws)

/-- Every operation of a store agrees with that of a shelf. -/
theorem agrees_answer {request : PresetRequest} (htexts : request.HasTexts)
    (hworks : store.Works w) (hmatches : store.Matches w kept) :
    store.Agrees (store.answer request w)
      (PresetShelf.answer store.path request ⟨kept, w⟩) := by
  cases request with
  | load => exact agrees_load hworks hmatches
  | save name expr => exact agrees_save name expr hworks hmatches
  | delete id => exact agrees_delete id hworks hmatches
  | exportText => exact agrees_exportText hworks hmatches
  | importText text => exact agrees_importText htexts hworks hmatches
  | find name => exact agrees_find name hworks hmatches

/-! ## Many operations -/

/-- Operations one after the other on a store agree with those on a shelf, whatever files the shelf
stands among. -/
theorem agrees_run {requests : List PresetRequest}
    (htexts : ∀ request ∈ requests, request.HasTexts) (hworks : store.Works w)
    (hmatches : store.Matches w kept) (files : Files) :
    store.Agrees (store.run requests w)
      (PresetShelf.run store.path requests ⟨kept, { w with files }⟩) := by
  induction requests generalizing w kept with
  | nil => exact ⟨rfl, rfl, hworks, hmatches⟩
  | cons request requests ih =>
    rw [List.forall_mem_cons] at htexts
    have hstep := agrees_answer htexts.1 hworks hmatches
    have hrest := ih htexts.2 hstep.works hstep.kept
    have hworld : ({ (PresetShelf.answer store.path request ⟨kept, w⟩).2.world with files } :
        Workspace) = { (store.answer request w).2 with files } := by
      rw [hstep.world]
    rw [run_cons, PresetShelf.run_cons, PresetShelf.answer_frame]
    simp only
    rw [hworld, ← hstep.reply]
    exact ⟨congrArg _ hrest.reply, hrest.world, hrest.works, hrest.kept⟩

/-! ## Before there is a list -/

/-- An import whose document cannot be read is refused, and no file is touched. -/
theorem answer_rejected (store : PresetStore) {text : String} {fault : Fault}
    (hread : PresetDocument.read text w = .error fault v) :
    store.answer (.importText text) w = (.refused fault, v) ∧ v.files = w.files := by
  refine ⟨answer_of_error (Work.map_of_error (Work.bind_of_error hread)), ?_⟩
  obtain ⟨outcome, readings, draws, hframe⟩ := PresetDocument.onlySpends_read text w
  have hspent := hread.symm.trans (hframe w.files)
  cases outcome with
  | ok parsed => cases hspent
  | error fault =>
    cases hspent
    rfl

/-- As long as a shelf has no list, all operations were imports, all were refused, and the files of
the store are as they were. -/
theorem run_of_kept_eq_none {requests : List PresetRequest}
    (h : (PresetShelf.run store.path requests ⟨kept, w⟩).2.kept = none) :
    (store.run requests w).2.files = w.files ∧
      (∀ request ∈ requests, ∃ text, request = .importText text) ∧
      ∀ reply ∈ (store.run requests w).1, ∃ fault, reply = .refused fault := by
  induction requests generalizing w kept with
  | nil => exact ⟨rfl, by simp, by simp [run]⟩
  | cons request requests ih =>
    -- a shelf without a list in the end has none after its first operation
    obtain ⟨_, text, fault, v, rfl, hread⟩ :=
      PresetShelf.of_kept_eq_none (PresetShelf.kept_eq_none_of_run h)
    obtain ⟨hanswer, hfiles⟩ := store.answer_rejected hread
    rw [PresetShelf.run_cons, PresetShelf.answer_rejected hread] at h
    obtain ⟨hrest, himports, hrefused⟩ := ih h
    rw [run_cons, hanswer]
    refine ⟨hrest.trans hfiles, ?_, ?_⟩
    · exact List.forall_mem_cons.mpr ⟨⟨text, rfl⟩, himports⟩
    · exact List.forall_mem_cons.mpr ⟨⟨fault, rfl⟩, hrefused⟩

/-! ## Once there is a list -/

/-- The store and the shelf keep a list of presets: it is in the file, and it stays as it is until
it is changed. -/
structure Keeps (store : PresetStore) (w : Workspace) (shelf : PresetShelf)
    (items : List PresetItem) : Prop where
  /-- The file is the document of the list. -/
  file : store.HasDocument w items
  /-- The list is loaded, also when it is empty, and nothing changes. -/
  load : store.answer .load w = (.presets items, w)
  /-- A look changes neither file nor list, whatever it gives. -/
  look : ∀ request : PresetRequest, request.IsLook → (store.answer request w).2 = w ∧
    (PresetShelf.answer store.path request shelf).2.kept = some items
  /-- An import that is refused changes neither file nor list. -/
  rejected : ∀ text fault, PresetDocument.HasTexts text →
    (store.answer (.importText text) w).1 = .refused fault →
    (store.answer (.importText text) w).2.files = w.files ∧
      (PresetShelf.answer store.path (.importText text) shelf).2.kept = some items

/-- A look at a store that holds a list changes nothing. -/
theorem answer_of_isLook {request : PresetRequest} (hlook : request.IsLook)
    (h : store.Holds w items) : (store.answer request w).2 = w := by
  have hload := load_of_holds h
  cases request with
  | load => rw [answer_of_ok (Work.map_of_ok hload)]
  | exportText => rw [answer_of_ok (Work.map_of_ok (Work.map_of_ok hload))]
  | find name =>
    have hfind := find_apply hload (.text name)
    cases hfound : items.find? fun item => item.name.same (.text name) with
    | some item =>
      rw [hfound] at hfind
      rw [answer_of_ok (Work.map_of_ok hfind)]
    | none =>
      rw [hfound] at hfind
      rw [answer_of_error (Work.map_of_error hfind)]
  | save => exact hlook.elim
  | delete => exact hlook.elim
  | importText => exact hlook.elim

/-- A store that works and holds what a shelf keeps keeps it. -/
theorem keeps_of_holds (hworks : store.Works w) (h : store.Holds w items) (files : Files) :
    store.Keeps w ⟨some items, { w with files }⟩ items := by
  refine ⟨h.file, answer_of_ok (Work.map_of_ok (load_of_holds h)), fun request hlook =>
    ⟨answer_of_isLook hlook h, PresetShelf.kept_of_isLook hlook _ _ _⟩,
    fun text fault htexts hrefused => ?_⟩
  rw [PresetShelf.answer_frame]
  have hagrees : store.Agrees (store.answer (.importText text) w)
      (PresetShelf.answer store.path (.importText text) ⟨some items, w⟩) :=
    agrees_importText htexts hworks h
  rcases PresetShelf.answer_importText store.path text (some items) w with
    ⟨fault, v, hread, hanswer⟩ | ⟨items, v, hanswer⟩
  · obtain ⟨hstore, hfiles⟩ := store.answer_rejected hread
    rw [hanswer, hstore]
    exact ⟨hfiles, rfl⟩
  · rw [hagrees.reply, hanswer] at hrefused
    cases hrefused

/-! ## A store without files -/

/-- A workspace without files, whose clock stands at the first millisecond. -/
def bareWorkspace : Workspace :=
  ⟨.empty, "", fun _ => 1, 0, fun _ => "", 0, [], [], []⟩

/-- The store of such a workspace, with a file that is not there. -/
def bareStore : PresetStore :=
  ⟨fileName, defaultPolicy⟩

/-- The name of a file in the directory that paths start from leads to it. -/
theorem find_fileName (files : Files) :
    files.find fileName = .ok (files.placeAt [fileName]) := by
  have hparts : Path.parts fileName = [fileName] := by
    rw [Path.parts, fileName, String.splitOn, if_neg (by decide)]
    iterate 13 rw [String.splitOnAux, if_neg (by decide +kernel), if_neg (by decide +kernel)]
    rw [String.splitOnAux, if_pos (by decide +kernel)]
    decide +kernel
  have hstart : Path.start fileName = [] := by decide +kernel
  have henter : files.enter [] fileName = .ok (files.placeAt [fileName]) := by
    rw [Files.enter, if_neg (by decide +kernel), if_neg (by decide +kernel),
      if_neg (by decide +kernel), List.nil_append]
  have hcheck : Path.check fileName = .ok () := by decide +kernel
  rw [Files.find, hcheck, hparts, hstart, ok_bind, Files.follow, henter]
  exact bind_pure _

theorem find_bare : bareWorkspace.files.find fileName = .ok (.unused [fileName]) :=
  find_fileName _

theorem works_bare : bareStore.Works bareWorkspace where
  pending := rfl
  writable _ := ⟨_, Files.write_of_find (by decide +kernel) find_bare rfl⟩
  clock _ := ⟨Int.le_refl 1, by show (1 : Int) < 2 ^ 1024; decide +kernel⟩

theorem unfilled_bare : bareStore.Unfilled bareWorkspace := by
  refine Or.inl ?_
  show bareWorkspace.files.readText fileName = _
  rw [Files.readText, Files.read, find_bare]
  rfl

theorem read_notJson (w : Workspace) :
    PresetDocument.read "not json" w = .error (.document .notJson) w := by
  have h : PresetDocument.entriesOf "not json" = .error (.document .notJson) := rfl
  rw [PresetDocument.read, h]
  rfl

theorem hasTexts_notJson : PresetDocument.HasTexts "not json" := by
  intro entries h
  cases h

/-! ## The refinement -/

/-- A store whose file is missing or blank refines a list in memory that starts as the default
presets: operation after operation it gives the same answers and spends the same readings of the
clock and draws. As long as there is no list, all operations were imports that were refused, and the
files are as they were. Once there is one, the file is its document, loading gives it back, and a
look or an import that is refused changes neither. -/
theorem run_refines_list (store : PresetStore) (w : Workspace) (requests : List PresetRequest)
    (hworks : store.Works w) (hunfilled : store.Unfilled w)
    (htexts : ∀ request ∈ requests, request.HasTexts) :
    let outcome := store.run requests w
    let expected := PresetShelf.run store.path requests ⟨none, w⟩
    outcome.1 = expected.1 ∧
      outcome.2 = { expected.2.world with files := outcome.2.files } ∧
      match expected.2.kept with
      | none =>
        outcome.2.files = w.files ∧
          (∀ request ∈ requests, ∃ text, request = .importText text) ∧
          ∀ reply ∈ outcome.1, ∃ fault, reply = .refused fault
      | some items => store.Keeps outcome.2 expected.2 items := by
  intro outcome expected
  have hagrees : store.Agrees outcome expected :=
    agrees_run htexts hworks (show store.Matches w none from hunfilled) w.files
  refine ⟨hagrees.reply, hagrees.world, ?_⟩
  cases hkept : expected.2.kept with
  | none => exact run_of_kept_eq_none hkept
  | some items =>
    have hholds : store.Holds outcome.2 items := by
      have hmatches := hagrees.kept
      rwa [hkept] at hmatches
    have hshelf : expected.2 =
        ⟨some items, { outcome.2 with files := expected.2.world.files }⟩ := by
      rw [hagrees.world, ← hkept]
    show store.Keeps outcome.2 expected.2 items
    rw [hshelf]
    exact keeps_of_holds hagrees.works hholds _

/-- A preset of a document. -/
def otherPreset : PresetItem :=
  ⟨.text "c", .text "d", .text "e", 1⟩

theorem plain_otherPreset : ∀ item ∈ [otherPreset], item.Plain := by
  refine List.forall_mem_singleton.mpr ⟨⟨"c", rfl⟩, ⟨"d", rfl⟩, ⟨"e", by decide, rfl⟩, ?_⟩
  exact ⟨Int.le_refl 1, by show (1 : Int) < 2 ^ 1024; decide +kernel⟩

/-- The text of a document with this preset. -/
def otherText : String :=
  (PresetDocument.write [otherPreset]).shown

theorem hasTexts_otherText : PresetDocument.HasTexts otherText :=
  PresetDocument.hasTexts_write (fun item hitem => (plain_otherPreset item hitem).exact)
    fun item hitem => ⟨(plain_otherPreset item hitem).name, (plain_otherPreset item hitem).expr⟩

/-- The identifier that is made wherever the clock shows one and the random part is empty. -/
def firstId : String :=
  PresetItem.idOf 1 ""

/-- All presets that are made there have it. -/
theorem id_of_made_bare {name expr : Json} {item : PresetItem}
    (h : PresetItem.Made bareWorkspace name expr item) : item.id = .text firstId := by
  obtain ⟨_, _, hid⟩ := h.id
  exact hid

/-- Deleting the identifier leaves none of them. -/
theorem filter_firstId {items : List PresetItem} (h : ∀ item ∈ items, item.id = .text firstId) :
    items.filter (fun item => !item.id.same (.text firstId)) = [] := by
  refine List.filter_eq_nil_iff.mpr fun item hitem => ?_
  simp [h item hitem, Json.same, Json.isNaN, Json.sameKey]

/-- An import that is refused, a preset that is saved, one that is imported, a deletion by the
identifier that all of them have, and a load. -/
def bareRequests : List PresetRequest :=
  [.importText "not json", .save "a" "b", .importText otherText, .delete firstId, .load]

/-- What a shelf answers: the list starts with the default presets after the import that is refused,
and it stays empty after the deletion. -/
theorem exists_shelf_run_bare : ∃ made saved copy v,
    PresetShelf.run bareStore.path bareRequests ⟨none, bareWorkspace⟩ =
      ([.refused (.document .notJson), .presets (made ++ [saved]),
        .presets (PresetDocument.collapse (made ++ [saved] ++ [copy])), .presets [], .presets []],
        ⟨some [], v⟩) ∧
      PresetItem.DefaultsMade bareWorkspace made ∧
      PresetItem.Made bareWorkspace (.text "a") (.text "b") saved ∧
      PresetItem.Made bareWorkspace (.text "c") (.text "d") copy := by
  have hrefused : PresetShelf.answer bareStore.path (.importText "not json")
      ⟨none, bareWorkspace⟩ = (.refused (.document .notJson), ⟨none, bareWorkspace⟩) :=
    PresetShelf.answer_rejected (read_notJson bareWorkspace)
  obtain ⟨made, readings, draws, hmake, hmade⟩ := PresetItem.exists_defaultsMade bareWorkspace
  have hstarted : PresetShelf.opened none bareWorkspace =
      .ok made (bareWorkspace.spent readings draws) := hmake
  have hsave := PresetShelf.answer_save hstarted bareStore.path "a" "b"
  have hsaved := PresetItem.made_madeIn (bareWorkspace.spent readings draws) (.text "a") (.text "b")
  generalize PresetItem.madeIn (bareWorkspace.spent readings draws) (.text "a") (.text "b") = saved
    at hsave hsaved
  have hread : PresetDocument.read otherText ((bareWorkspace.spent readings draws).spent 2 1) = _ :=
    congrFun (PresetDocument.read_write plain_otherPreset) _
  obtain ⟨imported, items, v, himported, hopened, himport⟩ :=
    PresetShelf.exists_answer_imported hread bareStore.path (some (made ++ [saved]))
  cases hopened
  obtain ⟨copy, others, hcopy, hothers, rfl⟩ := List.forall₂_cons_left_iff.mp himported
  cases hothers
  have hids : ∀ item ∈ PresetDocument.collapse (made ++ [saved] ++ [copy]),
      item.id = .text firstId := by
    intro item hitem
    rcases List.mem_append.mp (PresetDocument.mem_of_mem_collapse hitem) with hitem | hitem
    · rcases List.mem_append.mp hitem with hitem | hitem
      · obtain ⟨preset, _, hpreset⟩ := exists_of_forall₂ hmade hitem
        exact id_of_made_bare hpreset
      · obtain rfl := List.mem_singleton.mp hitem
        exact id_of_made_bare (hsaved.of_eq rfl rfl)
    · obtain rfl := List.mem_singleton.mp hitem
      exact id_of_made_bare (hcopy.of_eq rfl rfl)
  refine ⟨made, saved, copy, ((bareWorkspace.spent readings draws).spent 2 1).spent 2 1, ?_, hmade,
    hsaved.of_eq rfl rfl, hcopy.of_eq rfl rfl⟩
  rw [bareRequests, PresetShelf.run_cons, hrefused, PresetShelf.run_cons, hsave,
    PresetShelf.run_cons, himport, PresetShelf.run_cons, PresetShelf.answer_delete rfl,
    filter_firstId hids, PresetShelf.run_cons, PresetShelf.answer_load rfl]
  rfl

/-- After an import that is refused the list starts with the default presets. Then one is saved,
another one is imported, and all are deleted by the identifier that they have. The store stays
empty. -/
theorem run_refines_list_bare : bareStore.Works bareWorkspace ∧ bareStore.Unfilled bareWorkspace ∧
    (∀ request ∈ bareRequests, request.HasTexts) ∧
    ∃ fault made saved copy,
      (bareStore.run bareRequests bareWorkspace).1 =
        [.refused fault, .presets (made ++ [saved]),
          .presets (PresetDocument.collapse (made ++ [saved] ++ [copy])), .presets [],
          .presets []] ∧
      PresetItem.DefaultsMade bareWorkspace made ∧
      PresetItem.Made bareWorkspace (.text "a") (.text "b") saved ∧
      PresetItem.Made bareWorkspace (.text "c") (.text "d") copy ∧
      bareStore.HasDocument (bareStore.run bareRequests bareWorkspace).2 [] := by
  have htexts : ∀ request ∈ bareRequests, request.HasTexts := by
    simp [bareRequests, PresetRequest.HasTexts, hasTexts_notJson, hasTexts_otherText]
  obtain ⟨made, saved, copy, v, hshelf, hmade, hsaved, hcopy⟩ := exists_shelf_run_bare
  have hrefines := run_refines_list bareStore bareWorkspace _ works_bare unfilled_bare htexts
  simp only [hshelf] at hrefines
  exact ⟨works_bare, unfilled_bare, htexts, _, made, saved, copy, hrefines.1, hmade, hsaved, hcopy,
    hrefines.2.2.file⟩

/-- An import that is refused starts no list: a file that is missing stays missing. -/
theorem missing_after_refused_import : bareStore.Works bareWorkspace ∧
    bareStore.Unfilled bareWorkspace ∧ (PresetRequest.importText "not json").HasTexts ∧
    ∀ items, ¬ bareStore.HasDocument (bareStore.run [.importText "not json"] bareWorkspace).2
      items := by
  refine ⟨works_bare, unfilled_bare, hasTexts_notJson, fun items ⟨text, _, h⟩ => ?_⟩
  have hread : bareWorkspace.files.read fileName = .error .missing := by
    rw [Files.read, find_bare]
    rfl
  have hanswer := (bareStore.answer_rejected (read_notJson bareWorkspace)).1
  rw [run_cons, hanswer] at h
  exact absurd (hread.symm.trans h) (by simp)

end PresetStore

end LayerBlend
