import LayerBlend.Preset.Store
import LayerBlend.Proofs.Preset.Document

/-!
# Presets on a shelf

What a store of presets is to do, said without a file. A `PresetShelf` keeps a list of presets in
memory, once there is one, and a `PresetRequest` is an operation on it.

* `PresetShelf.change` — what each operation does with the list: saving appends, deleting filters,
  importing merges, and the others leave it as it is.
* `PresetShelf.answer`, `PresetShelf.run` — a shelf after one operation and after several.
* `PresetStore.answer`, `PresetStore.run` — the same operations on a store.
* `PresetShelf.answer_frame` — a shelf pays no heed to files.
-/

namespace LayerBlend

/-- An operation on presets. -/
inductive PresetRequest where
  /-- All presets. -/
  | load
  /-- One more preset. -/
  | save (name expr : String)
  /-- No preset with this identifier any more. -/
  | delete (id : String)
  /-- The document of all presets. -/
  | exportText
  /-- The presets of a document too. -/
  | importText (text : String)
  /-- The first preset of a name. -/
  | find (name : String)

/-- What an operation on presets gives. -/
inductive PresetReply where
  /-- A list of presets. -/
  | presets (items : List PresetItem)
  /-- A text. -/
  | text (s : JsonText)
  /-- A preset. -/
  | preset (item : PresetItem)
  /-- A fault in place of an answer. -/
  | refused (fault : Fault)

/-- The operation is a look at the presets. -/
def PresetRequest.IsLook : PresetRequest → Prop
  | .load | .exportText | .find _ => True
  | .save .. | .delete _ | .importText _ => False

/-- The names and the formulas of a document are texts, where they are there. -/
def PresetDocument.HasTexts (text : String) : Prop :=
  ∀ entries, entriesOf text = .ok entries → ∀ entry ∈ entries,
    (∀ name, PresetItem.fieldOf entry "name" = .ok name → ∃ s : String, name = .text s) ∧
    ∀ formula expr, PresetItem.fieldOf entry "formula" = .ok formula →
      PresetItem.fieldOf formula "expr" = .ok expr → ∃ s : String, expr = .text s

/-- What is read of such a document has texts for names and formulas. -/
theorem PresetDocument.HasTexts.read {text : String} (h : HasTexts text) {items : List PresetItem}
    {w v : Workspace} (hread : PresetDocument.read text w = .ok items v) :
    ∀ item ∈ items, (∃ s : String, item.name = .text s) ∧ ∃ s : String, item.expr = .text s := by
  intro item hitem
  obtain ⟨entries, u, hentries, hread⟩ := Work.bind_eq_ok.mp hread
  obtain ⟨entry, hentry, _, _, hitem⟩ := Work.exists_of_mem_mapM hread hitem
  obtain ⟨hname, formula, hformula, hexpr⟩ := PresetItem.of_ofJson hitem
  obtain ⟨hnames, hexprs⟩ := h entries (Work.ofExcept_eq_ok.mp hentries).1 entry hentry
  exact ⟨hnames _ hname, hexprs formula _ hformula hexpr⟩

/-- The names and formulas in the document of presets are theirs. -/
theorem PresetDocument.hasTexts_write {items : List PresetItem}
    (hexact : ∀ item ∈ items, item.Exact)
    (htexts : ∀ item ∈ items,
      (∃ s : String, item.name = .text s) ∧ ∃ s : String, item.expr = .text s) :
    HasTexts (write items).shown := by
  intro entries hentries entry hentry
  cases hentries.symm.trans (entriesOf_write hexact)
  obtain ⟨item, hitem, rfl⟩ := List.mem_map.mp hentry
  refine ⟨fun name hname => ?_, fun formula expr hformula hexpr => ?_⟩
  · cases hname
    exact (htexts item hitem).1
  · cases hformula
    cases hexpr
    exact (htexts item hitem).2

/-- The names and the formulas of the document that is imported are texts. -/
def PresetRequest.HasTexts : PresetRequest → Prop
  | .importText text => PresetDocument.HasTexts text
  | _ => True

/-! ## Stores -/

namespace PresetStore

/-- The work of an operation. -/
def perform (store : PresetStore) : PresetRequest → Work PresetReply
  | .load => .presets <$> store.load
  | .save name expr => .presets <$> store.save (.text name) (.text expr)
  | .delete id => .presets <$> store.delete (.text id)
  | .exportText => .text <$> store.exportText
  | .importText text => .presets <$> store.importText text
  | .find name => .preset <$> store.find (.text name)

/-- The answer of a store to an operation, and the workspace after it. -/
def answer (store : PresetStore) (request : PresetRequest) (w : Workspace) :
    PresetReply × Workspace :=
  match store.perform request w with
  | .ok reply w => (reply, w)
  | .error fault w => (.refused fault, w)

theorem answer_of_ok {store : PresetStore} {request : PresetRequest} {w v : Workspace}
    {reply : PresetReply} (h : store.perform request w = .ok reply v) :
    store.answer request w = (reply, v) := by
  rw [answer, h]

theorem answer_of_error {store : PresetStore} {request : PresetRequest} {w v : Workspace}
    {fault : Fault} (h : store.perform request w = .error fault v) :
    store.answer request w = (.refused fault, v) := by
  rw [answer, h]

/-- The answers of a store to operations one after the other, and the workspace after them. -/
def run (store : PresetStore) : List PresetRequest → Workspace → List PresetReply × Workspace
  | [], w => ([], w)
  | request :: requests, w =>
    let (reply, w) := store.answer request w
    let (replies, w) := store.run requests w
    (reply :: replies, w)

theorem run_cons (store : PresetStore) (request : PresetRequest) (requests : List PresetRequest)
    (w : Workspace) :
    store.run (request :: requests) w =
      ((store.answer request w).1 :: (store.run requests (store.answer request w).2).1,
        (store.run requests (store.answer request w).2).2) :=
  rfl

end PresetStore

/-! ## Shelves -/

/-- Presets that are kept in memory. -/
structure PresetShelf where
  /-- The presets, none before the first operation. -/
  kept : Option (List PresetItem)
  /-- The clock and the supply of identifiers. -/
  world : Workspace

namespace PresetShelf

/-- The presets that are kept, at first the default ones. -/
def opened : Option (List PresetItem) → Work (List PresetItem)
  | some items => pure items
  | none => PresetItem.makeDefaults

/-- The answer to an operation and the list after it. A fault that ends the work leaves the list as
it is; `path` is only for the fault that names the file. -/
def change (path : String) (kept : Option (List PresetItem)) :
    PresetRequest → Work (PresetReply × List PresetItem)
  | .load => do
    let items ← opened kept
    return (.presets items, items)
  | .save name expr => do
    let items := (← opened kept) ++ [← PresetItem.make (.text name) (.text expr)]
    return (.presets items, items)
  | .delete id => do
    let items := (← opened kept).filter fun item => !item.id.same (.text id)
    return (.presets items, items)
  | .exportText => do
    let items ← opened kept
    return (.text (PresetDocument.write items), items)
  | .importText text => do
    let parsed ← PresetDocument.read text
    let imported ← parsed.mapM fun item => PresetItem.make item.name item.expr
    let items := PresetDocument.collapse ((← opened kept) ++ imported)
    return (.presets items, items)
  | .find name => do
    let items ← opened kept
    match items.find? fun item => item.name.same (.text name) with
    | some item => return (.preset item, items)
    | none => return (.refused (.presetNotFound (.text name) path), items)

/-- The answer of a shelf to an operation, and the shelf after it. -/
def answer (path : String) (request : PresetRequest) (shelf : PresetShelf) :
    PresetReply × PresetShelf :=
  match change path shelf.kept request shelf.world with
  | .ok (reply, items) world => (reply, ⟨some items, world⟩)
  | .error fault world => (.refused fault, ⟨shelf.kept, world⟩)

/-- The answers of a shelf to operations one after the other, and the shelf after them. -/
def run (path : String) : List PresetRequest → PresetShelf → List PresetReply × PresetShelf
  | [], shelf => ([], shelf)
  | request :: requests, shelf =>
    let (reply, shelf) := answer path request shelf
    let (replies, shelf) := run path requests shelf
    (reply :: replies, shelf)

theorem run_cons (path : String) (request : PresetRequest) (requests : List PresetRequest)
    (shelf : PresetShelf) :
    run path (request :: requests) shelf =
      ((answer path request shelf).1 :: (run path requests (answer path request shelf).2).1,
        (run path requests (answer path request shelf).2).2) :=
  rfl

/-! ## What a shelf does not touch -/

theorem onlySpends_opened (kept : Option (List PresetItem)) : (opened kept).OnlySpends := by
  cases kept with
  | some items => exact Work.onlySpends_pure items
  | none => exact Work.OnlySpends.mapM (fun _ => PresetItem.onlySpends_make _ _) _

/-- An operation on a shelf spends readings of the clock and draws. -/
theorem onlySpends_change (path : String) (kept : Option (List PresetItem))
    (request : PresetRequest) : (change path kept request).OnlySpends := by
  have hopened := onlySpends_opened kept
  cases request with
  | load => exact hopened.bind fun _ => Work.onlySpends_pure _
  | save name expr =>
    exact hopened.bind fun _ => (PresetItem.onlySpends_make _ _).bind fun _ =>
      Work.onlySpends_pure _
  | delete id => exact hopened.bind fun _ => Work.onlySpends_pure _
  | exportText => exact hopened.bind fun _ => Work.onlySpends_pure _
  | importText text =>
    exact (PresetDocument.onlySpends_read text).bind fun parsed =>
      (Work.OnlySpends.mapM (fun _ => PresetItem.onlySpends_make _ _) parsed).bind fun _ =>
        hopened.bind fun _ => Work.onlySpends_pure _
  | find name =>
    refine hopened.bind fun items => ?_
    cases items.find? fun item => item.name.same (.text name) <;> exact Work.onlySpends_pure _

/-- The files around a shelf make no difference to it, and it leaves them as they are. -/
theorem answer_frame (path : String) (request : PresetRequest) (kept : Option (List PresetItem))
    (w : Workspace) (files : Files) :
    answer path request ⟨kept, { w with files }⟩ =
      ((answer path request ⟨kept, w⟩).1, ⟨(answer path request ⟨kept, w⟩).2.kept,
        { (answer path request ⟨kept, w⟩).2.world with files }⟩) := by
  obtain ⟨outcome, readings, draws, hchange⟩ := onlySpends_change path kept request w
  have hsame := hchange w.files
  have hother := hchange files
  unfold answer
  simp only
  rw [hother]
  have hw : ({ w with files := w.files } : Workspace) = w := rfl
  rw [hw] at hsame
  rw [hsame]
  cases outcome <;> rfl

/-! ## What a shelf keeps -/

variable {path : String} {w : Workspace} {items : List PresetItem}
  {kept : Option (List PresetItem)}

/-- A list can always be opened. -/
theorem exists_opened (kept : Option (List PresetItem)) (w : Workspace) :
    ∃ items v, opened kept w = .ok items v := by
  cases kept with
  | some items => exact ⟨items, w, rfl⟩
  | none =>
    obtain ⟨items, _, _, hmake, _⟩ := PresetItem.exists_defaultsMade w
    exact ⟨items, _, hmake⟩

theorem answer_of_ok {request : PresetRequest} {reply : PresetReply} {v : Workspace}
    (h : change path kept request w = .ok (reply, items) v) :
    answer path request ⟨kept, w⟩ = (reply, ⟨some items, v⟩) := by
  simp only [answer, h]

/-- Loading gives the list that is opened. -/
theorem answer_load {v : Workspace} (hopened : opened kept w = .ok items v) :
    answer path .load ⟨kept, w⟩ = (.presets items, ⟨some items, v⟩) :=
  answer_of_ok (Work.bind_of_ok hopened)

/-- Saving appends a preset to the list that is opened. -/
theorem answer_save {v : Workspace} (hopened : opened kept w = .ok items v)
    (path name expr : String) :
    answer path (.save name expr) ⟨kept, w⟩ =
      (.presets (items ++ [PresetItem.madeIn v (.text name) (.text expr)]),
        ⟨some (items ++ [PresetItem.madeIn v (.text name) (.text expr)]), v.spent 2 1⟩) := by
  refine answer_of_ok ?_
  rw [change, Work.bind_of_ok hopened, Work.bind_of_ok (PresetItem.make_apply _ _ v)]
  rfl

/-- Deleting leaves the presets with the identifier out of the list that is opened. -/
theorem answer_delete {v : Workspace} (hopened : opened kept w = .ok items v) (path id : String) :
    answer path (.delete id) ⟨kept, w⟩ =
      (.presets (items.filter fun item => !item.id.same (.text id)),
        ⟨some (items.filter fun item => !item.id.same (.text id)), v⟩) :=
  answer_of_ok (Work.bind_of_ok hopened)

/-- Importing merges the presets of a document, made anew, with the list that is opened. -/
theorem exists_answer_imported {text : String} {parsed : List PresetItem} {v : Workspace}
    (hread : PresetDocument.read text w = .ok parsed v) (path : String)
    (kept : Option (List PresetItem)) :
    ∃ imported items u,
      List.Forall₂ (fun item => PresetItem.Made v item.name item.expr) parsed imported ∧
      opened kept (v.spent (2 * parsed.length) parsed.length) = .ok items u ∧
      answer path (.importText text) ⟨kept, w⟩ =
        (.presets (PresetDocument.collapse (items ++ imported)),
          ⟨some (PresetDocument.collapse (items ++ imported)), u⟩) := by
  obtain ⟨imported, hmake, hmade, _⟩ :=
    PresetItem.mapM_make PresetItem.name PresetItem.expr parsed v
  obtain ⟨items, u, hopened⟩ := exists_opened kept (v.spent (2 * parsed.length) parsed.length)
  refine ⟨imported, items, u, hmade, hopened, answer_of_ok ?_⟩
  rw [change, Work.bind_of_ok hread, Work.bind_of_ok hmake, Work.bind_of_ok hopened]
  rfl

/-- What a search gives: the first preset of the name, or a fault. -/
theorem change_find {v : Workspace} (hopened : opened kept w = .ok items v) (path name : String) :
    change path kept (.find name) w =
      .ok (match items.find? fun item => item.name.same (.text name) with
        | some item => .preset item
        | none => .refused (.presetNotFound (.text name) path), items) v := by
  rw [change, Work.bind_of_ok hopened]
  cases items.find? fun item => item.name.same (.text name) <;> rfl

/-- Every operation but an import leaves a list. -/
theorem exists_change {request : PresetRequest} (h : ∀ text, request ≠ .importText text)
    (path : String) (kept : Option (List PresetItem)) (w : Workspace) :
    ∃ reply items v, change path kept request w = .ok (reply, items) v := by
  obtain ⟨items, v, hopened⟩ := exists_opened kept w
  cases request with
  | load => exact ⟨_, _, _, Work.bind_of_ok hopened⟩
  | save name expr => exact ⟨_, _, _, Work.bind_of_ok hopened⟩
  | delete id => exact ⟨_, _, _, Work.bind_of_ok hopened⟩
  | exportText => exact ⟨_, _, _, Work.bind_of_ok hopened⟩
  | importText text => exact absurd rfl (h text)
  | find name => exact ⟨_, _, _, change_find hopened path name⟩

/-- An import whose document cannot be read is refused, and the list stays as it is. -/
theorem answer_rejected {text : String} {fault : Fault} {v : Workspace}
    (hread : PresetDocument.read text w = .error fault v) :
    answer path (.importText text) ⟨kept, w⟩ = (.refused fault, ⟨kept, v⟩) := by
  have hchange : change path kept (.importText text) w = .error fault v :=
    Work.bind_of_error hread
  simp only [answer, hchange]

/-- An import is refused when its document cannot be read, and the list stays as it is; otherwise
there is a list after it, which is the answer. -/
theorem answer_importText (path text : String) (kept : Option (List PresetItem)) (w : Workspace) :
    (∃ fault v, PresetDocument.read text w = .error fault v ∧
      answer path (.importText text) ⟨kept, w⟩ = (.refused fault, ⟨kept, v⟩)) ∨
    ∃ items v, answer path (.importText text) ⟨kept, w⟩ = (.presets items, ⟨some items, v⟩) := by
  cases hread : PresetDocument.read text w with
  | error fault v => exact Or.inl ⟨fault, v, rfl, answer_rejected hread⟩
  | ok parsed v =>
    obtain ⟨_, _, u, _, _, hanswer⟩ := exists_answer_imported hread path kept
    exact Or.inr ⟨_, u, hanswer⟩

/-- A look at a list leaves it as it is. -/
theorem kept_of_isLook {request : PresetRequest} (h : request.IsLook) (path : String)
    (items : List PresetItem) (w : Workspace) :
    (answer path request ⟨some items, w⟩).2.kept = some items := by
  cases request with
  | load => rfl
  | exportText => rfl
  | find name => rw [answer_of_ok (change_find rfl path name)]
  | save => exact h.elim
  | delete => exact h.elim
  | importText => exact h.elim

/-- Only imports that are refused leave a shelf without a list. -/
theorem of_kept_eq_none {request : PresetRequest}
    (h : (answer path request ⟨kept, w⟩).2.kept = none) :
    kept = none ∧ ∃ text fault v, request = .importText text ∧
      PresetDocument.read text w = .error fault v := by
  by_cases himport : ∃ text, request = .importText text
  · obtain ⟨text, rfl⟩ := himport
    rcases answer_importText path text kept w with ⟨fault, v, hread, hanswer⟩ | ⟨items, v, hanswer⟩
    · rw [hanswer] at h
      exact ⟨h, text, fault, v, rfl, hread⟩
    · rw [hanswer] at h
      cases h
  · obtain ⟨reply, items, v, hchange⟩ :=
      exists_change (fun text heq => himport ⟨text, heq⟩) path kept w
    rw [answer_of_ok hchange] at h
    cases h

/-- A shelf that has a list has one after every operation. -/
theorem kept_eq_none_of_run {requests : List PresetRequest} {shelf : PresetShelf}
    (h : (run path requests shelf).2.kept = none) : shelf.kept = none := by
  induction requests generalizing shelf with
  | nil => exact h
  | cons request requests ih => exact (of_kept_eq_none (ih h)).1

end PresetShelf

end LayerBlend
