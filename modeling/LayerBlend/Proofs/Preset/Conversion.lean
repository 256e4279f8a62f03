import LayerBlend.Proofs.Arithmetic.Packing
import LayerBlend.Proofs.Preset.Document

/-!
# Which texts are documents of presets

Every text is one of three things, and reading it shows which.

* `PresetDocument.Sound` — a document all of whose entries are presets (`PresetItem.Convertible`).
  It is read, and each preset has what its entry says (`PresetItem.Decodes`).
* `PresetDocument.Endless` — a document whose first entry that is no preset has an infinite time
  (`PresetItem.Endless`). Reading it fails, and not with a fault of documents.
* Anything else is refused with a fault of documents (`PresetDocument.read_of_unsound`).
-/

namespace LayerBlend

namespace PresetItem

variable {entry : Json} {w : Workspace}

/-! ## Entries -/

/-- An entry has a name, and a formula with an expression. -/
structure HasFields (entry name expr : Json) : Prop where
  /-- The name. -/
  name : entry.field? "name" = some name
  /-- The formula and its expression. -/
  expr : ∃ formula, entry.field? "formula" = some formula ∧ formula.field? "expr" = some expr

/-- An entry is a preset: it has all fields, and its time can be converted if it counts as true. -/
structure Convertible (entry : Json) : Prop where
  /-- It has all fields. -/
  fields : ∃ name expr, HasFields entry name expr
  /-- Its time can be converted. -/
  time : ∀ value, truthy? entry "createdAt" = some value → ∃ n, timeOf value = .ok n

/-- An entry is a preset but for its time, which is infinite. -/
structure Endless (entry : Json) : Prop where
  /-- It has all fields. -/
  fields : ∃ name expr, HasFields entry name expr
  /-- Its time is infinite. -/
  time : ∃ x negative, truthy? entry "createdAt" = some (.double x) ∧
    Double.parts x = .infinite negative

/-- A preset is what an entry says, in a workspace where it was read. -/
structure Decodes (w : Workspace) (entry : Json) (item : PresetItem) : Prop where
  /-- Name and formula are those of the entry. -/
  fields : HasFields entry item.name item.expr
  /-- So is the identifier, and one that does not count as true is made anew. -/
  id : truthy? entry "id" = some item.id ∨ truthy? entry "id" = none ∧
    ∃ n k, item.id = .text (idOf (w.clock n) (w.suffix k))
  /-- So is the time, and one that does not count as true is a reading of the clock. -/
  time : (∃ value, truthy? entry "createdAt" = some value ∧ timeOf value = .ok item.createdAt) ∨
    truthy? entry "createdAt" = none ∧ ∃ n, item.createdAt = w.clock n

/-- A field that is there is found. -/
theorem fieldOf_of_some {value field : Json} {name : String} (h : value.field? name = some field) :
    fieldOf value name = .ok field := by
  cases value with
  | object fields =>
    have hfind : Json.find? fields name = some field := h
    rw [fieldOf, hfind]
  | _ => cases h

/-- The lack of a field is a fault of documents. -/
theorem fieldOf_of_none {value : Json} {name : String} (h : value.field? name = none) :
    ∃ cause, fieldOf value name = .error (bad cause) := by
  cases value with
  | object fields =>
    have hfind : Json.find? fields name = none := h
    refine ⟨.missingField name, ?_⟩
    rw [fieldOf, hfind]
  | _ => exact ⟨.notAnObject, rfl⟩

/-- The whole part of a double, or why there is none, as the parts of the double say. -/
theorem truncate_fractional (x : Float) :
    (Quantity.fractional x).truncate = match Double.parts x with
      | .finite .. => .ok ((Double.truncate? x).getD 0)
      | .nan => .error .notANumber
      | .infinite _ => .error .infinite := by
  have hnan : x.isNaN = (Double.parts x == .nan) := by
    rw [Double.parts_eq]
    unfold Float.isNaN Float.Model.isNaN Float.Model.UnpackedFloat.isNaN
    cases x.toModel.unpack <;> rfl
  unfold Quantity.truncate
  dsimp only
  rw [hnan]
  unfold Double.truncate?
  cases Double.parts x <;> rfl

/-- A value that is no time is a fault of documents, unless it is infinite. -/
theorem timeOf_cases (value : Json) :
    (∃ n, timeOf value = .ok n) ∨ (∃ cause, timeOf value = .error (bad cause)) ∨
      timeOf value = .error .infiniteTime ∧
        ∃ x negative, value = .double x ∧ Double.parts x = .infinite negative := by
  unfold timeOf
  cases value with
  | bool b => exact Or.inl ⟨_, rfl⟩
  | int n => exact Or.inl ⟨_, rfl⟩
  | text t =>
    cases t with
    | halved t => exact Or.inr (Or.inl ⟨_, rfl⟩)
    | whole s =>
      dsimp only
      cases Text.readWhole? s.toList with
      | some n => exact Or.inl ⟨n, rfl⟩
      | none => exact Or.inr (Or.inl ⟨_, rfl⟩)
  | double x =>
    dsimp only
    rw [truncate_fractional]
    cases hparts : Double.parts x with
    | finite negative mantissa exponent => exact Or.inl ⟨_, rfl⟩
    | nan => exact Or.inr (Or.inl ⟨_, rfl⟩)
    | infinite negative => exact Or.inr (Or.inr ⟨rfl, x, negative, rfl, hparts⟩)
  | null => exact Or.inr (Or.inl ⟨_, rfl⟩)
  | list items => exact Or.inr (Or.inl ⟨_, rfl⟩)
  | object fields => exact Or.inr (Or.inl ⟨_, rfl⟩)

/-- An infinite double is no time. -/
theorem timeOf_of_infinite {x : Float} {negative : Bool}
    (h : Double.parts x = .infinite negative) :
    timeOf (.double x) = .error .infiniteTime := by
  unfold timeOf
  dsimp only
  rw [truncate_fractional, h]

/-- An identifier can be had for every entry. -/
theorem exists_identifierOf (entry : Json) (w : Workspace) :
    ∃ id readings draws, identifierOf entry w = .ok id (w.spent readings draws) ∧
      (truthy? entry "id" = some id ∨ truthy? entry "id" = none ∧
        ∃ n k, id = .text (idOf (w.clock n) (w.suffix k))) := by
  unfold identifierOf
  cases truthy? entry "id" with
  | some id => exact ⟨id, 0, 0, rfl, Or.inl rfl⟩
  | none => exact ⟨_, 1, 1, rfl, Or.inr ⟨rfl, _, _, rfl⟩⟩

/-- An entry that has all fields is a preset as soon as it has a time. -/
theorem ofJson_of_hasFields {name expr : Json} (h : HasFields entry name expr) (w : Workspace) :
    ∃ id readings draws,
      (truthy? entry "id" = some id ∨ truthy? entry "id" = none ∧
        ∃ n k, id = .text (idOf (w.clock n) (w.suffix k))) ∧
      ofJson entry w =
        ((fun time => ⟨name, expr, id, time⟩) <$> creationOf entry) (w.spent readings draws) := by
  obtain ⟨formula, hformula, hexpr⟩ := h.expr
  obtain ⟨id, readings, draws, hid, hsource⟩ := exists_identifierOf entry w
  refine ⟨id, readings, draws, hsource, ?_⟩
  rw [ofJson_eq, fieldOf_of_some h.name, fieldOf_of_some hformula, ok_bind,
    fieldOf_of_some hexpr]
  exact Work.bind_of_ok hid

/-- An entry that is a preset is read as what it says. -/
theorem Convertible.exists_ofJson (h : Convertible entry) (w : Workspace) :
    ∃ item readings draws, ofJson entry w = .ok item (w.spent readings draws) ∧
      Decodes w entry item := by
  obtain ⟨name, expr, hfields⟩ := h.fields
  obtain ⟨id, readings, draws, hid, hread⟩ := ofJson_of_hasFields hfields w
  rw [hread]
  unfold creationOf
  cases htruthy : truthy? entry "createdAt" with
  | some value =>
    obtain ⟨n, htime⟩ := h.time value htruthy
    dsimp only
    rw [htime]
    exact ⟨_, readings, draws, rfl, hfields, hid, Or.inl ⟨value, htruthy, htime⟩⟩
  | none =>
    exact ⟨_, readings + 1, draws, rfl, hfields, hid, Or.inr ⟨htruthy, _, rfl⟩⟩

/-- An entry whose time is infinite cannot be read. -/
theorem Endless.ofJson_eq (h : Endless entry) (w : Workspace) :
    ∃ readings draws, ofJson entry w = .error .infiniteTime (w.spent readings draws) := by
  obtain ⟨name, expr, hfields⟩ := h.fields
  obtain ⟨x, negative, htruthy, hinfinite⟩ := h.time
  obtain ⟨id, readings, draws, -, hread⟩ := ofJson_of_hasFields hfields w
  rw [hread]
  unfold creationOf
  rw [htruthy]
  dsimp only
  rw [timeOf_of_infinite hinfinite]
  exact ⟨readings, draws, rfl⟩

/-- An entry that lacks a field is a fault of documents. -/
theorem exists_bad_of_lack (h : ¬ ∃ name expr, HasFields entry name expr) :
    ∃ cause, ∀ w, ofJson entry w = .error (bad cause) w := by
  cases hname : entry.field? "name" with
  | none =>
    obtain ⟨cause, hcause⟩ := fieldOf_of_none hname
    exact ⟨cause, fun w => by rw [PresetItem.ofJson_eq, hcause]; rfl⟩
  | some name =>
    obtain ⟨cause, hcause⟩ : ∃ cause,
        (do fieldOf (← fieldOf entry "formula") "expr") = .error (bad cause) := by
      cases hformula : entry.field? "formula" with
      | none =>
        obtain ⟨cause, hcause⟩ := fieldOf_of_none hformula
        exact ⟨cause, by rw [hcause, error_bind]⟩
      | some formula =>
        rw [fieldOf_of_some hformula, ok_bind]
        cases hexpr : formula.field? "expr" with
        | none => exact fieldOf_of_none hexpr
        | some expr => exact absurd ⟨name, expr, hname, formula, hformula, hexpr⟩ h
    exact ⟨cause, fun w => by rw [PresetItem.ofJson_eq, fieldOf_of_some hname, hcause]; rfl⟩

/-- An entry that is no preset is a fault of documents, unless its time is infinite. -/
theorem exists_bad (h : ¬ Convertible entry) (hendless : ¬ Endless entry) :
    ∃ cause, ∀ w, ∃ readings draws,
      ofJson entry w = .error (bad cause) (w.spent readings draws) := by
  by_cases hfields : ∃ name expr, HasFields entry name expr
  · -- the fields are there, and so it is the time that cannot be converted
    obtain ⟨value, htruthy, hvalue⟩ :
        ∃ value, truthy? entry "createdAt" = some value ∧ ¬ ∃ n, timeOf value = .ok n := by
      by_contra hnone
      push Not at hnone
      exact h ⟨hfields, hnone⟩
    obtain ⟨cause, hcause⟩ : ∃ cause, timeOf value = .error (bad cause) := by
      rcases timeOf_cases value with hn | hcause | ⟨_, x, negative, rfl, hinfinite⟩
      · exact absurd hn hvalue
      · exact hcause
      · exact absurd ⟨hfields, x, negative, htruthy, hinfinite⟩ hendless
    obtain ⟨name, expr, hfields⟩ := hfields
    refine ⟨cause, fun w => ?_⟩
    obtain ⟨id, readings, draws, -, hread⟩ := ofJson_of_hasFields hfields w
    rw [hread, creationOf, htruthy]
    dsimp only
    rw [hcause]
    exact ⟨readings, draws, rfl⟩
  · obtain ⟨cause, hcause⟩ := exists_bad_of_lack hfields
    exact ⟨cause, fun w => ⟨0, 0, hcause w⟩⟩

/-! ## Lists of entries -/

variable {entries before after : List Json}

/-- Entries that are presets are read one after the other. -/
theorem exists_mapM_ofJson (h : ∀ entry ∈ entries, Convertible entry) (w : Workspace) :
    ∃ items readings draws, entries.mapM ofJson w = .ok items (w.spent readings draws) ∧
      List.Forall₂ (Decodes w) entries items := by
  induction entries generalizing w with
  | nil => exact ⟨[], 0, 0, rfl, .nil⟩
  | cons entry entries ih =>
    rw [List.forall_mem_cons] at h
    obtain ⟨item, readings, draws, hitem, hdecodes⟩ := h.1.exists_ofJson w
    obtain ⟨items, more, further, hitems, hall⟩ := ih h.2 (w.spent readings draws)
    refine ⟨item :: items, readings + more, draws + further, ?_, .cons hdecodes
      (hall.imp fun _ _ h => ⟨h.fields, h.id, h.time⟩)⟩
    rw [List.mapM_cons, Work.bind_of_ok hitem, Work.bind_of_ok hitems, Workspace.spent_spent]
    rfl

/-- The first entry that cannot be read decides for all. -/
theorem mapM_ofJson_of_first {fault : Fault} (hbefore : ∀ entry ∈ before, Convertible entry)
    (hfault : ∀ w, ∃ readings draws, ofJson entry w = .error fault (w.spent readings draws))
    (w : Workspace) :
    ∃ readings draws,
      (before ++ entry :: after).mapM ofJson w = .error fault (w.spent readings draws) := by
  obtain ⟨items, readings, draws, hitems, -⟩ := exists_mapM_ofJson hbefore w
  obtain ⟨more, further, hentry⟩ := hfault (w.spent readings draws)
  refine ⟨readings + more, draws + further, ?_⟩
  rw [List.mapM_append, Work.bind_of_ok hitems, List.mapM_cons, ← Workspace.spent_spent]
  exact Work.bind_of_error (Work.bind_of_error hentry)

/-- Entries are all presets, or there is a first one that is not. -/
theorem exists_first (entries : List Json) :
    (∀ entry ∈ entries, Convertible entry) ∨ ∃ before entry after,
      entries = before ++ entry :: after ∧ (∀ entry ∈ before, Convertible entry) ∧
        ¬ Convertible entry := by
  classical
  cases hfound : entries.find? fun entry => ¬ Convertible entry with
  | none => exact Or.inl (by simpa using hfound)
  | some entry =>
    obtain ⟨hentry, before, after, rfl, hbefore⟩ := List.find?_eq_some_iff_append.mp hfound
    exact Or.inr ⟨before, entry, after, rfl, by simpa using hbefore, by simpa using hentry⟩

end PresetItem

namespace PresetDocument

variable {text : String} {entries : List Json}

/-- A text is an object with a version that counts as true and a list of entries. -/
def Shaped (text : String) (entries : List Json) : Prop :=
  ∃ document version, Json.read text = some document ∧
    document.field? "version" = some version ∧ version.isTruthy = true ∧
    document.field? "items" = some (.list entries)

/-- A text is a document of presets. -/
def Sound (text : String) (entries : List Json) : Prop :=
  Shaped text entries ∧ ∀ entry ∈ entries, PresetItem.Convertible entry

/-- A text is a document of entries of which the first one that is no preset has an infinite
time. -/
def Endless (text : String) : Prop :=
  ∃ before entry after, Shaped text (before ++ entry :: after) ∧
    (∀ entry ∈ before, PresetItem.Convertible entry) ∧ PresetItem.Endless entry

/-- The entries of a text are found when it has the shape of a document. -/
theorem entriesOf_of_shaped (h : Shaped text entries) : entriesOf text = .ok entries := by
  obtain ⟨document, version, hread, hversion, htruthy, hitems⟩ := h
  rw [entriesOf, hread]
  simp only [entries?, hversion, hitems, htruthy, if_true]

/-- A document has one list of entries. -/
theorem Shaped.unique {others : List Json} (h : Shaped text entries)
    (hothers : Shaped text others) : entries = others :=
  Except.ok.inj ((entriesOf_of_shaped h).symm.trans (entriesOf_of_shaped hothers))

/-- A text that has not the shape of a document is a fault of documents. -/
theorem exists_document_fault (h : ¬ ∃ entries, Shaped text entries) :
    ∃ cause, entriesOf text = .error (.document cause) := by
  unfold entriesOf
  split
  · exact ⟨_, rfl⟩
  · next document hread =>
    split
    · exact ⟨_, rfl⟩
    · next entries hentries =>
      unfold entries? at hentries
      split at hentries
      · next version found hversion hitems =>
        split at hentries
        · next htruthy =>
          cases hentries
          exact absurd ⟨entries, document, version, hread, hversion, htruthy, hitems⟩ h
        · cases hentries
      · cases hentries

/-- A text that has the shape of a document is read entry by entry. -/
theorem read_of_shaped (h : Shaped text entries) (w : Workspace) :
    read text w = entries.mapM PresetItem.ofJson w := by
  rw [read, entriesOf_of_shaped h]
  rfl

/-- A document of presets is read. -/
theorem Sound.exists_read (h : Sound text entries) (w : Workspace) :
    ∃ items readings draws, read text w = .ok items (w.spent readings draws) ∧
      List.Forall₂ (PresetItem.Decodes w) entries items := by
  rw [read_of_shaped h.1]
  exact PresetItem.exists_mapM_ofJson h.2 w

/-- A document of presets has no infinite time. -/
theorem Sound.not_endless (h : Sound text entries) : ¬ Endless text := by
  rintro ⟨before, entry, after, hshaped, _, hendless⟩
  obtain ⟨x, negative, htruthy, hinfinite⟩ := hendless.time
  rw [h.1.unique hshaped] at h
  obtain ⟨n, hn⟩ := (h.2 entry (by simp)).time _ htruthy
  rw [PresetItem.timeOf_of_infinite hinfinite] at hn
  cases hn

/-- A document with an infinite time cannot be read, and the fault is none of documents. -/
theorem Endless.read_eq (h : Endless text) (w : Workspace) :
    ∃ readings draws, read text w = .error .infiniteTime (w.spent readings draws) := by
  obtain ⟨before, entry, after, hshaped, hbefore, hendless⟩ := h
  rw [read_of_shaped hshaped]
  exact PresetItem.mapM_ofJson_of_first hbefore hendless.ofJson_eq w

/-- A text that is neither is refused with a fault of documents. -/
theorem read_of_unsound (hsound : ¬ ∃ entries, Sound text entries) (hendless : ¬ Endless text) :
    ∃ cause, ∀ w, ∃ readings draws,
      read text w = .error (.document cause) (w.spent readings draws) := by
  by_cases hshaped : ∃ entries, Shaped text entries
  · obtain ⟨entries, hshaped⟩ := hshaped
    rcases PresetItem.exists_first entries with hall | ⟨before, entry, after, rfl, hbefore, hentry⟩
    · exact absurd ⟨entries, hshaped, hall⟩ hsound
    · have hnot : ¬ PresetItem.Endless entry := fun h =>
        hendless ⟨before, entry, after, hshaped, hbefore, h⟩
      obtain ⟨cause, hcause⟩ := PresetItem.exists_bad hentry hnot
      refine ⟨.badItem cause, fun w => ?_⟩
      rw [read_of_shaped hshaped]
      exact PresetItem.mapM_ofJson_of_first hbefore hcause w
  · obtain ⟨cause, hcause⟩ := exists_document_fault hshaped
    refine ⟨cause, fun w => ⟨0, 0, ?_⟩⟩
    rw [read, hcause]
    rfl

/-- A text that is no document of presets cannot be read. -/
theorem exists_read_error (h : ¬ ∃ entries, Sound text entries) (w : Workspace) :
    ∃ fault readings draws, read text w = .error fault (w.spent readings draws) := by
  by_cases hendless : Endless text
  · exact ⟨_, hendless.read_eq w⟩
  · obtain ⟨cause, hread⟩ := read_of_unsound h hendless
    exact ⟨_, hread w⟩

end PresetDocument

end LayerBlend
