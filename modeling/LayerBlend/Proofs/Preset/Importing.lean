import LayerBlend.Proofs.Preset.Rereading

/-!
# What an import comes to

* `PresetStore.Barred` — the two contents of a file that loading does not get past.
* `PresetStore.load_cases` — loading ends there, or it gives presets that the file then holds.
* `PresetStore.Imports` — every end of an import. It is stored, or the text is refused and no file
  is touched; but there are ends beside these, and one of them comes after a file may have been
  mended.
* `PresetStore.imports_of_sound`, `PresetStore.imports_of_unsound` — which ends there are for a
  document and for any other text.
* `PresetStore.imports_importText` — each import comes to one of them.
-/

namespace LayerBlend

namespace PresetStore

variable {store : PresetStore} {w v : Workspace} {items : List PresetItem} {text : String}

/-! ## Loading -/

/-- The file has a content that ends every operation with a fault. -/
inductive Barred (store : PresetStore) (w : Workspace) : Fault → Prop where
  /-- The bytes of the file are no text. -/
  | garbled (h : w.files.readText store.path = .error .undecodable) :
      Barred store w (.file store.path .undecodable)
  /-- A document with an infinite time before any other fault. -/
  | endless {content : String} (htext : w.files.readText store.path = .ok content)
      (hblank : Text.blank content.toList = false) (hendless : PresetDocument.Endless content) :
      Barred store w .infiniteTime

/-- A file that is missing or blank is not barred. -/
theorem not_barred_of_unfilled (h : store.Unfilled w) (fault : Fault) : ¬ store.Barred w fault := by
  intro hbarred
  cases hbarred with
  | garbled hgarbled =>
    rcases h with hmissing | ⟨s, hs, _⟩
    · rw [hmissing] at hgarbled
      cases hgarbled
    · rw [hs] at hgarbled
      cases hgarbled
  | endless htext hblank _ => cases hblank.symm.trans (blank_of_unfilled h htext)

/-- The presets that are loaded are those of the file: the default ones, with which it was filled,
or those of the document that it is. -/
inductive Loaded (store : PresetStore) (w : Workspace) (items : List PresetItem) (v : Workspace) :
    Prop where
  /-- The file was filled. -/
  | refilled (hmade : PresetItem.DefaultsMade w items)
      (hfile : store.HasDocument v items)
  /-- The file is a document, and stays as it is. -/
  | read {content : String} {entries : List Json}
      (htext : w.files.readText store.path = .ok content)
      (hblank : Text.blank content.toList = false)
      (hsound : PresetDocument.Sound content entries)
      (hdecodes : List.Forall₂ (PresetItem.Decodes w) entries items) (hfiles : v.files = w.files)

/-- Loading fails when the file is barred, and nothing changes, or gives the presets of the file. -/
theorem load_cases (hpending : w.pending = []) (hwritable : w.files.Writable store.path) :
    (∃ fault v, store.load w = .error fault v ∧ store.Barred w fault ∧ v.files = w.files) ∨
      ∃ items v, store.load w = .ok items v ∧ store.Loaded w items v := by
  have hrefills : store.Refills w →
      ∃ items v, store.load w = .ok items v ∧ store.Loaded w items v := by
    rintro ⟨items, v, hload, hmade, hfile⟩
    exact ⟨items, v, hload, .refilled hmade hfile⟩
  rcases readText_cases hwritable with hunfilled | ⟨content, htext, hblank⟩ | hgarbled
  · exact Or.inr (hrefills (refills_of_unfilled hpending hwritable hunfilled))
  · by_cases hsound : ∃ entries, PresetDocument.Sound content entries
    · obtain ⟨entries, hsound⟩ := hsound
      obtain ⟨items, v, hload, hdecodes, hfiles⟩ := load_of_sound htext hblank hsound
      exact Or.inr ⟨items, v, hload, .read htext hblank hsound hdecodes hfiles⟩
    · by_cases hendless : PresetDocument.Endless content
      · obtain ⟨v, hload, hfiles⟩ := load_of_endless htext hblank hendless
        exact Or.inl ⟨_, v, hload, .endless htext hblank hendless, hfiles⟩
      · exact Or.inr (hrefills
          (refills_of_unsound hpending hwritable htext hblank hsound hendless))
  · exact Or.inl ⟨_, w, load_of_unreadable (by decide) hgarbled, .garbled hgarbled, rfl⟩

/-- After loading the file can still be written. -/
theorem writable_of_load (hload : store.load w = .ok items v) (hpending : w.pending = [])
    (hwritable : w.files.Writable store.path) :
    v.pending = [] ∧ v.files.Writable store.path := by
  have hlater := (frame_later store).load w
  have hspares := (frame_spares store).load w
  rw [Work.left_of_ok hload] at hlater hspares
  exact ⟨hlater.pending_eq_nil hpending, hspares.alike.writable hwritable⟩

/-! ## Importing -/

/-- A preset is made anew with the name and the formula of an entry. -/
def Renewed (w : Workspace) (entry : Json) (item : PresetItem) : Prop :=
  ∃ name expr, PresetItem.HasFields entry name expr ∧ PresetItem.Made w name expr item

/-- What an import comes to. -/
inductive Imports (store : PresetStore) (text : String) (w : Workspace) :
    EStateM.Result Fault Workspace (List PresetItem) → Prop where
  /-- The presets of the document, made anew, are merged with those that are loaded, and the file
  holds what is answered. -/
  | merged {entries : List Json} {stored imported : List PresetItem} {readings draws : Nat}
      {u v : Workspace} (hsound : PresetDocument.Sound text entries)
      (hrenewed : List.Forall₂ (Renewed w) entries imported)
      (hload : store.load (w.spent readings draws) = .ok stored u)
      (hkeys : (stored ++ imported).all PresetDocument.hasKey = true)
      (hfile : store.HasDocument v (PresetDocument.collapse (stored ++ imported))) :
      Imports store text w (.ok (PresetDocument.collapse (stored ++ imported)) v)
  /-- The text is no document of presets. It is refused as such, and no file is touched. -/
  | refused {cause : DocumentFault} {v : Workspace}
      (hsound : ¬ ∃ entries, PresetDocument.Sound text entries)
      (hendless : ¬ PresetDocument.Endless text) (hfiles : v.files = w.files) :
      Imports store text w (.error (.document cause) v)
  /-- The text is a document with an infinite time, which is refused for it. -/
  | endless {v : Workspace} (hendless : PresetDocument.Endless text) (hfiles : v.files = w.files) :
      Imports store text w (.error .infiniteTime v)
  /-- The text is a document, but the presets of the file cannot be loaded. -/
  | barred {entries : List Json} {fault : Fault} {v : Workspace}
      (hsound : PresetDocument.Sound text entries) (hbarred : store.Barred w fault)
      (hfiles : v.files = w.files) : Imports store text w (.error fault v)
  /-- The presets of the file are loaded, and then a name or a formula is a list or an object. The
  files are as loading has left them. -/
  | unkeyed {entries : List Json} {stored imported : List PresetItem} {readings draws : Nat}
      {u : Workspace} (hsound : PresetDocument.Sound text entries)
      (hrenewed : List.Forall₂ (Renewed w) entries imported)
      (hload : store.load (w.spent readings draws) = .ok stored u)
      (hkeys : (stored ++ imported).all PresetDocument.hasKey = false) :
      Imports store text w (.error .notAKey u)
  /-- The presets are merged as above, but one that is left has half of a character. It cannot be
  written, and the file is left empty. -/
  | unencodable {entries : List Json} {stored imported : List PresetItem} {readings draws : Nat}
      {fault : Fault} {u v : Workspace} (hsound : PresetDocument.Sound text entries)
      (hrenewed : List.Forall₂ (Renewed w) entries imported)
      (hload : store.load (w.spent readings draws) = .ok stored u)
      (hkeys : (stored ++ imported).all PresetDocument.hasKey = true)
      (hhalf : (PresetDocument.collapse (stored ++ imported)).all PresetItem.isWhole = false)
      (hfile : v.files.read store.path = .ok (.text ""))
      (hfault : store.policy.retryOn .unencodable = false → fault = .unencodable) :
      Imports store text w (.error fault v)

/-- What is made of what is read of an entry is made of the entry. -/
theorem renewed_of_decodes {entries : List Json} {parsed imported : List PresetItem}
    (hdecodes : List.Forall₂ (PresetItem.Decodes w) entries parsed)
    (hmade : List.Forall₂ (fun item => PresetItem.Made w item.name item.expr) parsed imported) :
    List.Forall₂ (Renewed w) entries imported := by
  induction hdecodes generalizing imported with
  | nil =>
    cases hmade
    exact .nil
  | cons hentry _ ih =>
    cases hmade with
    | cons hitem hothers => exact .cons ⟨_, _, hentry.fields, hitem⟩ (ih hothers)

/-- The presets of a document are made anew, one for each entry and each with a draw of its own. -/
theorem exists_renewed {entries : List Json} (hsound : PresetDocument.Sound text entries)
    (store : PresetStore) (w : Workspace) :
    ∃ imported readings first,
      store.importText text w = (do
        let items ← Work.ofExcept (PresetDocument.merge (← store.load) imported)
        store.write items
        return items) (w.spent readings (first + imported.length)) ∧
      List.Forall₂ (Renewed w) entries imported ∧
      List.Forall₂ (PresetItem.Numbered w) (List.range' (w.draws + first) imported.length)
        imported := by
  obtain ⟨parsed, readings, first, hread, hdecodes⟩ := hsound.exists_read w
  obtain ⟨imported, hmake, hmade, hnumbered⟩ :=
    PresetItem.mapM_make PresetItem.name PresetItem.expr parsed (w.spent readings first)
  have hlength := hmade.length_eq
  refine ⟨imported, readings + 2 * parsed.length, first, ?_, ?_, ?_⟩
  · rw [importText, Work.bind_of_ok hread, Work.bind_of_ok hmake, Workspace.spent_spent, hlength]
  · exact renewed_of_decodes hdecodes (hmade.imp fun _ _ h => h.of_eq rfl rfl)
  · rw [← hlength]
    exact hnumbered

/-- What is made anew of the entries of a document is readable. -/
theorem readable_of_renewed {entries : List Json} {imported : List PresetItem} (htimed : w.Timed)
    (hshaped : PresetDocument.Shaped text entries)
    (h : List.Forall₂ (Renewed w) entries imported) : ∀ item ∈ imported, item.Readable := by
  intro item hitem
  obtain ⟨entry, hentry, name, expr, hfields, hmade⟩ := exists_of_forall₂ h hitem
  have hreadable := hshaped.readable entry hentry
  obtain ⟨formula, hformula, hexpr⟩ := hfields.expr
  exact hmade.readable htimed (hreadable.field? hfields.name)
    ((hreadable.field? hformula).field? hexpr)

/-- What the import of a document comes to, whatever the file holds, when the file can be written.
-/
theorem imports_of_sound {entries : List Json} (hsound : PresetDocument.Sound text entries)
    (store : PresetStore) (hpending : w.pending = []) (hwritable : w.files.Writable store.path) :
    store.Imports text w (store.importText text w) := by
  obtain ⟨imported, readings, first, himport, hrenewed, _⟩ := exists_renewed hsound store w
  rw [himport]
  rcases load_cases (w := w.spent readings (first + imported.length)) hpending hwritable with
    ⟨fault, v, hload, hbarred, hfiles⟩ | ⟨stored, u, hload, _⟩
  · rw [Work.bind_of_error hload]
    refine .barred hsound ?_ hfiles
    cases hbarred with
    | garbled h => exact .garbled h
    | endless htext hblank hendless => exact .endless htext hblank hendless
  · obtain ⟨hpending, hwritable⟩ := writable_of_load hload hpending hwritable
    rw [Work.bind_of_ok hload, PresetDocument.merge]
    by_cases hkeys : (stored ++ imported).all PresetDocument.hasKey = true
    · rw [if_pos hkeys]
      show store.Imports text w ((do
        store.write (PresetDocument.collapse (stored ++ imported))
        return PresetDocument.collapse (stored ++ imported) : Work _) u)
      rcases write_ends hpending hwritable (PresetDocument.collapse (stored ++ imported)) with
        ⟨v, hwrite, hfile⟩ | ⟨hhalf, fault, v, hempties⟩
      · rw [Work.bind_of_ok hwrite]
        exact .merged hsound hrenewed hload hkeys hfile
      · rw [Work.bind_of_error hempties.answer]
        exact .unencodable hsound hrenewed hload hkeys hhalf hempties.file hempties.fault
    · rw [if_neg hkeys]
      exact .unkeyed hsound hrenewed hload (Bool.not_eq_true _ ▸ hkeys)

/-- What the import of a text comes to that is no document, or one with an infinite time. -/
theorem imports_of_unsound (hsound : ¬ ∃ entries, PresetDocument.Sound text entries)
    (store : PresetStore) (w : Workspace) : store.Imports text w (store.importText text w) := by
  by_cases hendless : PresetDocument.Endless text
  · obtain ⟨readings, draws, hread⟩ := hendless.read_eq w
    have himport : store.importText text w = .error .infiniteTime (w.spent readings draws) :=
      Work.bind_of_error hread
    rw [himport]
    exact .endless hendless rfl
  · obtain ⟨cause, hread⟩ := PresetDocument.read_of_unsound hsound hendless
    obtain ⟨readings, draws, hread⟩ := hread w
    have himport : store.importText text w = .error (.document cause) (w.spent readings draws) :=
      Work.bind_of_error hread
    rw [himport]
    exact .refused hsound hendless rfl

/-- What an import comes to, whatever the text is and whatever the file holds, when the file can be
written. -/
theorem imports_importText (store : PresetStore) (text : String) (w : Workspace)
    (hpending : w.pending = []) (hwritable : w.files.Writable store.path) :
    store.Imports text w (store.importText text w) := by
  by_cases hsound : ∃ entries, PresetDocument.Sound text entries
  · obtain ⟨entries, hsound⟩ := hsound
    exact imports_of_sound hsound store hpending hwritable
  · exact imports_of_unsound hsound store w

/-! ## A name that is a list, and half of a character -/

/-- An entry with a name and a formula. -/
def entryOf (name : Json) : Json :=
  .object [("name", name), ("formula", .object [("expr", .text "b")])]

/-- The document of an entry. -/
def documentOf (name : Json) : Json :=
  .object [("version", .int 1), ("items", .list [entryOf name])]

/-- A document with a name that is a list. -/
def unkeyedText : String :=
  "\x7b\"version\":1,\"items\":[\x7b\"name\":[],\"formula\":\x7b\"expr\":\"b\"\x7d\x7d]\x7d"

/-- A document with half of a character for a name. -/
def halvedText : String :=
  "\x7b\"version\":1,\"items\":[" ++
    "\x7b\"name\":\"\\ud800\",\"formula\":\x7b\"expr\":\"b\"\x7d\x7d]\x7d"

/-- The text of the name in it. -/
def halvedName : JsonText :=
  .halved ⟨String.singleton replacement, [some 0xd800], rfl⟩

/-- A text that is read as the document of an entry is one of presets. -/
theorem sound_of_read {name : Json} (h : Json.read text = some (documentOf name)) :
    PresetDocument.Sound text [entryOf name] := by
  refine ⟨⟨_, .int 1, h, rfl, rfl, rfl⟩, ?_⟩
  refine List.forall_mem_singleton.mpr ⟨⟨name, .text "b", rfl, _, rfl, rfl⟩, fun value h => ?_⟩
  cases h

theorem sound_unkeyed : PresetDocument.Sound unkeyedText [entryOf (.list [])] :=
  sound_of_read (by cbv)

theorem sound_halved : PresetDocument.Sound halvedText [entryOf (.text halvedName)] :=
  sound_of_read (by cbv)

/-- What is made of the entry is one preset with its name and its formula. -/
theorem exists_of_renewed_entryOf {name : Json} {entries : List Json} {imported : List PresetItem}
    (hsound : PresetDocument.Sound text [entryOf name])
    (hthere : PresetDocument.Sound text entries)
    (hrenewed : List.Forall₂ (Renewed w) entries imported) :
    ∃ item, imported = [item] ∧ item.name = name ∧ item.expr = .text "b" := by
  obtain rfl := hthere.1.unique hsound.1
  obtain ⟨item, others, ⟨_, _, hfields, hmade⟩, hothers, rfl⟩ :=
    List.forall₂_cons_left_iff.mp hrenewed
  cases hothers
  obtain ⟨formula, hformula, hexpr⟩ := hfields.expr
  cases hfields.name
  cases hformula
  cases hexpr
  exact ⟨item, rfl, hmade.name, hmade.expr⟩

/-- What is loaded from a missing file are the default presets, and they are in the file then. -/
theorem exists_of_load_bare {readings draws : Nat} {stored : List PresetItem} {u : Workspace}
    (hload : bareStore.load (bareWorkspace.spent readings draws) = .ok stored u) :
    PresetItem.DefaultsMade (bareWorkspace.spent readings draws) stored ∧
      bareStore.HasDocument u stored := by
  obtain ⟨items, v, hfilled, hmade, hfile⟩ := refills_of_unfilled
    (w := bareWorkspace.spent readings draws) rfl works_bare.writable unfilled_bare
  cases hload.symm.trans hfilled
  exact ⟨hmade, hfile⟩

/-- Such presets and one that is imported with a text for its name can be merged. -/
theorem all_hasKey_of_load_bare {readings draws : Nat} {stored : List PresetItem} {u : Workspace}
    {item : PresetItem} {name : JsonText}
    (hload : bareStore.load (bareWorkspace.spent readings draws) = .ok stored u)
    (hname : item.name = .text name) (hexpr : item.expr = .text "b") :
    (stored ++ [item]).all PresetDocument.hasKey = true := by
  have hstored : stored.all PresetDocument.hasKey = true := by
    refine PresetDocument.all_hasKey_of_texts fun other hother => ?_
    obtain ⟨preset, _, hmade⟩ := exists_of_forall₂ (exists_of_load_bare hload).1 hother
    exact ⟨⟨preset.1, hmade.name⟩, ⟨preset.2, hmade.expr⟩⟩
  rw [List.all_append, hstored, List.all_cons, PresetDocument.hasKey, hname, hexpr]
  rfl

/-- An import of a name that is a list fails after the missing file was filled, and one of half of a
character leaves it empty. -/
theorem imports_importText_bare : bareWorkspace.pending = [] ∧
    bareWorkspace.files.Writable bareStore.path ∧
    (bareStore.Imports unkeyedText bareWorkspace
        (bareStore.importText unkeyedText bareWorkspace) ∧
      ∃ items v, bareStore.importText unkeyedText bareWorkspace = .error .notAKey v ∧
        bareStore.HasDocument v items) ∧
    bareStore.Imports halvedText bareWorkspace (bareStore.importText halvedText bareWorkspace) ∧
    ∃ v, bareStore.importText halvedText bareWorkspace = .error .unencodable v ∧
      v.files.read bareStore.path = .ok (.text "") := by
  have hunkeyed := imports_importText bareStore unkeyedText bareWorkspace rfl works_bare.writable
  have hhalved := imports_importText bareStore halvedText bareWorkspace rfl works_bare.writable
  have hbarred := not_barred_of_unfilled unfilled_bare
  refine ⟨rfl, works_bare.writable, ⟨hunkeyed, ?_⟩, hhalved, ?_⟩
  · generalize bareStore.importText unkeyedText bareWorkspace = result at hunkeyed ⊢
    have hkeys : ∀ {entries stored imported}, PresetDocument.Sound unkeyedText entries →
        List.Forall₂ (Renewed bareWorkspace) entries imported →
        (stored ++ imported).all PresetDocument.hasKey = true → False := by
      intro entries stored imported hthere hrenewed hkeys
      obtain ⟨item, rfl, hname, _⟩ := exists_of_renewed_entryOf sound_unkeyed hthere hrenewed
      rw [List.all_append, List.all_cons, PresetDocument.hasKey, hname] at hkeys
      simp [Json.isKey] at hkeys
    cases hunkeyed with
    | merged hthere hrenewed _ hall _ => exact (hkeys hthere hrenewed hall).elim
    | refused hsound _ _ => exact absurd ⟨_, sound_unkeyed⟩ hsound
    | endless hendless _ => exact absurd hendless sound_unkeyed.not_endless
    | barred _ hfault _ => exact absurd hfault (hbarred _)
    | unkeyed _ _ hload _ => exact ⟨_, _, rfl, (exists_of_load_bare hload).2⟩
    | unencodable hthere hrenewed _ hall _ _ _ => exact (hkeys hthere hrenewed hall).elim
  · generalize bareStore.importText halvedText bareWorkspace = result at hhalved ⊢
    cases hhalved with
    | merged hthere hrenewed _ _ hfile =>
      obtain ⟨item, rfl, hname, _⟩ := exists_of_renewed_entryOf sound_halved hthere hrenewed
      have hwhole := List.all_eq_true.mp hfile.isWhole item
        (PresetDocument.mem_collapse_concat _ item)
      rw [PresetItem.isWhole, hname, Json.isWhole_text] at hwhole
      cases hwhole
    | refused hsound _ _ => exact absurd ⟨_, sound_halved⟩ hsound
    | endless hendless _ => exact absurd hendless sound_halved.not_endless
    | barred _ hfault _ => exact absurd hfault (hbarred _)
    | unkeyed hthere hrenewed hload hall =>
      obtain ⟨item, rfl, hname, hexpr⟩ := exists_of_renewed_entryOf sound_halved hthere hrenewed
      rw [all_hasKey_of_load_bare hload hname hexpr] at hall
      cases hall
    | unencodable _ _ _ _ _ hfile hfault =>
      obtain rfl := hfault rfl
      exact ⟨_, rfl, hfile⟩

end PresetStore

end LayerBlend
