import LayerBlend.Preset.Item
import LayerBlend.Proofs.Json.Reading
import LayerBlend.Proofs.Outcome
import LayerBlend.Proofs.Workspace.Work

/-!
# Presets that are made and read

* `Workspace.Timed`, `Workspace.Clocked` — the readings of the clock are whole parts of doubles, and
  those of a running clock.
* `PresetItem.Exact` — a preset can be written so that its entry is read back as it is.
* `PresetItem.Readable`, `PresetItem.isWhole` — it is exact but for halves of characters, and there
  are none (`PresetItem.Readable.exact`).
* `PresetItem.Plain` — name, formula and identifier are texts, and the time is a reading of a
  running clock.
* `PresetItem.Made`, `PresetItem.Numbered` — a preset is made in a workspace, with a name and a
  formula, and with the identifier of a draw.
* `PresetItem.mapM_make` — what making a list of presets gives and spends, and
  `PresetItem.exists_defaultsMade` — so for the default ones.
* `PresetItem.ofJson_toJson` — the entry of a plain preset is read as the preset.
-/

namespace LayerBlend

/-- Every reading of the clock is at least one millisecond. It is the whole part of a double, and
so below the power of two that is beyond all doubles. -/
def Workspace.Clocked (w : Workspace) : Prop :=
  ∀ n, 1 ≤ w.clock n ∧ w.clock n < 2 ^ 1024

/-- Every reading of the clock is the whole part of a double. -/
def Workspace.Timed (w : Workspace) : Prop :=
  ∀ n, (w.clock n).natAbs < 2 ^ 1024

theorem Workspace.Clocked.timed {w : Workspace} (h : w.Clocked) : w.Timed := by
  intro n
  obtain ⟨hpos, hlt⟩ := h n
  rw [← Int.ofNat_lt, Int.natAbs_of_nonneg (Int.le_trans Int.one_nonneg hpos), Int.natCast_pow]
  exact hlt

/-- The whole part of a double has no more digits than may be read. -/
theorem lt_maxDigits {n : Nat} (h : n < 2 ^ 1024) : n < 10 ^ Text.maxDigits := by
  have hgrow : ∀ bits ≤ Text.maxDigits, 2 ^ bits ≤ 2 ^ Text.maxDigits :=
    fun _ => Nat.pow_le_pow_right Nat.two_pos
  calc n < 2 ^ 1024 := h
    _ ≤ 2 ^ Text.maxDigits := hgrow 1024 (by decide)
    _ ≤ 10 ^ Text.maxDigits := Nat.pow_le_pow_left (by decide) Text.maxDigits

/-- What is in the second of two lists that are related member by member comes from the first. -/
theorem exists_of_forall₂ {α β : Type} {R : α → β → Prop} {xs : List α} {ys : List β} {y : β}
    (h : List.Forall₂ R xs ys) (hy : y ∈ ys) : ∃ x ∈ xs, R x y := by
  induction h with
  | nil => cases hy
  | cons hfirst _ ih =>
    rcases List.mem_cons.mp hy with rfl | hy
    · exact ⟨_, List.mem_cons_self, hfirst⟩
    · obtain ⟨x, hx, hrelated⟩ := ih hy
      exact ⟨x, List.mem_cons_of_mem _ hx, hrelated⟩

/-- What is in a part of the second of two such lists comes from a part of the first. -/
theorem exists_sublist_of_forall₂ {α β : Type} {R : α → β → Prop} {xs : List α} {ys zs : List β}
    (h : List.Forall₂ R xs ys) (hsub : zs.Sublist ys) :
    ∃ ws, ws.Sublist xs ∧ List.Forall₂ R ws zs := by
  induction h generalizing zs with
  | nil => exact ⟨[], List.nil_sublist _, List.sublist_nil.mp hsub ▸ .nil⟩
  | cons hfirst _ ih =>
    cases hsub with
    | cons _ hsub =>
      obtain ⟨ws, hws, hall⟩ := ih hsub
      exact ⟨ws, hws.cons _, hall⟩
    | cons_cons _ hsub =>
      obtain ⟨ws, hws, hall⟩ := ih hsub
      exact ⟨_ :: ws, hws.cons_cons _, .cons hfirst hall⟩

namespace PresetItem

/-- A preset whose entry is read back as it is written. -/
structure Exact (item : PresetItem) : Prop where
  /-- The name is exact. -/
  name : item.name.Exact
  /-- The formula is exact. -/
  expr : item.expr.Exact
  /-- The identifier is exact. -/
  id : item.id.Exact
  /-- The time has no more digits than may be read. -/
  time : item.createdAt.natAbs < 10 ^ Text.maxDigits

/-- A preset whose entry is read back as it is written, when no text of it has half of a
character. -/
structure Readable (item : PresetItem) : Prop where
  /-- The name is readable. -/
  name : item.name.Readable
  /-- The formula is readable. -/
  expr : item.expr.Readable
  /-- The identifier is readable. -/
  id : item.id.Readable
  /-- The time has no more digits than may be read. -/
  time : item.createdAt.natAbs < 10 ^ Text.maxDigits

/-- No text of a preset has half of a character. -/
def isWhole (item : PresetItem) : Bool :=
  item.name.isWhole && item.expr.isWhole && item.id.isWhole

theorem Exact.readable {item : PresetItem} (h : item.Exact) : item.Readable :=
  ⟨h.name.readable, h.expr.readable, h.id.readable, h.time⟩

theorem Exact.isWhole {item : PresetItem} (h : item.Exact) : item.isWhole = true := by
  rw [PresetItem.isWhole, h.name.isWhole, h.expr.isWhole, h.id.isWhole]
  rfl

theorem isWhole_iff {item : PresetItem} : item.isWhole = true ↔
    item.name.isWhole = true ∧ item.expr.isWhole = true ∧ item.id.isWhole = true := by
  rw [isWhole, Bool.and_eq_true, Bool.and_eq_true, and_assoc]

/-- A readable preset without halves of characters is read back as it is written. -/
theorem Readable.exact {item : PresetItem} (h : item.Readable) (hwhole : item.isWhole = true) :
    item.Exact := by
  obtain ⟨hname, hexpr, hid⟩ := isWhole_iff.mp hwhole
  exact ⟨Json.exact_of_readable h.name hname, Json.exact_of_readable h.expr hexpr,
    Json.exact_of_readable h.id hid, h.time⟩

/-- A preset that is made here and not taken from a document: its name, formula and identifier are
texts. -/
structure Plain (item : PresetItem) : Prop where
  /-- The name is a text. -/
  name : ∃ s : String, item.name = .text s
  /-- The formula is a text. -/
  expr : ∃ s : String, item.expr = .text s
  /-- The identifier is a text that is not empty. -/
  id : ∃ s : String, s ≠ "" ∧ item.id = .text s
  /-- The time is the reading of a clock. -/
  time : 1 ≤ item.createdAt ∧ item.createdAt < 2 ^ 1024

/-! ## Making -/

/-- A preset with a name and a formula that is made in a workspace. -/
structure Made (w : Workspace) (name expr : Json) (item : PresetItem) : Prop where
  /-- It has the name. -/
  name : item.name = name
  /-- It has the formula. -/
  expr : item.expr = expr
  /-- Its identifier is made of a reading of the clock and a draw. -/
  id : ∃ n k, item.id = .text (idOf (w.clock n) (w.suffix k))
  /-- Its time is a reading of the clock. -/
  time : ∃ n, item.createdAt = w.clock n

theorem onlySpends_make (name expr : Json) : (make name expr).OnlySpends :=
  (Work.onlySpends_now.bind fun _ =>
    Work.onlySpends_drawSuffix.bind fun _ => Work.onlySpends_pure _).bind fun _ =>
      Work.onlySpends_now.bind fun _ => Work.onlySpends_pure _

/-- The preset that is made in a workspace. -/
def madeIn (w : Workspace) (name expr : Json) : PresetItem :=
  ⟨name, expr, .text (idOf (w.clock w.readings) (w.suffix w.draws)), w.clock (w.readings + 1)⟩

/-- Making a preset takes two readings of the clock and one draw. -/
theorem make_apply (name expr : Json) (w : Workspace) :
    make name expr w = .ok (madeIn w name expr) (w.spent 2 1) :=
  rfl

/-- What is made depends on the clock and the supply of identifiers alone. -/
theorem Made.of_eq {w v : Workspace} {name expr : Json} {item : PresetItem}
    (h : Made v name expr item) (hclock : v.clock = w.clock) (hsuffix : v.suffix = w.suffix) :
    Made w name expr item :=
  ⟨h.name, h.expr, hclock ▸ hsuffix ▸ h.id, hclock ▸ h.time⟩

/-- A preset has the identifier of a draw. -/
def Numbered (w : Workspace) (draw : Nat) (item : PresetItem) : Prop :=
  ∃ time, item.id = .text (idOf time (w.suffix draw))

theorem made_madeIn (w : Workspace) (name expr : Json) : Made w name expr (madeIn w name expr) :=
  ⟨rfl, rfl, ⟨_, _, rfl⟩, ⟨_, rfl⟩⟩

/-- A preset that is made has half of a character exactly when its name or its formula has. -/
theorem Made.isWhole_eq {w : Workspace} {name expr : Json} {item : PresetItem}
    (h : Made w name expr item) : item.isWhole = (name.isWhole && expr.isWhole) := by
  obtain ⟨n, k, hid⟩ := h.id
  rw [isWhole, h.name, h.expr, hid, Json.isWhole_text, JsonText.isWhole, Bool.and_true]

/-- Presets are made one after the other, each with a draw of its own. -/
theorem mapM_make {α : Type} (name expr : α → Json) (items : List α) (w : Workspace) :
    ∃ made, (items.mapM fun a => make (name a) (expr a)) w =
        .ok made (w.spent (2 * items.length) items.length) ∧
      List.Forall₂ (fun a item => Made w (name a) (expr a) item) items made ∧
      List.Forall₂ (Numbered w) (List.range' w.draws items.length) made := by
  induction items generalizing w with
  | nil => exact ⟨[], rfl, .nil, .nil⟩
  | cons a items ih =>
    obtain ⟨made, hitems, hall, hnumbered⟩ := ih (w.spent 2 1)
    refine ⟨madeIn w (name a) (expr a) :: made, ?_,
      .cons (made_madeIn w _ _) (hall.imp fun _ _ h => ⟨h.name, h.expr, h.id, h.time⟩),
      .cons ⟨_, rfl⟩ hnumbered⟩
    rw [List.mapM_cons, Work.bind_of_ok (make_apply _ _ w), Work.bind_of_ok hitems,
      Workspace.spent_spent, List.length_cons, Nat.mul_succ, Nat.add_comm 2, Nat.add_comm 1]
    rfl

/-- An identifier is not empty. -/
theorem idOf_ne_empty (time : Int) (suffix : String) : idOf time suffix ≠ "" := by
  intro h
  have hlist := congrArg String.toList h
  simp [idOf] at hlist

/-- A preset that is made with texts is plain. -/
theorem Made.plain {w : Workspace} (hclock : w.Clocked) {name expr : Json} {item : PresetItem}
    (h : Made w name expr item) (hname : ∃ s : String, name = .text s)
    (hexpr : ∃ s : String, expr = .text s) : item.Plain := by
  obtain ⟨n, k, hid⟩ := h.id
  obtain ⟨m, htime⟩ := h.time
  exact ⟨h.name ▸ hname, h.expr ▸ hexpr, ⟨_, idOf_ne_empty _ _, hid⟩, htime ▸ hclock m⟩

/-- Presets that are made with texts are plain. -/
theorem plain_of_forall₂_made {α : Type} {name expr : α → Json} {items : List α}
    {made : List PresetItem} {w : Workspace} (hclock : w.Clocked)
    (htexts : ∀ a ∈ items, (∃ s : String, name a = .text s) ∧ ∃ s : String, expr a = .text s)
    (h : List.Forall₂ (fun a item => Made w (name a) (expr a) item) items made) :
    ∀ item ∈ made, item.Plain := by
  intro item hitem
  obtain ⟨a, ha, hmade⟩ := exists_of_forall₂ h hitem
  exact hmade.plain hclock (htexts a ha).1 (htexts a ha).2

/-- The default presets, made in a workspace. -/
def DefaultsMade (w : Workspace) (items : List PresetItem) : Prop :=
  List.Forall₂ (fun preset item => Made w (.text preset.1) (.text preset.2) item) defaults items

/-- No default preset has half of a character. -/
theorem DefaultsMade.isWhole {w : Workspace} {items : List PresetItem} (h : DefaultsMade w items) :
    items.all PresetItem.isWhole = true := by
  refine List.all_eq_true.mpr fun item hitem => ?_
  obtain ⟨preset, _, hmade⟩ := exists_of_forall₂ h hitem
  rw [hmade.isWhole_eq, Json.isWhole_text, Json.isWhole_text]
  rfl

/-- The default presets can be made. -/
theorem exists_defaultsMade (w : Workspace) :
    ∃ items readings draws, makeDefaults w = .ok items (w.spent readings draws) ∧
      DefaultsMade w items := by
  obtain ⟨items, hmake, hmade, _⟩ := mapM_make (fun p : String × String => .text p.1)
    (fun p => .text p.2) defaults w
  exact ⟨items, _, _, hmake, hmade⟩

/-- The default presets can be made, and they are plain. -/
theorem exists_makeDefaults {w : Workspace} (hclock : w.Clocked) :
    ∃ items readings draws, makeDefaults w = .ok items (w.spent readings draws) ∧
      ∀ item ∈ items, item.Plain := by
  obtain ⟨items, readings, draws, hmake, hmade⟩ := exists_defaultsMade w
  have htexts : ∀ p ∈ defaults,
      (∃ s : String, Json.text p.1 = .text s) ∧ ∃ s : String, Json.text p.2 = .text s :=
    fun p _ => ⟨⟨p.1, rfl⟩, ⟨p.2, rfl⟩⟩
  exact ⟨items, readings, draws, hmake, plain_of_forall₂_made hclock htexts hmade⟩

/-! ## Reading -/

/-- The identifier of an entry, made where it is missing. -/
def identifierOf (entry : Json) : Work Json :=
  match truthy? entry "id" with
  | some id => pure id
  | none => Json.text <$> JsonText.whole <$> makeId

/-- The time of an entry, the present where it is missing. -/
def creationOf (entry : Json) : Work Int :=
  match truthy? entry "createdAt" with
  | some time => Work.ofExcept (timeOf time)
  | none => Work.now

/-- An entry is read field by field. -/
theorem ofJson_eq (entry : Json) : ofJson entry = (do
    let name ← Work.ofExcept (fieldOf entry "name")
    let expr ← Work.ofExcept (do fieldOf (← fieldOf entry "formula") "expr")
    let id ← identifierOf entry
    return ⟨name, expr, id, ← creationOf entry⟩) := by
  unfold ofJson identifierOf creationOf
  cases truthy? entry "id" <;> cases truthy? entry "createdAt" <;> rfl

/-- Reading an entry spends no more than an identifier and a time for those that are missing. -/
theorem onlySpends_ofJson (entry : Json) : (ofJson entry).OnlySpends := by
  have hid : (identifierOf entry).OnlySpends := by
    unfold identifierOf
    cases truthy? entry "id" with
    | some id => exact Work.onlySpends_pure id
    | none =>
      exact (Work.onlySpends_now.bind fun _ =>
        Work.onlySpends_drawSuffix.bind fun _ => Work.onlySpends_pure _).map JsonText.whole |>.map
          Json.text
  have htime : (creationOf entry).OnlySpends := by
    unfold creationOf
    cases truthy? entry "createdAt" with
    | some time => exact Work.onlySpends_ofExcept (timeOf time)
    | none => exact Work.onlySpends_now
  rw [ofJson_eq]
  exact (Work.onlySpends_ofExcept _).bind fun _ => (Work.onlySpends_ofExcept _).bind fun _ =>
    hid.bind fun _ => htime.bind fun _ => Work.onlySpends_pure _

/-- What is read has the name and the formula of the entry. -/
theorem of_ofJson {entry : Json} {item : PresetItem} {w v : Workspace}
    (h : ofJson entry w = .ok item v) :
    fieldOf entry "name" = .ok item.name ∧ ∃ formula, fieldOf entry "formula" = .ok formula ∧
      fieldOf formula "expr" = .ok item.expr := by
  rw [ofJson_eq] at h
  obtain ⟨name, _, hname, h⟩ := Work.bind_eq_ok.mp h
  obtain ⟨expr, _, hexpr, h⟩ := Work.bind_eq_ok.mp h
  obtain ⟨id, _, _, h⟩ := Work.bind_eq_ok.mp h
  obtain ⟨time, _, _, h⟩ := Work.bind_eq_ok.mp h
  cases h
  exact ⟨(Work.ofExcept_eq_ok.mp hname).1, bind_eq_ok.mp (Work.ofExcept_eq_ok.mp hexpr).1⟩

/-- The entry of a preset that is readable is readable. -/
theorem Readable.toJson {item : PresetItem} (h : item.Readable) : item.toJson.Readable := by
  have hformula : (Json.object [("expr", item.expr)]).Readable :=
    .object (by simp) (by simpa using h.expr)
  refine .object (by simp) fun field hfield => ?_
  simp only [List.mem_cons, List.not_mem_nil, or_false] at hfield
  rcases hfield with rfl | rfl | rfl | rfl
  · exact h.id
  · exact h.name
  · exact hformula
  · exact .int h.time

/-- The entry of a preset has half of a character exactly when the preset has. -/
theorem isWhole_toJson (item : PresetItem) : item.toJson.isWhole = item.isWhole := by
  have htime : (Json.int item.createdAt).isWhole = true := rfl
  simp [toJson, Json.isWhole_object, htime, JsonText.isWhole, isWhole, Bool.and_comm,
    Bool.and_assoc]

namespace Plain

variable {item : PresetItem}

/-- A plain preset is read back as it is written. -/
theorem exact (h : item.Plain) : item.Exact := by
  obtain ⟨name, hname⟩ := h.name
  obtain ⟨expr, hexpr⟩ := h.expr
  obtain ⟨id, _, hid⟩ := h.id
  have htime : item.createdAt.natAbs < 2 ^ 1024 := by
    rw [← Int.ofNat_lt, Int.natAbs_of_nonneg (Int.le_trans Int.one_nonneg h.time.1),
      Int.natCast_pow]
    exact h.time.2
  exact ⟨hname ▸ .text name, hexpr ▸ .text expr, hid ▸ .text id, lt_maxDigits htime⟩

/-- The entry of a plain preset is read as the preset, and nothing is spent. -/
theorem ofJson_toJson (h : item.Plain) : ofJson item.toJson = pure item := by
  obtain ⟨id, hne, hid⟩ := h.id
  have hidentifier : truthy? item.toJson "id" = some item.id := by
    have htruthy : item.id.isTruthy = true := by
      simp [hid, Json.isTruthy, JsonText.isEmpty, hne]
    simp [truthy?, toJson, Json.field?, Json.find?, htruthy]
  have htime : truthy? item.toJson "createdAt" = some (.int item.createdAt) := by
    have htruthy : (Json.int item.createdAt).isTruthy = true := by
      have := h.time.1
      simp only [Json.isTruthy, ne_eq, decide_eq_true_eq]
      omega
    simp [truthy?, toJson, Json.field?, Json.find?, htruthy]
  rw [ofJson_eq, identifierOf, hidentifier, creationOf, htime]
  rfl

end Plain

end PresetItem

end LayerBlend
