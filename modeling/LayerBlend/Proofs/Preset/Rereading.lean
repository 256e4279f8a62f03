import LayerBlend.Proofs.Arithmetic.Parts
import LayerBlend.Proofs.Json.Reading
import LayerBlend.Proofs.Preset.Sparing

/-!
# Presets that are read, written and read again

* `PresetItem.readable_of_decodes` — what is read of a document can be written so that it is read
  back, as far as it has no half of a character.
* `PresetItem.Rereads` — what reading makes of the entry of a preset: an identifier that counts as
  false and a time of zero are made anew, and the rest stays.
* `PresetDocument.sound_write` — the document of presets that are exact is one of presets.
* `PresetStore.load_of_hasDocument` — loading it gives each preset as its entry is read, and the
  file stays as it is.
-/

namespace LayerBlend

/-! ## Times -/

/-- A digit of any script is below ten. -/
theorem Text.lt_ten_of_decimalDigit? {c : Char} {d : Nat} (h : decimalDigit? c = some d) :
    d < 10 := by
  obtain ⟨first, hfirst, rfl⟩ := Option.map_eq_some_iff.mp h
  have hrow := List.find?_some hfirst
  simp only [Bool.and_eq_true, decide_eq_true_eq] at hrow
  omega

/-- A digit in front of digits below ten. -/
theorem Text.lt_ten_of_cons? {c : Char} {others : Option (List Nat)} {digits : List Nat}
    (hothers : ∀ more, others = some more → ∀ d ∈ more, d < 10)
    (h : (do return (← decimalDigit? c) :: (← others)) = some digits) : ∀ d ∈ digits, d < 10 := by
  simp only [Option.bind_eq_bind, Option.bind_eq_some_iff] at h
  obtain ⟨first, hfirst, more, hmore, heq⟩ := h
  cases heq
  exact List.forall_mem_cons.mpr ⟨Text.lt_ten_of_decimalDigit? hfirst, hothers more hmore⟩

/-- The digits of a numeral are below ten. -/
theorem Text.lt_ten_of_readDigits? {s : List Char} {digits : List Nat}
    (h : readDigits? s = some digits) : ∀ d ∈ digits, d < 10 := by
  induction s using readDigits?.induct generalizing digits with
  | case1 =>
    cases h
    simp
  | case2 c rest ih =>
    rw [readDigits?] at h
    exact lt_ten_of_cons? (fun _ hrest => ih hrest) h
  | case3 c rest hunderscore ih =>
    rw [readDigits?] at h
    · exact lt_ten_of_cons? (fun _ hrest => ih hrest) h
    · exact hunderscore

/-- An unsigned numeral has no more digits than may be read. -/
theorem Text.readUnsigned?_lt {s : List Char} {n : Nat} (h : readUnsigned? s = some n) :
    n < 10 ^ maxDigits := by
  cases s with
  | nil => cases h
  | cons c rest =>
    rw [readUnsigned?] at h
    simp only [Option.bind_eq_bind, Option.bind_eq_some_iff] at h
    obtain ⟨first, hfirst, others, hothers, h⟩ := h
    split at h
    · next hlength =>
      cases h
      have hdigits : ∀ d ∈ first :: others, d < 10 := List.forall_mem_cons.mpr
        ⟨Text.lt_ten_of_decimalDigit? hfirst, Text.lt_ten_of_readDigits? hothers⟩
      exact (Json.Reader.ofDigits_lt hdigits).trans_le (Nat.pow_le_pow_right (by decide) hlength)
    · cases h

/-- A number that is read from a text has no more digits than may be read. -/
theorem Text.natAbs_readWhole?_lt {s : List Char} {n : Int} (h : readWhole? s = some n) :
    n.natAbs < 10 ^ maxDigits := by
  unfold readWhole? at h
  split at h
  all_goals
    simp only [Option.bind_eq_bind, Option.bind_eq_some_iff, Option.map_eq_some_iff,
      Option.pure_def, Option.some.injEq] at h
    obtain ⟨_, ⟨k, hk, rfl⟩, rfl⟩ := h
    have := Text.readUnsigned?_lt hk
    simpa using this

/-- The whole part of a double is below the power of two that is beyond all doubles. -/
theorem Double.natAbs_truncate?_lt {x : Float} {n : Int} (h : Double.truncate? x = some n) :
    n.natAbs < 2 ^ 1024 := by
  unfold Double.truncate? at h
  cases hparts : Double.parts x with
  | nan =>
    rw [hparts] at h
    cases h
  | infinite negative =>
    rw [hparts] at h
    cases h
  | finite negative m e =>
    obtain ⟨hcanonical, he⟩ := Double.canonical_of_parts hparts
    have hm := hcanonical.lt
    rw [hparts] at h
    have hgrow : ∀ bits limit : Nat, bits ≤ limit → 2 ^ bits ≤ 2 ^ limit :=
      fun _ _ => Nat.pow_le_pow_right two_pos
    have hsize : (if 0 ≤ e then m * Numeral.twoTo e.toNat else m / Numeral.twoTo (-e).toNat) <
        2 ^ 1024 := by
      split
      · calc m * Numeral.twoTo e.toNat < 2 ^ 53 * 2 ^ e.toNat :=
              Nat.mul_lt_mul_of_pos_right hm (Nat.two_pow_pos _)
          _ = 2 ^ (53 + e.toNat) := (pow_add 2 53 e.toNat).symm
          _ ≤ 2 ^ 1024 := hgrow _ 1024 (by omega)
      · calc m / Numeral.twoTo (-e).toNat ≤ m := Nat.div_le_self _ _
          _ < 2 ^ 53 := hm
          _ ≤ 2 ^ 1024 := hgrow 53 1024 (by decide)
    have hvalue := Option.some.inj h
    rw [← hvalue]
    split
    · rwa [Int.natAbs_neg, Int.natAbs_natCast]
    · rwa [Int.natAbs_natCast]

/-! ## Readable parts -/

/-- The fields of a readable value are readable. -/
theorem Json.Readable.field? {document value : Json} {name : String} (h : document.Readable)
    (hfield : document.field? name = some value) : value.Readable := by
  cases h with
  | object hnames hfields =>
    obtain ⟨field, hfound, rfl⟩ := Option.map_eq_some_iff.mp hfield
    exact hfields field (List.mem_of_find?_eq_some hfound)
  | _ => cases hfield

/-- The fields of a value without halves of characters have none. -/
theorem Json.isWhole_of_field? {document value : Json} {name : String}
    (h : document.isWhole = true) (hfield : document.field? name = some value) :
    value.isWhole = true := by
  cases document with
  | object fields =>
    obtain ⟨field, hfound, rfl⟩ := Option.map_eq_some_iff.mp hfield
    rw [Json.isWhole_object, List.all_eq_true] at h
    have hboth := h field (List.mem_of_find?_eq_some hfound)
    exact (Bool.and_eq_true_iff.mp hboth).2
  | _ => cases hfield

/-- The entries of a document that is read are readable. -/
theorem PresetDocument.Shaped.readable {text : String} {entries : List Json}
    (h : PresetDocument.Shaped text entries) : ∀ entry ∈ entries, entry.Readable := by
  obtain ⟨document, version, hread, _, _, hitems⟩ := h
  cases (Json.readable_of_read hread).field? hitems with
  | list hentries => exact hentries

namespace PresetItem

variable {w : Workspace} {entry : Json} {item again : PresetItem}

/-- The time that a readable value says has no more digits than may be read. -/
theorem natAbs_timeOf_lt {value : Json} {n : Int} (hvalue : value.Readable)
    (h : timeOf value = .ok n) : n.natAbs < 10 ^ Text.maxDigits := by
  unfold timeOf at h
  cases hvalue with
  | null => cases h
  | bool b =>
    cases h
    have : (1 : Nat) < 10 ^ Text.maxDigits := Nat.one_lt_pow (by decide) (by decide)
    cases b
    · simp
    · simpa using this
  | int hn =>
    cases h
    exact hn
  | double x =>
    dsimp only at h
    rw [truncate_fractional] at h
    cases hparts : Double.parts x with
    | nan =>
      rw [hparts] at h
      cases h
    | infinite negative =>
      rw [hparts] at h
      cases h
    | finite negative m e =>
      rw [hparts] at h
      obtain ⟨k, hk⟩ : ∃ k, Double.truncate? x = some k := by
        unfold Double.truncate?
        rw [hparts]
        exact ⟨_, rfl⟩
      rw [hk] at h
      cases h
      exact lt_maxDigits (Double.natAbs_truncate?_lt hk)
  | text t =>
    cases t with
    | halved t => cases h
    | whole s =>
      dsimp only at h
      split at h
      · next hread =>
        cases h
        exact Text.natAbs_readWhole?_lt hread
      · cases h
  | list => cases h
  | object => cases h

/-- A field that counts as true is one of the entry. -/
theorem field?_of_truthy? {value : Json} {name : String} (h : truthy? entry name = some value) :
    entry.field? name = some value ∧ value.isTruthy = true := by
  rw [truthy?, Option.filter_eq_some_iff] at h
  exact h

/-- What is read of a readable entry is readable. -/
theorem readable_of_decodes (hclock : w.Timed) (hentry : entry.Readable)
    (h : Decodes w entry item) : item.Readable := by
  obtain ⟨formula, hformula, hexpr⟩ := h.fields.expr
  refine ⟨hentry.field? h.fields.name, (hentry.field? hformula).field? hexpr, ?_, ?_⟩
  · rcases h.id with hid | ⟨_, n, k, hid⟩
    · exact hentry.field? (field?_of_truthy? hid).1
    · exact hid ▸ .text _
  · rcases h.time with ⟨value, hvalue, htime⟩ | ⟨_, n, htime⟩
    · exact natAbs_timeOf_lt (hentry.field? (field?_of_truthy? hvalue).1) htime
    · exact htime ▸ lt_maxDigits (hclock n)

/-- What is read of an entry without halves of characters has none. -/
theorem isWhole_of_decodes (hentry : entry.isWhole = true) (h : Decodes w entry item) :
    item.isWhole = true := by
  obtain ⟨formula, hformula, hexpr⟩ := h.fields.expr
  refine isWhole_iff.mpr ⟨Json.isWhole_of_field? hentry h.fields.name,
    Json.isWhole_of_field? (Json.isWhole_of_field? hentry hformula) hexpr, ?_⟩
  rcases h.id with hid | ⟨_, n, k, hid⟩
  · exact Json.isWhole_of_field? hentry (field?_of_truthy? hid).1
  · rw [hid, Json.isWhole_text]
    rfl

/-- What is read of readable entries is readable. -/
theorem readable_of_forall₂_decodes (hclock : w.Timed) {entries : List Json}
    {items : List PresetItem} (hentries : ∀ entry ∈ entries, entry.Readable)
    (h : List.Forall₂ (Decodes w) entries items) : ∀ item ∈ items, item.Readable := by
  intro item hitem
  obtain ⟨entry, hentry, hdecodes⟩ := exists_of_forall₂ h hitem
  exact readable_of_decodes hclock (hentries entry hentry) hdecodes

/-- What is made with a readable name and a readable formula is readable. -/
theorem Made.readable (hclock : w.Timed) {name expr : Json} (h : Made w name expr item)
    (hname : name.Readable) (hexpr : expr.Readable) : item.Readable := by
  obtain ⟨_, _, hid⟩ := h.id
  obtain ⟨n, htime⟩ := h.time
  exact ⟨h.name ▸ hname, h.expr ▸ hexpr, hid ▸ .text _, htime ▸ lt_maxDigits (hclock n)⟩

/-! ## Entries of presets -/

/-- What reading makes of the entry of a preset. -/
structure Rereads (item again : PresetItem) : Prop where
  /-- The name stays. -/
  name : again.name = item.name
  /-- The formula stays. -/
  expr : again.expr = item.expr
  /-- The identifier stays, if it counts as true. -/
  id : item.id.isTruthy = true → again.id = item.id
  /-- The time stays, unless it is zero. -/
  time : item.createdAt ≠ 0 → again.createdAt = item.createdAt

theorem truthy?_id_toJson (item : PresetItem) :
    truthy? item.toJson "id" = if item.id.isTruthy then some item.id else none := by
  cases h : item.id.isTruthy <;> simp [truthy?, toJson, Json.field?, Json.find?, h]

theorem truthy?_createdAt_toJson (item : PresetItem) :
    truthy? item.toJson "createdAt" =
      if item.createdAt = 0 then none else some (.int item.createdAt) := by
  by_cases h : item.createdAt = 0 <;>
    simp [truthy?, toJson, Json.field?, Json.find?, Json.isTruthy, h]

/-- The entry of a preset is one of a preset. -/
theorem convertible_toJson (item : PresetItem) : Convertible item.toJson := by
  refine ⟨⟨item.name, item.expr, rfl, .object [("expr", item.expr)], rfl, rfl⟩, fun value h => ?_⟩
  rw [truthy?_createdAt_toJson] at h
  split at h
  · cases h
  · cases h
    exact ⟨_, rfl⟩

/-- What is read of the entry of a preset. -/
theorem rereads_of_decodes (h : Decodes w item.toJson again) : item.Rereads again := by
  obtain ⟨formula, hformula, hexpr⟩ := h.fields.expr
  cases hformula
  refine ⟨(Option.some.inj h.fields.name).symm, (Option.some.inj hexpr).symm, fun hid => ?_,
    fun htime => ?_⟩
  · have hfound := h.id
    rw [truthy?_id_toJson, if_pos hid] at hfound
    rcases hfound with hfound | ⟨hnone, _⟩
    · exact (Option.some.inj hfound).symm
    · cases hnone
  · have hfound := h.time
    rw [truthy?_createdAt_toJson, if_neg htime] at hfound
    rcases hfound with ⟨value, hvalue, hfound⟩ | ⟨hnone, _⟩
    · cases hvalue
      exact (Except.ok.inj hfound).symm
    · cases hnone

/-- A preset whose identifier counts as true and whose time is not zero stays as it is. -/
theorem Rereads.eq (h : item.Rereads again) (hid : item.id.isTruthy = true)
    (htime : item.createdAt ≠ 0) : again = item := by
  obtain ⟨name, expr, id, time⟩ := item
  obtain ⟨name', expr', id', time'⟩ := again
  obtain ⟨hname, hexpr, hid', htime'⟩ := h
  cases hname
  cases hexpr
  cases hid' hid
  cases htime' htime
  rfl

end PresetItem

namespace PresetDocument

variable {items : List PresetItem}

/-- The document of presets that are exact is one of presets. -/
theorem sound_write (h : ∀ item ∈ items, item.Exact) :
    Sound (write items).shown (items.map PresetItem.toJson) := by
  refine ⟨⟨toJson items, .int version, json_write h, rfl, rfl, rfl⟩, fun entry hentry => ?_⟩
  obtain ⟨item, _, rfl⟩ := List.mem_map.mp hentry
  exact item.convertible_toJson

end PresetDocument

namespace PresetStore

variable {store : PresetStore} {w : Workspace} {items : List PresetItem}

/-- Loading the document of presets gives each of them as its entry is read. -/
theorem load_of_hasDocument (hclock : w.Timed) (hfile : store.HasDocument w items)
    (hreadable : ∀ item ∈ items, item.Readable) :
    ∃ again v, store.load w = .ok again v ∧ List.Forall₂ PresetItem.Rereads items again ∧
      (∀ item ∈ again, item.Exact) ∧ v.files = w.files := by
  have hsound := PresetDocument.sound_write (hfile.exact hreadable)
  obtain ⟨again, v, hload, hall, hfiles⟩ := load_of_sound (hfile.readText hreadable)
    (PresetDocument.blank_write items) hsound
  have hagain := PresetItem.readable_of_forall₂_decodes hclock hsound.1.readable hall
  rw [List.forall₂_map_left_iff] at hall
  refine ⟨again, v, hload, hall.imp fun _ _ h => PresetItem.rereads_of_decodes h,
    fun other hother => (hagain other hother).exact ?_, hfiles⟩
  obtain ⟨item, hitem, hdecodes⟩ := exists_of_forall₂ hall hother
  refine PresetItem.isWhole_of_decodes ?_ hdecodes
  rw [PresetItem.isWhole_toJson]
  exact List.all_eq_true.mp hfile.isWhole item hitem

end PresetStore

end LayerBlend
