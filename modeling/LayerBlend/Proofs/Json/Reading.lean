import LayerBlend.Proofs.Json.RoundTrip

/-!
# Documents that are read

* `Json.Readable document` — the integers of the document may be read, and no object holds a name
  twice.
* `Json.distinct_spec` — the fields that are kept of an object have different names.
* `Json.Reader.readable_of_fuel`, `Json.readable_of_read` — so it is with each value that is read,
  and with each document.
* `Json.exact_of_readable` — where no text has half of a character besides, what is written of the
  document is read back as the same.
-/

namespace LayerBlend.Json

/-- The integers of a document may be read, and no object holds a name twice. -/
inductive Readable : Json → Prop
  /-- No value. -/
  | null : Readable .null
  /-- A truth value. -/
  | bool (b : Bool) : Readable (.bool b)
  /-- An integer that has no more digits than may be read. -/
  | int {n : Int} : n.natAbs < 10 ^ Text.maxDigits → Readable (.int n)
  /-- A double. -/
  | double (x : Float) : Readable (.double x)
  /-- A text. -/
  | text (t : JsonText) : Readable (.text t)
  /-- A list of such values. -/
  | list {items : List Json} : (∀ item ∈ items, Readable item) → Readable (.list items)
  /-- Such values with different names. -/
  | object {fields : List (JsonText × Json)} : (fields.map Prod.fst).Nodup →
      (∀ field ∈ fields, Readable field.2) → Readable (.object fields)

/-- An exact document is readable. -/
theorem Exact.readable {document : Json} (h : Exact document) : Readable document := by
  induction h with
  | null => exact .null
  | bool b => exact .bool b
  | int hn => exact .int hn
  | double x => exact .double x
  | text s => exact .text s
  | list _ ih => exact .list ih
  | object hnames _ _ ih => exact .object hnames ih

/-- A readable document without halves of characters is exact. -/
theorem exact_of_readable {document : Json} (h : Readable document)
    (hwhole : document.isWhole = true) : Exact document := by
  induction h with
  | null => exact .null
  | bool b => exact .bool b
  | int hn => exact .int hn
  | double x => exact .double x
  | text t =>
    rw [isWhole_text] at hwhole
    rw [JsonText.eq_whole hwhole]
    exact .text _
  | list _ ih =>
    rw [isWhole_list, List.all_eq_true] at hwhole
    exact .list fun item hitem => ih item hitem (hwhole item hitem)
  | object hnames _ ih =>
    rw [isWhole_object, List.all_eq_true] at hwhole
    simp only [Bool.and_eq_true] at hwhole
    exact .object hnames (fun field hfield => (hwhole field hfield).1)
      fun field hfield => ih field hfield (hwhole field hfield).2

/-! ## Fields -/

section

variable {fields : List (JsonText × Json)} {name : JsonText} {document : Json}

/-- A field that is added or replaced keeps the names in front, and adds its own at most once. -/
theorem map_fst_insert (fields : List (JsonText × Json)) (name : JsonText) (document : Json) :
    (insert fields name document).map Prod.fst =
      if name ∈ fields.map Prod.fst then fields.map Prod.fst
      else fields.map Prod.fst ++ [name] := by
  by_cases h : name ∈ fields.map Prod.fst
  · have hany : fields.any (·.1 == name) = true := by
      obtain ⟨field, hfield, hname⟩ := List.mem_map.mp h
      exact List.any_eq_true.mpr ⟨field, hfield, beq_iff_eq.mpr hname⟩
    rw [if_pos h, insert, if_pos hany, List.map_map]
    refine List.map_congr_left fun field _ => ?_
    show (if field.1 == name then (name, document) else field).1 = field.1
    split
    · next heq => exact (beq_iff_eq.mp heq).symm
    · rfl
  · rw [if_neg h, Reader.insert_of_notMem h, List.map_append]
    rfl

/-- A field that is kept is the one that is added or was there. -/
theorem mem_insert {field : JsonText × Json} (h : field ∈ insert fields name document) :
    field = (name, document) ∨ field ∈ fields := by
  unfold insert at h
  split at h
  · obtain ⟨other, hother, rfl⟩ := List.mem_map.mp h
    by_cases hname : (other.1 == name) = true
    · exact Or.inl (if_pos hname)
    · rw [if_neg hname]
      exact Or.inr hother
  · rcases List.mem_append.mp h with h | h
    · exact Or.inr h
    · exact Or.inl (List.mem_singleton.mp h)

/-- The fields that are kept of an object are fields of it and have different names. -/
theorem distinct_spec (fields : List (JsonText × Json)) :
    ((distinct fields).map Prod.fst).Nodup ∧ ∀ field ∈ distinct fields, field ∈ fields := by
  -- the induction carries the fields that are kept so far
  have hfold : ∀ (kept : List (JsonText × Json)), (kept.map Prod.fst).Nodup →
      ((fields.foldl (fun kept field => insert kept field.1 field.2) kept).map Prod.fst).Nodup ∧
        ∀ field ∈ fields.foldl (fun kept field => insert kept field.1 field.2) kept,
          field ∈ kept ∨ field ∈ fields := by
    induction fields with
    | nil => exact fun kept h => ⟨h, fun field hfield => Or.inl hfield⟩
    | cons first fields ih =>
      intro kept hkept
      have hnodup : ((insert kept first.1 first.2).map Prod.fst).Nodup := by
        rw [map_fst_insert]
        split
        · exact hkept
        · next hnew => exact List.nodup_append.mpr ⟨hkept, List.nodup_singleton _, by
            rintro a ha b hb rfl
            exact hnew (List.mem_singleton.mp hb ▸ ha)⟩
      obtain ⟨hnames, hmem⟩ := ih _ hnodup
      refine ⟨hnames, fun field hfield => ?_⟩
      rcases hmem field hfield with h | h
      · rcases mem_insert h with rfl | h
        · exact Or.inr List.mem_cons_self
        · exact Or.inl h
      · exact Or.inr (List.mem_cons_of_mem _ h)
  obtain ⟨hnames, hmem⟩ := hfold [] List.nodup_nil
  exact ⟨hnames, fun field hfield => (hmem field hfield).resolve_left List.not_mem_nil⟩

end

namespace Reader

/-! ## Numbers -/

/-- Digits that are read are below ten. -/
theorem lt_ten_of_digits {s rest : List Char} {found : List ℕ} (h : digits s = (found, rest)) :
    ∀ d ∈ found, d < 10 := by
  intro d hd
  rw [digits, Prod.mk.injEq] at h
  rw [← h.1] at hd
  obtain ⟨c, hc, rfl⟩ := List.mem_map.mp hd
  have hdigit := List.all_eq_true.mp List.all_takeWhile c hc
  simp only [Char.isDigit, Bool.and_eq_true, decide_eq_true_eq] at hdigit
  have hle : c.toNat ≤ '9'.toNat := hdigit.2
  show c.toNat - 48 < 10
  have hnine : '9'.toNat = 57 := rfl
  omega

theorem lt_ten_of_whole? {s rest : List Char} {found : List ℕ} (h : whole? s = some (found, rest)) :
    ∀ d ∈ found, d < 10 := by
  unfold whole? at h
  split at h
  · cases h
    simp
  · split at h
    · cases h
    · exact lt_ten_of_digits (Option.some.inj h)

/-- Digits say less than the power of ten of their number. -/
theorem ofDigits_lt {digits : List ℕ} (h : ∀ d ∈ digits, d < 10) :
    Text.ofDigits digits < 10 ^ digits.length := by
  have hreverse := Text.Radix.ofDigits_reverse digits.reverse
  rw [List.reverse_reverse] at hreverse
  rw [hreverse, ← List.length_reverse]
  exact Nat.ofDigits_lt_base_pow_length (by decide) fun d hd => h d (List.mem_reverse.mp hd)

/-- A number that is read is a double, or an integer that may be read. -/
theorem readable_of_number? {negative : Bool} {s rest : List Char} {document : Json}
    (h : number? negative s = some (document, rest)) : Readable document := by
  unfold number? at h
  simp only [Option.bind_eq_bind, Option.bind_eq_some_iff] at h
  obtain ⟨⟨whole, tail⟩, hwhole, h⟩ := h
  split at h
  · split at h
    · cases h
    · next hfew =>
      cases h
      refine .int ?_
      calc (if negative = true then -(Text.ofDigits whole : ℤ) else Text.ofDigits whole).natAbs =
            Text.ofDigits whole := by
            split
            · rw [Int.natAbs_neg, Int.natAbs_natCast]
            · rw [Int.natAbs_natCast]
        _ < 10 ^ whole.length := ofDigits_lt (lt_ten_of_whole? hwhole)
        _ ≤ 10 ^ Text.maxDigits := Nat.pow_le_pow_right (by decide) (not_lt.mp hfew)
  · cases h
    exact .double _

/-- A constant or a number that is read is readable. -/
theorem readable_of_scalar? {s rest : List Char} {document : Json}
    (h : scalar? s = some (document, rest)) : Readable document := by
  have hword : ∀ {word s : List Char} {constant : Json}, Readable constant →
      (word? word s).map (constant, ·) = some (document, rest) → Readable document := by
    intro word s constant hconstant hread
    obtain ⟨_, _, heq⟩ := Option.map_eq_some_iff.mp hread
    cases heq
    exact hconstant
  unfold scalar? at h
  split at h
  · exact hword .null h
  · exact hword (.bool true) h
  · exact hword (.bool false) h
  · exact hword (.double _) h
  · exact hword (.double _) h
  · exact hword (.double _) h
  · exact readable_of_number? h
  · exact readable_of_number? h

/-! ## Values -/

section

variable {fuel : ℕ} {s rest : List Char}

/-- A value is readable when all items and all fields that are read inside are. -/
theorem readable_of_value? {document : Json}
    (hitems : ∀ {s rest items}, items? fuel s = some (items, rest) → ∀ item ∈ items, Readable item)
    (hfields : ∀ {s rest fields}, fields? fuel s = some (fields, rest) →
      ∀ field ∈ fields, Readable field.2)
    (h : value? (fuel + 1) s = some (document, rest)) : Readable document := by
  rw [value?.eq_def] at h
  split at h
  · cases h
  · obtain ⟨_, _, heq⟩ := Option.map_eq_some_iff.mp h
    cases heq
    exact .text _
  · next heq =>
    cases heq
    split at h
    · cases h
      exact .list fun item hitem => absurd hitem List.not_mem_nil
    · obtain ⟨_, hread, heq⟩ := Option.map_eq_some_iff.mp h
      cases heq
      exact .list (hitems hread)
  · next heq =>
    cases heq
    split at h
    · cases h
      exact .object List.nodup_nil fun field hfield => absurd hfield List.not_mem_nil
    · obtain ⟨_, hread, heq⟩ := Option.map_eq_some_iff.mp h
      cases heq
      obtain ⟨hnames, hmem⟩ := distinct_spec _
      exact .object hnames fun field hfield => hfields hread field (hmem field hfield)
  · exact readable_of_scalar? h

/-- Items are readable when the first one and those behind it are. -/
theorem readable_of_items? {items : List Json}
    (hvalue : ∀ {s rest document}, value? fuel s = some (document, rest) → Readable document)
    (hitems : ∀ {s rest items}, items? fuel s = some (items, rest) → ∀ item ∈ items, Readable item)
    (h : items? (fuel + 1) s = some (items, rest)) : ∀ item ∈ items, Readable item := by
  rw [items?] at h
  simp only [Option.bind_eq_bind, Option.bind_eq_some_iff] at h
  obtain ⟨⟨item, tail⟩, hitem, h⟩ := h
  split at h
  · cases h
    simpa using hvalue hitem
  · simp only [Option.bind_eq_some_iff] at h
    obtain ⟨⟨others, _⟩, hothers, h⟩ := h
    cases h
    exact List.forall_mem_cons.mpr ⟨hvalue hitem, hitems hothers⟩
  · cases h

/-- Fields are readable when the first one and those behind it are. -/
theorem readable_of_fields? {fields : List (JsonText × Json)}
    (hvalue : ∀ {s rest document}, value? fuel s = some (document, rest) → Readable document)
    (hfields : ∀ {s rest fields}, fields? fuel s = some (fields, rest) →
      ∀ field ∈ fields, Readable field.2)
    (h : fields? (fuel + 1) s = some (fields, rest)) : ∀ field ∈ fields, Readable field.2 := by
  rw [fields?.eq_def] at h
  dsimp only at h
  split at h
  · simp only [Option.bind_eq_bind, Option.bind_eq_some_iff] at h
    obtain ⟨⟨name, tail⟩, hname, h⟩ := h
    split at h
    · simp only [Option.bind_eq_some_iff] at h
      obtain ⟨⟨document, tail⟩, hdocument, h⟩ := h
      split at h
      · cases h
        simpa using hvalue hdocument
      · simp only [Option.bind_eq_some_iff] at h
        obtain ⟨⟨others, _⟩, hothers, h⟩ := h
        cases h
        exact List.forall_mem_cons.mpr ⟨hvalue hdocument, hfields hothers⟩
      · cases h
    · cases h
  · cases h

end

/-- Each value, each item and each field that is read is readable. -/
theorem readable_of_fuel (fuel : ℕ) :
    (∀ {s rest document}, value? fuel s = some (document, rest) → Readable document) ∧
      (∀ {s rest items}, items? fuel s = some (items, rest) → ∀ item ∈ items, Readable item) ∧
      ∀ {s rest fields}, fields? fuel s = some (fields, rest) →
        ∀ field ∈ fields, Readable field.2 := by
  induction fuel with
  | zero =>
    refine ⟨fun h => ?_, fun h => ?_, fun h => ?_⟩
    all_goals cases h
  | succ fuel ih =>
    obtain ⟨hvalue, hitems, hfields⟩ := ih
    exact ⟨readable_of_value? hitems hfields, readable_of_items? hvalue hitems,
      readable_of_fields? hvalue hfields⟩

end Reader

/-- A document that is read is readable. -/
theorem readable_of_read {s : String} {document : Json} (h : read s = some document) :
    Readable document := by
  unfold read at h
  simp only [Option.bind_eq_bind, Option.bind_eq_some_iff] at h
  obtain ⟨⟨value, rest⟩, hvalue, h⟩ := h
  split at h
  · cases h
    exact (Reader.readable_of_fuel _).1 hvalue
  · cases h

end LayerBlend.Json
