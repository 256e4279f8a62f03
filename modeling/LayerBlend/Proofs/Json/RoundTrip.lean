import LayerBlend.Proofs.Json.Doubles

/-!
# Documents that are written are read back

* `Json.Exact document` — the integers of the document may be read, no object holds a name twice,
  and no text has half of a character.
* `Json.Reader.value?_write` — every exact value is read back, wherever it stands in a document.
* `Json.read_write` — reading undoes writing on exact documents.
-/

namespace LayerBlend.Json

open Text.Radix (isNumeral_write)

/-- The integers of a document may be read, no object holds a name twice, and no text has half of a
character. -/
inductive Exact : Json → Prop
  /-- No value. -/
  | null : Exact .null
  /-- A truth value. -/
  | bool (b : Bool) : Exact (.bool b)
  /-- An integer that has no more digits than may be read. -/
  | int {n : Int} : n.natAbs < 10 ^ Text.maxDigits → Exact (.int n)
  /-- A double. -/
  | double (x : Float) : Exact (.double x)
  /-- A text of whole characters. -/
  | text (s : String) : Exact (.text s)
  /-- A list of such values. -/
  | list {items : List Json} : (∀ item ∈ items, Exact item) → Exact (.list items)
  /-- Such values with different names, which are texts of whole characters. -/
  | object {fields : List (JsonText × Json)} : (fields.map Prod.fst).Nodup →
      (∀ field ∈ fields, field.1.isWhole = true) → (∀ field ∈ fields, Exact field.2) →
      Exact (.object fields)

namespace Reader

/-! ## Lines -/

/-- The blanks in front of a line are skipped. -/
theorem skipSpaces_newLine (depth : Nat) (s : List Char) :
    skipSpaces (Writer.newLine depth ++ s) = skipSpaces s := by
  have hblank : ∀ c ∈ Writer.newLine depth, isSpace c = true := by
    intro c hc
    rcases List.mem_cons.mp hc with rfl | hc
    · rfl
    · rw [List.eq_of_mem_replicate hc]
      rfl
  rw [skipSpaces, List.dropWhile_append_of_pos hblank, skipSpaces]

/-- What is no blank is not skipped. -/
theorem skipSpaces_cons {c : Char} (hc : isSpace c = false) (s : List Char) :
    skipSpaces (c :: s) = c :: s := by
  rw [skipSpaces, List.dropWhile_cons, hc]
  rfl

theorem follows_newLine (depth : Nat) (s : List Char) : Follows (Writer.newLine depth ++ s) := by
  intro c hc
  cases hc
  exact Or.inr rfl

/-- Behind an item stands a comma or the end of the line. -/
theorem follows_moreItems (depth outer : Nat) (items : List Json) (s : List Char) :
    Follows (Writer.moreItems depth items ++ (Writer.newLine outer ++ s)) := by
  cases items with
  | nil => exact follows_newLine outer s
  | cons item items =>
    intro c hc
    cases hc
    exact Or.inl rfl

/-- Behind a field stands a comma or the end of the line. -/
theorem follows_moreFields (depth outer : Nat) (fields : List (JsonText × Json)) (s : List Char) :
    Follows (Writer.moreFields depth fields ++ (Writer.newLine outer ++ s)) := by
  cases fields with
  | nil => exact follows_newLine outer s
  | cons field fields =>
    intro c hc
    cases hc
    exact Or.inl rfl

/-- What starts a number is neither a blank nor a mark. -/
theorem first_number {c : Char} (h : c = 'N' ∨ c = 'I' ∨ c = '-' ∨ c.isDigit = true) :
    isSpace c = false ∧ c ≠ ']' ∧ c ≠ '"' ∧ c ≠ '[' ∧ c ≠ '{' := by
  rcases h with rfl | rfl | rfl | h
  · decide
  · decide
  · decide
  · refine ⟨?_, ne_of_isDigit h rfl, ne_of_isDigit h rfl, ne_of_isDigit h rfl, ne_of_isDigit h rfl⟩
    simp only [isSpace, Bool.or_eq_false_iff, beq_eq_false_iff_ne]
    exact ⟨⟨⟨ne_of_isDigit h rfl, ne_of_isDigit h rfl⟩, ne_of_isDigit h rfl⟩, ne_of_isDigit h rfl⟩

/-- A value that is written starts with a character that is neither a blank nor a closing mark. -/
theorem exists_first {document : Json} (h : Exact document) (depth : Nat) :
    ∃ c s, Writer.value depth document = c :: s ∧ isSpace c = false ∧ c ≠ ']' := by
  cases h with
  | null => exact ⟨_, _, rfl, rfl, by decide⟩
  | bool b => cases b <;> exact ⟨_, _, rfl, rfl, by decide⟩
  | text s => exact ⟨_, _, rfl, rfl, by decide⟩
  | @list items _ => cases items <;> exact ⟨_, _, rfl, rfl, by decide⟩
  | @object fields _ _ _ =>
    cases fields with
    | nil => exact ⟨_, _, rfl, rfl, by decide⟩
    | cons field fields => exact ⟨_, _, rfl, rfl, by decide⟩
  | @int n _ =>
    obtain ⟨c, s, hfirst, hc⟩ := exists_first_int n
    have hmark := first_number (Or.inr (Or.inr hc))
    exact ⟨c, s, hfirst, hmark.1, hmark.2.1⟩
  | double x =>
    obtain ⟨c, s, hfirst, hc⟩ := exists_first_double x
    exact ⟨c, s, hfirst, (first_number hc).1, (first_number hc).2.1⟩

/-- A value that is written is not skipped. -/
theorem skipSpaces_value {document : Json} (h : Exact document) (depth : Nat) (s : List Char) :
    skipSpaces (Writer.value depth document ++ s) = Writer.value depth document ++ s := by
  obtain ⟨c, v, hfirst, hspace, _⟩ := exists_first h depth
  rw [hfirst]
  exact skipSpaces_cons hspace (v ++ s)

/-- Fuel for each character of a value is fuel for one step. -/
theorem exists_fuel {document : Json} (h : Exact document) {depth fuel : Nat}
    (hfuel : (Writer.value depth document).length ≤ fuel) : ∃ f, fuel = f + 1 := by
  obtain ⟨c, s, hfirst, _⟩ := exists_first h depth
  rw [hfirst, List.length_cons] at hfuel
  exact ⟨fuel - 1, by omega⟩

/-! ## Values -/

/-- A value is read back wherever it is written, when there is fuel for each of its characters. -/
def ReadsBack (document : Json) : Prop :=
  ∀ depth fuel rest, (Writer.value depth document).length ≤ fuel → Follows rest →
    value? fuel (Writer.value depth document ++ rest) = some (document, rest)

/-- What is neither a text, a list nor an object is read as a constant or a number. -/
theorem value?_scalar {c : Char} (hquote : c ≠ '"') (hbracket : c ≠ '[') (hbrace : c ≠ '{')
    (fuel : Nat) (s : List Char) : value? (fuel + 1) (c :: s) = scalar? (c :: s) := by
  rw [value?.eq_def]
  split
  · next heq => cases heq
  · next heq => exact absurd (List.cons.inj heq).1 hquote
  · next heq => exact absurd (List.cons.inj heq).1 hbracket
  · next heq => exact absurd (List.cons.inj heq).1 hbrace
  · rfl

/-- What is read of the first item of a list, up to what follows it. -/
theorem items?_item {item : Json} {depth fuel : Nat} {tail : List Char} (hitem : ReadsBack item)
    (hfuel : (Writer.value depth item).length ≤ fuel) (hfollows : Follows tail) :
    items? (fuel + 1) (Writer.value depth item ++ tail) =
      match skipSpaces tail with
      | ']' :: rest => some ([item], rest)
      | ',' :: rest => do
        let (items, rest) ← items? fuel (skipSpaces rest)
        some (item :: items, rest)
      | _ => none := by
  rw [items?, hitem depth fuel tail hfuel hfollows]
  rfl

/-- The items of a list that are written on lines of their own are read back with the closing
bracket. -/
theorem items?_write {items : List Json} :
    ∀ (item : Json) (depth outer fuel : Nat) (rest : List Char), ReadsBack item →
      (∀ other ∈ items, ReadsBack other ∧ Exact other) →
      (Writer.value depth item).length + (Writer.moreItems depth items).length < fuel →
      items? fuel (Writer.value depth item ++ (Writer.moreItems depth items ++
        (Writer.newLine outer ++ ']' :: rest))) = some (item :: items, rest) := by
  induction items with
  | nil =>
    intro item depth outer fuel rest hitem _ hfuel
    obtain ⟨fuel, rfl⟩ : ∃ f, fuel = f + 1 := ⟨fuel - 1, by omega⟩
    rw [items?_item hitem (by omega) (follows_moreItems depth outer [] _), Writer.moreItems,
      List.nil_append, skipSpaces_newLine, skipSpaces_cons rfl]
    rfl
  | cons next items ih =>
    intro item depth outer fuel rest hitem hitems hfuel
    rw [List.forall_mem_cons] at hitems
    simp only [Writer.moreItems, List.length_append, List.length_cons] at hfuel
    obtain ⟨fuel, rfl⟩ : ∃ f, fuel = f + 1 := ⟨fuel - 1, by omega⟩
    have hnext := ih next depth outer fuel rest hitems.1.1 hitems.2 (by omega)
    have hmore : Writer.moreItems depth (next :: items) ++ (Writer.newLine outer ++ ']' :: rest) =
        ',' :: (Writer.newLine depth ++ (Writer.value depth next ++ (Writer.moreItems depth items ++
          (Writer.newLine outer ++ ']' :: rest)))) := by
      simp only [Writer.moreItems, List.cons_append, List.append_assoc]
    rw [items?_item hitem (by omega) (follows_moreItems depth outer _ _), hmore,
      skipSpaces_cons rfl]
    simp only [skipSpaces_newLine, skipSpaces_value hitems.1.2, hnext]
    rfl

section Fields

variable {name : JsonText} {document : Json} {depth fuel : Nat} {tail rest : List Char}

/-- A field that is written, with what follows it. -/
def fieldText (depth : Nat) (name : JsonText) (document : Json) (tail : List Char) : List Char :=
  Writer.text name.shown.toList ++ (':' :: ' ' :: (Writer.value depth document ++ tail))

/-- A field that is written is not skipped. -/
theorem skipSpaces_fieldText :
    skipSpaces (fieldText depth name document tail) = fieldText depth name document tail :=
  skipSpaces_cons rfl _

/-- What is read of the first field of an object, up to what follows it. -/
theorem fields?_fieldText (hname : name.isWhole = true) (hvalue : ReadsBack document)
    (hexact : Exact document)
    (hfuel : (Writer.value depth document).length ≤ fuel) (hfollows : Follows tail) :
    fields? (fuel + 1) (fieldText depth name document tail) =
      match skipSpaces tail with
      | '}' :: rest => some ([(name, document)], rest)
      | ',' :: rest => do
        let (fields, rest) ← fields? fuel (skipSpaces rest)
        some ((name, document) :: fields, rest)
      | _ => none := by
  have hcolon : ∀ s, skipSpaces (':' :: s) = ':' :: s := skipSpaces_cons rfl
  have hspace : ∀ s, skipSpaces (' ' :: s) = skipSpaces s := fun s => rfl
  simp only [fieldText, Writer.text, List.cons_append, List.append_assoc, List.nil_append]
  rw [fields?, text?_escape, ← JsonText.eq_whole hname]
  simp only [Option.bind_eq_bind, Option.bind_some, hcolon, hspace, skipSpaces_value hexact,
    hvalue depth fuel tail hfuel hfollows]
  rfl

/-- The fields of an object that are written on lines of their own are read back with the closing
brace. -/
theorem fields?_write {fields : List (JsonText × Json)} :
    ∀ (name : JsonText) (document : Json) (depth outer fuel : Nat) (rest : List Char),
      name.isWhole = true → ReadsBack document → Exact document →
      (∀ other ∈ fields, other.1.isWhole = true ∧ ReadsBack other.2 ∧ Exact other.2) →
      (Writer.value depth document).length + (Writer.moreFields depth fields).length < fuel →
      fields? fuel (fieldText depth name document (Writer.moreFields depth fields ++
        (Writer.newLine outer ++ '}' :: rest))) = some ((name, document) :: fields, rest) := by
  induction fields with
  | nil =>
    intro name document depth outer fuel rest hname hvalue hexact _ hfuel
    obtain ⟨fuel, rfl⟩ : ∃ f, fuel = f + 1 := ⟨fuel - 1, by omega⟩
    rw [fields?_fieldText hname hvalue hexact (by omega) (follows_moreFields depth outer [] _),
      Writer.moreFields, List.nil_append, skipSpaces_newLine, skipSpaces_cons rfl]
    rfl
  | cons next fields ih =>
    intro name document depth outer fuel rest hname hvalue hexact hfields hfuel
    obtain ⟨nextName, nextDocument⟩ := next
    rw [List.forall_mem_cons] at hfields
    simp only [Writer.moreFields, List.length_append, List.length_cons] at hfuel
    obtain ⟨fuel, rfl⟩ : ∃ f, fuel = f + 1 := ⟨fuel - 1, by omega⟩
    have hnext := ih nextName nextDocument depth outer fuel rest hfields.1.1 hfields.1.2.1
      hfields.1.2.2 hfields.2 (by omega)
    have hmore : Writer.moreFields depth ((nextName, nextDocument) :: fields) ++
        (Writer.newLine outer ++ '}' :: rest) = ',' :: (Writer.newLine depth ++
          fieldText depth nextName nextDocument (Writer.moreFields depth fields ++
            (Writer.newLine outer ++ '}' :: rest))) := by
      simp only [Writer.moreFields, fieldText, List.cons_append, List.append_assoc, List.nil_append]
    rw [fields?_fieldText hname hvalue hexact (by omega) (follows_moreFields depth outer _ _),
      hmore, skipSpaces_cons rfl]
    simp only [skipSpaces_newLine, skipSpaces_fieldText, hnext]
    rfl

end Fields

/-- A field with a name of its own is added at the end. -/
theorem insert_of_notMem {fields : List (JsonText × Json)} {name : JsonText}
    (h : name ∉ fields.map Prod.fst) (document : Json) :
    insert fields name document = fields ++ [(name, document)] := by
  have hany : fields.any (·.1 == name) = false := by
    rw [List.any_eq_false]
    rintro field hfield hname
    exact h (List.mem_map.mpr ⟨field, hfield, beq_iff_eq.mp hname⟩)
  rw [insert, hany]
  rfl

/-- Fields with different names stay as they are. -/
theorem distinct_of_nodup {fields : List (JsonText × Json)} (h : (fields.map Prod.fst).Nodup) :
    distinct fields = fields := by
  -- the induction carries the fields that are kept so far
  have hfold : ∀ kept : List (JsonText × Json), ((kept ++ fields).map Prod.fst).Nodup →
      fields.foldl (fun kept field => insert kept field.1 field.2) kept = kept ++ fields := by
    clear h
    induction fields with
    | nil => exact fun kept _ => (List.append_nil kept).symm
    | cons field fields ih =>
      intro kept h
      have hnew : field.1 ∉ kept.map Prod.fst := by
        rw [List.map_append, List.nodup_append] at h
        exact fun hmem => h.2.2 _ hmem _ List.mem_cons_self rfl
      rw [List.foldl_cons, insert_of_notMem hnew, ih, List.append_assoc]
      · rfl
      · rwa [List.append_assoc]
  exact hfold [] h

/-- A list with items is read item by item. -/
theorem value?_bracket {s t : List Char} {c : Char} (hs : skipSpaces s = c :: t) (hc : c ≠ ']')
    (fuel : Nat) :
    value? (fuel + 1) ('[' :: s) =
      (items? fuel (c :: t)).map fun (items, rest) => (.list items, rest) := by
  rw [value?, hs]
  split
  · next heq => exact absurd (List.cons.inj heq).1 hc
  · rfl

/-- An object with fields is read field by field. -/
theorem value?_brace {s t : List Char} {c : Char} (hs : skipSpaces s = c :: t) (hc : c ≠ '}')
    (fuel : Nat) :
    value? (fuel + 1) ('{' :: s) =
      (fields? fuel (c :: t)).map fun (fields, rest) => (.object (distinct fields), rest) := by
  rw [value?, hs]
  split
  · next heq => exact absurd (List.cons.inj heq).1 hc
  · rfl

/-- A list of values that are read back is read back. -/
theorem readsBack_list {items : List Json} (hexact : ∀ item ∈ items, Exact item)
    (hitems : ∀ item ∈ items, ReadsBack item) : ReadsBack (.list items) := by
  intro depth fuel rest hfuel _
  obtain ⟨fuel, rfl⟩ := exists_fuel (.list hexact) hfuel
  cases items with
  | nil => rfl
  | cons item items =>
    rw [List.forall_mem_cons] at hexact hitems
    have hother := fun other hmem => And.intro (hitems.2 other hmem) (hexact.2 other hmem)
    simp only [Writer.value, List.length_append, List.length_cons] at hfuel
    have hread := items?_write item (depth + 1) depth fuel rest hitems.1 hother (by omega)
    obtain ⟨c, v, hfirst, hspace, hc⟩ := exists_first hexact.1 (depth + 1)
    simp only [Writer.value, List.cons_append, List.append_assoc, List.nil_append]
    rw [hfirst, List.cons_append] at hread ⊢
    rw [value?_bracket ((skipSpaces_newLine _ _).trans (skipSpaces_cons hspace _)) hc, hread]
    rfl

/-- An object whose values are read back is read back. -/
theorem readsBack_object {fields : List (JsonText × Json)} (hnames : (fields.map Prod.fst).Nodup)
    (hwhole : ∀ field ∈ fields, field.1.isWhole = true) (hexact : ∀ field ∈ fields, Exact field.2)
    (hfields : ∀ field ∈ fields, ReadsBack field.2) : ReadsBack (.object fields) := by
  intro depth fuel rest hfuel _
  obtain ⟨fuel, rfl⟩ := exists_fuel (.object hnames hwhole hexact) hfuel
  cases fields with
  | nil => rfl
  | cons field fields =>
    obtain ⟨name, document⟩ := field
    rw [List.forall_mem_cons] at hwhole hexact hfields
    have hother := fun other hmem => And.intro (hwhole.2 other hmem)
      (And.intro (hfields.2 other hmem) (hexact.2 other hmem))
    simp only [Writer.value, List.length_append, List.length_cons] at hfuel
    have hread := fields?_write name document (depth + 1) depth fuel rest hwhole.1 hfields.1
      hexact.1 hother (by omega)
    have hwritten : Writer.value depth (.object ((name, document) :: fields)) ++ rest =
        '{' :: (Writer.newLine (depth + 1) ++ fieldText (depth + 1) name document
          (Writer.moreFields (depth + 1) fields ++ (Writer.newLine depth ++ '}' :: rest))) := by
      simp only [Writer.value, fieldText, List.cons_append, List.append_assoc, List.nil_append]
    rw [hwritten, value?_brace ((skipSpaces_newLine _ _).trans skipSpaces_fieldText) (by decide)]
    refine (congrArg _ hread).trans ?_
    simp only [Option.map_some, distinct_of_nodup hnames]

/-- Every exact value is read back wherever it is written. -/
theorem value?_write {document : Json} (h : Exact document) : ReadsBack document := by
  induction h with
  | list hexact ih => exact readsBack_list hexact ih
  | object hnames hwhole hexact ih => exact readsBack_object hnames hwhole hexact ih
  | null =>
    intro depth fuel rest hfuel _
    obtain ⟨fuel, rfl⟩ := exists_fuel .null hfuel
    rfl
  | bool b =>
    intro depth fuel rest hfuel _
    obtain ⟨fuel, rfl⟩ := exists_fuel (.bool b) hfuel
    cases b <;> rfl
  | text s =>
    intro depth fuel rest hfuel _
    obtain ⟨fuel, rfl⟩ := exists_fuel (.text s) hfuel
    simp only [Writer.value, Writer.text, List.cons_append, List.append_assoc, List.nil_append]
    rw [value?, text?_escape]
    rfl
  | @int n hn =>
    intro depth fuel rest hfuel hrest
    obtain ⟨fuel, rfl⟩ := exists_fuel (.int hn) hfuel
    have hread := scalar?_writeInt hn hrest
    obtain ⟨c, s, hfirst, hc⟩ := exists_first_int n
    obtain ⟨_, _, hquote, hbracket, hbrace⟩ := first_number (Or.inr (Or.inr hc))
    rw [Writer.value]
    rw [hfirst, List.cons_append] at hread ⊢
    rw [value?_scalar hquote hbracket hbrace, hread]
  | double x =>
    intro depth fuel rest hfuel hrest
    obtain ⟨fuel, rfl⟩ := exists_fuel (.double x) hfuel
    have hread := scalar?_writeDouble x hrest
    obtain ⟨c, s, hfirst, hc⟩ := exists_first_double x
    obtain ⟨_, _, hquote, hbracket, hbrace⟩ := first_number hc
    rw [Writer.value]
    rw [hfirst, List.cons_append] at hread ⊢
    rw [value?_scalar hquote hbracket hbrace, hread]

end Reader

namespace Writer

/-! ## Line ends -/

/-- A return is escaped. -/
theorem return_notMem_escape (c : Char) : '\r' ∉ escape c := by
  have hcontrol : ∀ n < 0x20, '\r' ∉ ['\\', 'u'] ++ Text.Radix.writePadded 16 4 n := by decide
  unfold escape
  split
  case h_8 _ _ _ hreturn _ _ _ =>
    split
    · next hc => exact hcontrol c.toNat hc
    · exact fun hmem => hreturn (List.mem_singleton.mp hmem).symm
  all_goals decide

theorem return_notMem_text (s : List Char) : '\r' ∉ text s := by
  simp only [text, List.mem_append, List.mem_cons, List.mem_flatMap, List.not_mem_nil,
    Char.reduceEq, false_or, or_false, not_exists, not_and]
  exact fun c _ => return_notMem_escape c

theorem return_notMem_newLine (depth : Nat) : '\r' ∉ newLine depth := by
  simp [newLine, List.mem_replicate]

theorem return_notMem_writeInt (n : Int) : '\r' ∉ Text.Radix.writeInt 10 n := by
  have hdigits : '\r' ∉ Text.Radix.write 10 n.natAbs := fun hmem =>
    Reader.ne_of_isDigit ((isNumeral_write n.natAbs).digits _ hmem) rfl rfl
  unfold Text.Radix.writeInt
  split
  · simpa using hdigits
  · exact hdigits

theorem return_notMem_moreItems {items : List Json} {depth : Nat}
    (h : ∀ item ∈ items, '\r' ∉ value depth item) : '\r' ∉ moreItems depth items := by
  induction items with
  | nil => exact List.not_mem_nil
  | cons item items ih =>
    rw [List.forall_mem_cons] at h
    simp [moreItems, return_notMem_newLine, h.1, ih h.2]

theorem return_notMem_moreFields {fields : List (JsonText × Json)} {depth : Nat}
    (h : ∀ field ∈ fields, '\r' ∉ value depth field.2) : '\r' ∉ moreFields depth fields := by
  induction fields with
  | nil => exact List.not_mem_nil
  | cons field fields ih =>
    obtain ⟨name, item⟩ := field
    rw [List.forall_mem_cons] at h
    simp [moreFields, return_notMem_newLine, return_notMem_text, h.1, ih h.2]

/-- A document that is written has newlines for its only line ends. -/
theorem return_notMem_value {document : Json} (h : Exact document) :
    ∀ depth, '\r' ∉ value depth document := by
  induction h with
  | null => simp [value]
  | bool b => cases b <;> simp [value]
  | int hn => exact fun _ => return_notMem_writeInt _
  | double x => exact fun _ => Reader.return_notMem_writeDouble x
  | text s => exact fun _ => return_notMem_text s.toList
  | @list items _ ih =>
    intro depth
    cases items with
    | nil => simp [value]
    | cons item items =>
      rw [List.forall_mem_cons] at ih
      have hmore := return_notMem_moreItems fun other hother => ih.2 other hother (depth + 1)
      simp [value, return_notMem_newLine, ih.1, hmore]
  | @object fields _ _ _ ih =>
    intro depth
    cases fields with
    | nil => simp [value]
    | cons field fields =>
      obtain ⟨name, item⟩ := field
      rw [List.forall_mem_cons] at ih
      have hmore := return_notMem_moreFields fun other hother => ih.2 other hother (depth + 1)
      simp [value, return_notMem_newLine, return_notMem_text, ih.1, hmore]

end Writer

/-- No text of an exact document has half of a character. -/
theorem Exact.isWhole {document : Json} (h : Exact document) : document.isWhole = true := by
  induction h with
  | null => rfl
  | bool b => rfl
  | int _ => rfl
  | double x => rfl
  | text s => exact isWhole_text s
  | list _ ih =>
    rw [isWhole_list]
    exact List.all_eq_true.mpr ih
  | object _ hwhole _ ih =>
    rw [isWhole_object]
    exact List.all_eq_true.mpr fun field hfield =>
      Bool.and_eq_true_iff.mpr ⟨hwhole field hfield, ih field hfield⟩

/-- Reading undoes writing: an exact document is written as a text, and it is read back from it. -/
theorem read_write {document : Json} (h : Exact document) :
    read document.write.shown = some document := by
  have hlength := Nat.le_refl (Writer.value 0 document).length
  have hread := Reader.value?_write h 0 (2 * (Writer.value 0 document).length + 2) [] (by omega)
    (fun _ hc => nomatch hc)
  have hskip := Reader.skipSpaces_value h 0 []
  rw [List.append_nil] at hread hskip
  rw [read, shown_write, String.toList_ofList, hskip, hread]
  rfl

end LayerBlend.Json
