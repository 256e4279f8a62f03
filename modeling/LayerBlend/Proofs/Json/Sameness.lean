import LayerBlend.Json.Equality
import LayerBlend.Proofs.Arithmetic.Parts
import LayerBlend.Proofs.Json.Reading

/-!
# Which values agree

* `Json.sameNumber_iff` — numbers agree as keys when they are the same number.
* `Json.sameKey_iff_of_isKey` — so keys agree when they are the same text, the same number, or no
  value both.
* `Json.sameKey_self`, `Json.same_self` — a value agrees with itself, unless it is a NaN.
-/

namespace LayerBlend.Json

/-- The text that a value is. -/
def text? : Json → Option JsonText
  | .text s => some s
  | _ => none

/-! ## Numbers -/

/-- A number that is not whole is a double other than zero. -/
theorem eq_double_of_number? {a : Json} {x : Float} (h : number? a = some (.other x)) :
    a = .double x ∧ ∀ negative e, Double.parts x ≠ .finite negative 0 e := by
  cases a with
  | double y =>
    have hy : y = x := by
      unfold number? at h
      dsimp only at h
      split at h
      · split at h
        · cases h
        · cases h
          rfl
      · cases h
        rfl
    subst hy
    refine ⟨rfl, fun negative e hzero => ?_⟩
    -- a zero is its own floor, and so a whole number
    have hfloor : Double.floor y = y := by simp [Double.floor, hzero]
    have htruncate : Double.truncate? y = some 0 := by simp [Double.truncate?, hzero]
    have hnan : Double.parts y ≠ .nan := by
      rw [hzero]
      exact fun h => nomatch h
    have hself : (y == y) = true := Double.beq_iff.mpr ⟨hnan, Or.inl rfl⟩
    rw [number?, htruncate, hfloor] at h
    dsimp only at h
    rw [if_pos hself] at h
    cases h
  | _ => cases h

/-- Numbers agree when they are the same. -/
theorem same_number? {a b : Json} {m n : Number} (ha : number? a = some m)
    (hb : number? b = some n) : m.same n = true ↔ m = n := by
  cases m with
  | whole k =>
    cases n <;> simp [Number.same]
  | other x =>
    cases n with
    | whole k => simp [Number.same]
    | other y =>
      obtain ⟨-, hx⟩ := eq_double_of_number? ha
      have hnan : x.isNaN = true ∧ y.isNaN = true → x = y := by
        rintro ⟨hxnan, hynan⟩
        rw [Double.parts_eq_nan.mp (Double.isNaN_iff.mp hxnan),
          Double.parts_eq_nan.mp (Double.isNaN_iff.mp hynan)]
      rw [Number.same, Bool.or_eq_true, Bool.and_eq_true, Double.beq_iff, Number.other.injEq]
      constructor
      · rintro (⟨_, heq | ⟨⟨negative, e, hzero⟩, _⟩⟩ | hboth)
        · exact heq
        · exact absurd hzero (hx negative e)
        · exact hnan hboth
      · rintro rfl
        by_cases hxnan : Double.parts x = .nan
        · exact Or.inr ⟨Double.isNaN_iff.mpr hxnan, Double.isNaN_iff.mpr hxnan⟩
        · exact Or.inl ⟨hxnan, Or.inl rfl⟩

/-- Values agree as numbers when they are the same number. -/
theorem sameNumber_iff {a b : Json} :
    sameNumber a b = true ↔ ∃ n, number? a = some n ∧ number? b = some n := by
  unfold sameNumber
  cases ha : number? a with
  | none => simp
  | some m =>
    cases hb : number? b with
    | none => simp
    | some n =>
      rw [same_number? ha hb]
      simp [eq_comm]

/-- Every double is a number. -/
theorem exists_number? (x : Float) : ∃ n, number? (.double x) = some n := by
  unfold number?
  dsimp only
  split <;> exact ⟨_, rfl⟩

/-! ## Keys -/

/-- A value that is no text agrees with one that is a number when both are the same number. -/
theorem sameNumber_iff_of_isSome {a b : Json} (ha : (number? a).isSome = true)
    (htext : a.text? = none) :
    sameNumber a b = true ↔ a.text? = b.text? ∧ a.number? = b.number? := by
  obtain ⟨n, hn⟩ := Option.isSome_iff_exists.mp ha
  rw [sameNumber_iff, hn, htext]
  constructor
  · rintro ⟨m, hm, hb⟩
    cases hm
    refine ⟨?_, hb.symm⟩
    cases b <;> first | rfl | cases hb
  · rintro ⟨_, hb⟩
    exact ⟨n, rfl, hb.symm⟩

/-- Keys agree when they are the same text, the same number, or no value both. -/
theorem sameKey_iff_of_isKey {a b : Json} (ha : a.isKey = true) (hb : b.isKey = true) :
    a.sameKey b = true ↔ a.text? = b.text? ∧ a.number? = b.number? := by
  cases a with
  | list => cases ha
  | object => cases ha
  | bool p =>
    rw [sameKey]
    exact sameNumber_iff_of_isSome rfl rfl
  | int k =>
    rw [sameKey]
    exact sameNumber_iff_of_isSome rfl rfl
  | double x =>
    obtain ⟨n, hn⟩ := exists_number? x
    rw [sameKey]
    exact sameNumber_iff_of_isSome (by rw [hn]; rfl) rfl
  | null =>
    cases b with
    | list => cases hb
    | object => cases hb
    | double x =>
      obtain ⟨n, hn⟩ := exists_number? x
      have hnull : number? .null = none := rfl
      simp [sameKey, hnull, hn]
    | _ => simp [sameKey, text?, number?]
  | text s =>
    cases b with
    | list => cases hb
    | object => cases hb
    | _ => simp [sameKey, text?, number?]

/-! ## Values -/

/-- The field of a name that stands once is found. -/
theorem find?_of_mem {fields : List (JsonText × Json)} (hnames : (fields.map Prod.fst).Nodup)
    {field : JsonText × Json} (hfield : field ∈ fields) : find? fields field.1 = some field.2 := by
  rw [find?, Option.map_eq_some_iff]
  cases hfound : fields.find? (·.1 == field.1) with
  | none =>
    have := List.find?_eq_none.mp hfound field hfield
    simp at this
  | some other =>
    have hname : other.1 = field.1 := by simpa using List.find?_some hfound
    have hsame := List.inj_on_of_nodup_map hnames (List.mem_of_find?_eq_some hfound) hfield hname
    exact ⟨other, rfl, congrArg Prod.snd hsame⟩

/-- A list of values that agree with themselves agrees with itself. -/
theorem sameItems_self {items : List Json} (h : ∀ item ∈ items, item.sameKey item = true) :
    sameItems items items = true := by
  induction items with
  | nil => rfl
  | cons item items ih =>
    rw [List.forall_mem_cons] at h
    rw [sameItems, h.1, ih h.2]
    rfl

/-- Fields agree with others among which they are found. -/
theorem sameFields_of_find? {fields other : List (JsonText × Json)}
    (hfound : ∀ field ∈ fields, find? other field.1 = some field.2)
    (h : ∀ field ∈ fields, field.2.sameKey field.2 = true) : sameFields fields other = true := by
  induction fields with
  | nil => rfl
  | cons field fields ih =>
    rw [List.forall_mem_cons] at hfound h
    obtain ⟨name, a⟩ := field
    rw [sameFields, hfound.1]
    dsimp only
    rw [h.1, ih hfound.2 h.2]
    rfl

/-- A value agrees with itself as a key. -/
theorem sameKey_self {a : Json} (h : a.Readable) : a.sameKey a = true := by
  have hnumber : ∀ {b : Json} {n : Number}, number? b = some n → sameNumber b b = true :=
    fun {b n} hn => sameNumber_iff.mpr ⟨n, hn, hn⟩
  induction h with
  | null => simp [sameKey]
  | bool p =>
    rw [sameKey]
    exact hnumber rfl
  | int =>
    rw [sameKey]
    exact hnumber rfl
  | double x =>
    obtain ⟨n, hn⟩ := exists_number? x
    rw [sameKey]
    exact hnumber hn
  | text s => simp [sameKey]
  | list _ ih =>
    rw [sameKey]
    exact sameItems_self ih
  | @object fields hnames _ ih =>
    rw [sameKey, beq_self_eq_true, Bool.true_and]
    exact sameFields_of_find? (fun field hfield => find?_of_mem hnames hfield) ih

/-- A value that is no NaN agrees with itself. -/
theorem same_self {a : Json} (h : a.Readable) (hnan : a.isNaN = false) : a.same a = true := by
  rw [same, hnan, sameKey_self h]
  rfl

end LayerBlend.Json
