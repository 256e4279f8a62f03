import LayerBlend.Json.Writer

/-!
# Halves of characters in documents

* `JsonText.any_isSome_halves`, `JsonText.eq_whole` — a text has no half exactly when it is one of
  whole characters.
* `Json.isWhole_text`, `Json.isWhole_list`, `Json.isWhole_object` — whether a value has a half, part
  by part.
* `Json.isWhole_write`, `Json.write_of_isWhole` — what is written of a value has a half exactly when
  the value has one.
-/

namespace LayerBlend

namespace JsonText

variable {t : JsonText} {s : String} {halves : List (Option Nat)}

/-- Half of a character is in a text exactly when the text is not one of whole characters. -/
theorem any_isSome_halves (t : JsonText) : t.halves.any Option.isSome = !t.isWhole := by
  cases t with
  | whole s => simp [JsonText.halves, isWhole]
  | halved t => exact t.isHalved

/-- A text without halves is one of whole characters. -/
theorem eq_whole (h : t.isWhole = true) : t = .whole t.shown := by
  cases t with
  | whole s => rfl
  | halved t => cases h

theorem shown_ofHalves (s : String) (halves : List (Option Nat)) :
    (ofHalves s halves).shown = s := by
  unfold ofHalves
  split <;> rfl

theorem isWhole_ofHalves (s : String) (halves : List (Option Nat)) :
    (ofHalves s halves).isWhole = !halves.any Option.isSome := by
  unfold ofHalves
  split
  · next h =>
    rw [h]
    rfl
  · next h =>
    rw [Bool.not_eq_true] at h
    rw [h]
    rfl

/-- Where no half is given, the text is the one that is shown. -/
theorem ofHalves_of_none (h : halves.any Option.isSome = false) : ofHalves s halves = .whole s := by
  rw [ofHalves, dif_neg (by simp [h])]

end JsonText

namespace Json

variable {document : Json}

theorem isWhole_text (t : JsonText) : (Json.text t).isWhole = t.isWhole := by
  rw [isWhole, halves, JsonText.any_isSome_halves, Bool.not_not]

/-- A list has no half when none of its items has. -/
theorem isWhole_list (items : List Json) : (Json.list items).isWhole = items.all isWhole := by
  induction items with
  | nil => rfl
  | cons item items ih =>
    rw [isWhole, halves] at ih
    rw [isWhole, halves, itemHalves, List.any_append, Bool.not_or, ih, List.all_cons, isWhole]

/-- An object has no half when none of its names and values has. -/
theorem isWhole_object (fields : List (JsonText × Json)) :
    (Json.object fields).isWhole = fields.all fun field => field.1.isWhole && field.2.isWhole := by
  induction fields with
  | nil => rfl
  | cons field fields ih =>
    obtain ⟨name, item⟩ := field
    rw [isWhole, halves] at ih
    rw [isWhole, halves, fieldHalves, List.any_append, List.any_append, Bool.not_or, Bool.not_or,
      ih, List.all_cons, JsonText.any_isSome_halves, Bool.not_not, isWhole]

/-- What is written of a value has a half exactly when the value has one. -/
theorem isWhole_write (document : Json) : document.write.isWhole = document.isWhole :=
  JsonText.isWhole_ofHalves _ _

theorem shown_write (document : Json) :
    document.write.shown = String.ofList (Writer.value 0 document) :=
  JsonText.shown_ofHalves _ _

/-- What is written of a value without halves is a text as any other. -/
theorem write_of_isWhole (h : document.isWhole = true) :
    document.write = .whole document.write.shown :=
  JsonText.eq_whole ((isWhole_write document).trans h)

end Json

end LayerBlend
