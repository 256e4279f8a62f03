import LayerBlend.Proofs.Preset.Collapse
import LayerBlend.Proofs.Preset.Item
import LayerBlend.Proofs.Text.Numerals

/-!
# Identifiers that are told apart

An identifier is a numeral and a random part with an underscore between them, and the numeral has no
underscore; so the identifier tells the random part.

* `PresetItem.eq_of_idOf_eq` — the same identifier has the same random part.
* `PresetItem.Drawn` — a preset has the identifier of a draw from a range of draws. Ranges that do
  not meet have different identifiers (`PresetItem.Drawn.ne`).
* `PresetDocument.Distinct` — no two presets of a list have the same identifier.
* `PresetDocument.distinct_collapse` — collapsing keeps them so, whatever names and formulas are.
-/

namespace LayerBlend

/-! ## Numerals -/

namespace Text.Radix

/-- No digit is an underscore. -/
theorem digit_ne_underscore {d : Nat} (h : d < 36) : digit d ≠ '_' := by
  revert d
  decide

/-- A numeral has no underscore. -/
theorem underscore_notMem_write (n : Nat) : '_' ∉ write 36 n := by
  rcases Nat.eq_zero_or_pos n with rfl | hn
  · decide
  · rw [write_eq (by decide) hn]
    intro h
    obtain ⟨d, hd, hdigit⟩ := List.mem_map.mp h
    have hlt : d < 36 := Nat.digits_lt_base (by decide) (List.mem_reverse.mp hd)
    exact digit_ne_underscore hlt hdigit

theorem underscore_notMem_writeInt (n : Int) : '_' ∉ writeInt 36 n := by
  unfold writeInt
  split
  · simp [underscore_notMem_write]
  · exact underscore_notMem_write _

end Text.Radix

/-! ## Draws -/

namespace PresetItem

variable {w v : Workspace} {a b item : PresetItem} {low high lower higher : Nat}

/-- What comes after the first underscore of an identifier is its random part. -/
theorem dropWhile_idOf (time : Int) (suffix : String) :
    (idOf time suffix).toList.dropWhile (· != '_') = '_' :: suffix.toList := by
  have hnumeral : ∀ c ∈ Text.Radix.writeInt 36 time, (c != '_') = true := by
    intro c hc
    rw [bne_iff_ne]
    rintro rfl
    exact Text.Radix.underscore_notMem_writeInt time hc
  have hunderscore : "_".toList = ['_'] := by decide
  rw [idOf, String.toList_append, String.toList_append, String.toList_ofList, hunderscore,
    List.append_assoc, List.dropWhile_append_of_pos hnumeral]
  simp

/-- An identifier tells the random part that it is made of. -/
theorem eq_of_idOf_eq {time other : Int} {suffix rest : String}
    (h : idOf time suffix = idOf other rest) : suffix = rest := by
  have hparts := dropWhile_idOf time suffix
  rw [h, dropWhile_idOf, List.cons.injEq] at hparts
  exact String.toList_inj.mp hparts.2.symm

/-- A preset has the identifier of a draw from a range. -/
def Drawn (w : Workspace) (low high : Nat) (item : PresetItem) : Prop :=
  ∃ draw, low ≤ draw ∧ draw < high ∧ Numbered w draw item

theorem Drawn.mono (h : Drawn w low high item) (hlow : lower ≤ low) (hhigh : high ≤ higher) :
    Drawn w lower higher item := by
  obtain ⟨draw, hle, hlt, hnumbered⟩ := h
  exact ⟨draw, by omega, by omega, hnumbered⟩

/-- What is drawn depends on the supply of identifiers alone. -/
theorem Drawn.of_eq (h : Drawn w low high item) (hsuffix : v.suffix = w.suffix) :
    Drawn v low high item := by
  obtain ⟨draw, hle, hlt, time, hid⟩ := h
  exact ⟨draw, hle, hlt, time, hsuffix ▸ hid⟩

/-- A preset with the same identifier is drawn in the same range. -/
theorem Drawn.of_id_eq (h : Drawn w low high a) (hid : b.id = a.id) : Drawn w low high b := by
  obtain ⟨draw, hle, hlt, time, ha⟩ := h
  exact ⟨draw, hle, hlt, time, hid.trans ha⟩

/-- An identifier that is drawn is a text. -/
theorem Drawn.exists_text (h : Drawn w low high item) :
    ∃ s : String, s ≠ "" ∧ item.id = .text s := by
  obtain ⟨draw, _, _, time, hid⟩ := h
  exact ⟨_, idOf_ne_empty _ _, hid⟩

variable (hsuffix : Function.Injective w.suffix)

include hsuffix

/-- Presets with the same identifier have it of the same draw. -/
theorem Numbered.eq {draw other : Nat} (ha : Numbered w draw a) (hb : Numbered w other b)
    (hid : a.id = b.id) : draw = other := by
  obtain ⟨time, ha⟩ := ha
  obtain ⟨time', hb⟩ := hb
  rw [ha, hb, Json.text.injEq, JsonText.whole.injEq] at hid
  exact hsuffix (eq_of_idOf_eq hid)

/-- Ranges of draws that do not meet have different identifiers. -/
theorem Drawn.ne (ha : Drawn w low high a) (hb : Drawn w lower higher b) (hle : high ≤ lower) :
    a.id ≠ b.id := by
  intro hid
  obtain ⟨draw, _, hlt, ha⟩ := ha
  obtain ⟨other, hge, _, hb⟩ := hb
  have := Numbered.eq hsuffix ha hb hid
  omega

omit hsuffix

end PresetItem

namespace PresetDocument

variable {items more : List PresetItem} {w : Workspace}

/-- No two presets have the same identifier. -/
def Distinct (items : List PresetItem) : Prop :=
  (items.map PresetItem.id).Nodup

theorem Distinct.eq (h : Distinct items) {a b : PresetItem} (ha : a ∈ items) (hb : b ∈ items)
    (hid : a.id = b.id) : a = b :=
  List.inj_on_of_nodup_map h ha hb hid

theorem Distinct.sublist (h : Distinct items) (hsub : more.Sublist items) : Distinct more :=
  List.Nodup.sublist (hsub.map _) h

/-- Two lists together have no identifier twice when neither has and they share none. -/
theorem distinct_append : Distinct (items ++ more) ↔ Distinct items ∧ Distinct more ∧
    ∀ a ∈ items, ∀ b ∈ more, a.id ≠ b.id := by
  unfold Distinct
  rw [List.map_append, List.nodup_append]
  simp

/-- Draws one after the other give different identifiers. -/
theorem drawn_of_numbered (hsuffix : Function.Injective w.suffix) {first : Nat}
    (h : List.Forall₂ (PresetItem.Numbered w) (List.range' first items.length) items) :
    Distinct items ∧ ∀ item ∈ items, PresetItem.Drawn w first (first + items.length) item := by
  induction items generalizing first with
  | nil => exact ⟨List.nodup_nil, fun _ hitem => nomatch hitem⟩
  | cons item items ih =>
    rw [List.length_cons, List.range'_succ] at h
    cases h with
    | cons hitem hothers =>
      obtain ⟨hdistinct, hdrawn⟩ := ih hothers
      have hfirst : PresetItem.Drawn w first (first + 1) item :=
        ⟨first, Nat.le_refl _, Nat.lt_succ_self _, hitem⟩
      refine ⟨List.nodup_cons.mpr ⟨fun hthere => ?_, hdistinct⟩,
        List.forall_mem_cons.mpr ⟨hfirst.mono (Nat.le_refl _) (by simp), fun other hother => ?_⟩⟩
      · obtain ⟨other, hother, hid⟩ := List.mem_map.mp hthere
        exact hfirst.ne hsuffix (hdrawn other hother) (Nat.le_refl _) hid.symm
      · rw [List.length_cons]
        exact (hdrawn other hother).mono (by omega) (by omega)

/-! ## Keys of all kinds -/

/-- What a key is: a text, a number, or neither. -/
def keyOf (value : Json) : Option JsonText × Option Json.Number :=
  (value.text?, value.number?)

/-- Presets that can be compared are told apart by what their names and formulas are. -/
theorem keyed_of_hasKey (h : items.all hasKey = true) :
    Keyed (fun item => (keyOf item.name, keyOf item.expr)) items := by
  intro a ha b hb
  have hkeys := fun item hitem => Bool.and_eq_true_iff.mp (List.all_eq_true.mp h item hitem)
  rw [sameKey, Bool.and_eq_true, Json.sameKey_iff_of_isKey (hkeys a ha).1 (hkeys b hb).1,
    Json.sameKey_iff_of_isKey (hkeys a ha).2 (hkeys b hb).2]
  simp [keyOf]

/-- Collapsing leaves no identifier twice. -/
theorem distinct_collapse (hkeys : items.all hasKey = true) (h : Distinct items) :
    Distinct (collapse items) := by
  have hnodup : (collapse items).Nodup :=
    List.Nodup.of_map _ (nodup_collapse (keyed_of_hasKey hkeys))
  exact List.Nodup.map_on (fun a ha b hb hid =>
    h.eq (mem_of_mem_collapse ha) (mem_of_mem_collapse hb) hid) hnodup

end PresetDocument

end LayerBlend
