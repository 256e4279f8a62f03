import LayerBlend.Rect

/-!
# Points and edges of rectangles

* `Rect.Holds r x y` — the point lies in the rectangle.
* `Rect.Inside r bounds` — the edges of `r` lie between those of `bounds`.
* `Rect.holds_intersect`, `Rect.inside_intersect` — the points of an overlap are those of both
  rectangles, and its edges lie between those of both.
* `Rect.inside_clamp`, `Rect.clamp_of_inside` — clamping moves a rectangle inside the bounds, and
  moves nothing that is inside already.
* `Rect.isEmpty_union` — a bounding box is empty only when both rectangles are.
-/

namespace LayerBlend.Rect

/-- The point lies in the rectangle. -/
structure Holds (r : Rect) (x y : Int) : Prop where
  /-- It does not lie before the first column. -/
  left : r.left ≤ x
  /-- It lies before the column behind the last one. -/
  right : x < r.right
  /-- It does not lie before the first row. -/
  top : r.top ≤ y
  /-- It lies before the row behind the last one. -/
  bottom : y < r.bottom

instance (r : Rect) (x y : Int) : Decidable (r.Holds x y) :=
  decidable_of_iff (r.left ≤ x ∧ x < r.right ∧ r.top ≤ y ∧ y < r.bottom)
    ⟨fun ⟨hl, hr, ht, hb⟩ => ⟨hl, hr, ht, hb⟩, fun ⟨hl, hr, ht, hb⟩ => ⟨hl, hr, ht, hb⟩⟩

/-- The edges of the rectangle lie between those of the bounds. -/
structure Inside (r bounds : Rect) : Prop where
  /-- The left edge is not left of that of the bounds. -/
  left : bounds.left ≤ r.left
  /-- The right edge is not right of that of the bounds. -/
  right : r.right ≤ bounds.right
  /-- The top edge is not above that of the bounds. -/
  top : bounds.top ≤ r.top
  /-- The bottom edge is not below that of the bounds. -/
  bottom : r.bottom ≤ bounds.bottom

theorem isEmpty_iff {r : Rect} : r.isEmpty = true ↔ r.width = 0 ∨ r.height = 0 := by
  unfold isEmpty
  rw [Bool.or_eq_true, beq_iff_eq, beq_iff_eq]

/-- A rectangle that is not empty has a column and a row. -/
theorem lt_of_not_isEmpty {r : Rect} (h : r.isEmpty = false) :
    r.left < r.right ∧ r.top < r.bottom := by
  have hsize : ¬(r.width = 0 ∨ r.height = 0) := fun hzero =>
    Bool.false_ne_true (h.symm.trans (isEmpty_iff.mpr hzero))
  have hleft := r.left_le_right
  have htop := r.top_le_bottom
  unfold width height at hsize
  omega

/-- A point of a rectangle shows that it is not empty. -/
theorem Holds.isEmpty_eq_false {r : Rect} {x y : Int} (h : r.Holds x y) : r.isEmpty = false := by
  obtain ⟨hl, hr, ht, hb⟩ := h
  cases hempty : r.isEmpty with
  | false => rfl
  | true =>
    have hsize := isEmpty_iff.mp hempty
    unfold width height at hsize
    omega

/-- The columns and the row of a point of a rectangle. -/
theorem Holds.exists_offsets {r : Rect} {x y : Int} (h : r.Holds x y) :
    ∃ column line : Nat, x = r.left + column ∧ y = r.top + line ∧ column < r.width.toNat ∧
      line < r.height.toNat := by
  obtain ⟨hl, hr, ht, hb⟩ := h
  unfold width height
  exact ⟨(x - r.left).toNat, (y - r.top).toNat, by omega, by omega, by omega, by omega⟩

/-- The edges of a rectangle in the coordinates whose origin is the corner of another. -/
theorem relativeTo_edges (r origin : Rect) :
    (r.relativeTo origin).left = r.left - origin.left ∧
      (r.relativeTo origin).top = r.top - origin.top ∧
      (r.relativeTo origin).right = r.right - origin.left ∧
      (r.relativeTo origin).bottom = r.bottom - origin.top :=
  ⟨rfl, rfl, rfl, rfl⟩

/-! ## Overlaps -/

/-- A rectangle that overlaps another shares its edges with one of the two. -/
theorem intersect_of_holds {r s : Rect} {x y : Int} (hr : r.Holds x y) (hs : s.Holds x y) :
    (r.intersect s).left = max r.left s.left ∧ (r.intersect s).top = max r.top s.top ∧
      (r.intersect s).right = min r.right s.right ∧
      (r.intersect s).bottom = min r.bottom s.bottom := by
  obtain ⟨hrl, hrr, hrt, hrb⟩ := hr
  obtain ⟨hsl, hsr, hst, hsb⟩ := hs
  unfold intersect
  rw [dif_pos (by omega)]
  exact ⟨rfl, rfl, rfl, rfl⟩

/-- The points of an overlap are those of both rectangles. -/
theorem holds_intersect {r s : Rect} {x y : Int} :
    (r.intersect s).Holds x y ↔ r.Holds x y ∧ s.Holds x y := by
  constructor
  · rintro ⟨hl, hr, ht, hb⟩
    unfold intersect at hl hr ht hb
    split at hl
    · next hoverlap =>
      rw [dif_pos hoverlap] at hr ht hb
      simp only at hl hr ht hb
      exact ⟨⟨by omega, by omega, by omega, by omega⟩, ⟨by omega, by omega, by omega, by omega⟩⟩
    · next hnone =>
      rw [dif_neg hnone] at hr
      simp only [empty] at hl hr
      omega
  · rintro ⟨hr, hs⟩
    obtain ⟨hleft, htop, hright, hbottom⟩ := intersect_of_holds hr hs
    obtain ⟨hrl, hrr, hrt, hrb⟩ := hr
    obtain ⟨hsl, hsr, hst, hsb⟩ := hs
    exact ⟨by omega, by omega, by omega, by omega⟩

/-- An overlap that is not empty lies inside both rectangles. -/
theorem inside_intersect {r s : Rect} (h : (r.intersect s).isEmpty = false) :
    (r.intersect s).Inside r ∧ (r.intersect s).Inside s := by
  obtain ⟨hwidth, hheight⟩ := lt_of_not_isEmpty h
  have hcorner : (r.intersect s).Holds (r.intersect s).left (r.intersect s).top :=
    ⟨Int.le_refl _, hwidth, Int.le_refl _, hheight⟩
  obtain ⟨hr, hs⟩ := holds_intersect.mp hcorner
  obtain ⟨hleft, htop, hright, hbottom⟩ := intersect_of_holds hr hs
  exact ⟨⟨by omega, by omega, by omega, by omega⟩, ⟨by omega, by omega, by omega, by omega⟩⟩

/-! ## Bounds -/

/-- A clamped rectangle lies inside the bounds. -/
theorem inside_clamp (r bounds : Rect) : (r.clamp bounds).Inside bounds := by
  have hleft := bounds.left_le_right
  have htop := bounds.top_le_bottom
  unfold clamp
  refine ⟨?_, ?_, ?_, ?_⟩ <;> simp only <;> omega

/-- Clamping does not move a rectangle that lies inside the bounds. -/
theorem clamp_of_inside {r bounds : Rect} (h : r.Inside bounds) : r.clamp bounds = r := by
  obtain ⟨hl, hr, ht, hb⟩ := h
  obtain ⟨left, top, right, bottom, hleft, htop⟩ := r
  simp only at hl hr ht hb
  unfold clamp
  simp only [mk.injEq]
  omega

/-- The bounding box of two rectangles inside bounds lies inside them. -/
theorem Inside.union {r s bounds : Rect} (hr : r.Inside bounds) (hs : s.Inside bounds) :
    (r.union s).Inside bounds := by
  obtain ⟨hrl, hrr, hrt, hrb⟩ := hr
  obtain ⟨hsl, hsr, hst, hsb⟩ := hs
  unfold Rect.union
  refine ⟨?_, ?_, ?_, ?_⟩ <;> simp only <;> omega

/-- The bounding box of a rectangle that is not empty and another is not empty. -/
theorem isEmpty_union {r s : Rect} (hr : r.isEmpty = false) : (r.union s).isEmpty = false := by
  obtain ⟨hwidth, hheight⟩ := lt_of_not_isEmpty hr
  have hcorner : (r.union s).Holds r.left r.top := by
    unfold Rect.union
    refine ⟨?_, ?_, ?_, ?_⟩ <;> simp only <;> omega
  exact hcorner.isEmpty_eq_false

end LayerBlend.Rect
