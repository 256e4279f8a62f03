import LayerBlend.Proofs.Rect.Points
import Mathlib.Order.Bounds.Basic
import Mathlib.Order.Lattice

/-!
# The algebra of rectangles

Rectangles are ordered by their edges, and bounding boxes are the joins of that order. Clamping and
overlapping are two ways to say what two rectangles have in common: the points of either are those
of both rectangles, and they differ only where there is none.

* `Rect.isLeast_union` — a bounding box is the least rectangle with the edges of both inside.
* `Rect.exists_holds_iff`, `Rect.eq_of_holds_iff` — a rectangle with a point is not empty, and its
  points determine its edges.
* `Rect.holds_clamp`, `Rect.isEmpty_clamp`, `Rect.clamp_eq_intersect` — a clamped rectangle and an
  overlap have the same points, so they are empty together and equal otherwise.
* `Rect.intersect_eq_of_holds_iff` — overlaps are determined by their points, empty ones included.
* `Rect.clamp_clamp`, `Rect.union_clamp` — clamping twice is clamping once, and the bounding box of
  clamped rectangles is the clamped bounding box.
* `Rect.relativeTo_clamp`, `Rect.relativeTo_union`, `Rect.relativeTo_intersect` — moving to another
  origin moves what the operations give.
* `Rect.operations_lawful` — the operations have the edges that they are defined by, which are in
  order, and all of these laws.
-/

namespace LayerBlend.Rect

attribute [ext] Rect

variable {r s t u : Rect} {x y : Int}

/-! ## The order of edges -/

/-- A rectangle is below those that it lies inside of. -/
instance : PartialOrder Rect where
  le := Inside
  le_refl _ := ⟨Int.le_refl _, Int.le_refl _, Int.le_refl _, Int.le_refl _⟩
  le_trans _ _ _ hrs hst :=
    ⟨hst.left.trans hrs.left, hrs.right.trans hst.right, hst.top.trans hrs.top,
      hrs.bottom.trans hst.bottom⟩
  le_antisymm _ _ hrs hsr := by
    apply Rect.ext
    · exact Int.le_antisymm hsr.left hrs.left
    · exact Int.le_antisymm hsr.top hrs.top
    · exact Int.le_antisymm hrs.right hsr.right
    · exact Int.le_antisymm hrs.bottom hsr.bottom

/-- Bounding boxes are joins. -/
instance : SemilatticeSup Rect where
  sup := union
  le_sup_left _ _ :=
    ⟨Int.min_le_left _ _, Int.le_max_left _ _, Int.min_le_left _ _, Int.le_max_left _ _⟩
  le_sup_right _ _ :=
    ⟨Int.min_le_right _ _, Int.le_max_right _ _, Int.min_le_right _ _, Int.le_max_right _ _⟩
  sup_le _ _ _ hr hs := hr.union hs

/-- A bounding box does not depend on the order. -/
theorem union_comm (r s : Rect) : r.union s = s.union r :=
  sup_comm r s

/-- A bounding box is the least rectangle with the edges of both inside. -/
theorem isLeast_union (r s : Rect) : IsLeast {t | r.Inside t ∧ s.Inside t} (r.union s) := by
  constructor
  · exact ⟨le_sup_left (a := r) (b := s), le_sup_right (a := r) (b := s)⟩
  · rintro t ⟨hr, hs⟩
    exact hr.union hs

/-! ## Edges and points -/

/-- The edges of a rectangle make that rectangle. -/
theorem ofEdges_edges (r : Rect) : ofEdges r.left r.top r.right r.bottom = .ok r := by
  unfold ofEdges
  rw [dif_pos r.left_le_right, dif_pos r.top_le_bottom]

/-- The first point of a rectangle that is not empty. -/
theorem holds_first (h : r.isEmpty = false) : r.Holds r.left r.top := by
  obtain ⟨hwidth, hheight⟩ := lt_of_not_isEmpty h
  exact ⟨Int.le_refl _, hwidth, Int.le_refl _, hheight⟩

/-- The last point of a rectangle that is not empty. -/
theorem holds_last (h : r.isEmpty = false) : r.Holds (r.right - 1) (r.bottom - 1) := by
  obtain ⟨hwidth, hheight⟩ := lt_of_not_isEmpty h
  exact ⟨by omega, by omega, by omega, by omega⟩

/-- A rectangle is not empty when it has a point. -/
theorem exists_holds_iff : (∃ x y, r.Holds x y) ↔ r.isEmpty = false := by
  constructor
  · rintro ⟨x, y, h⟩
    exact h.isEmpty_eq_false
  · intro h
    exact ⟨_, _, holds_first h⟩

/-- Rectangles with the same points are empty together. -/
theorem isEmpty_eq_of_holds_iff (h : ∀ x y, r.Holds x y ↔ s.Holds x y) :
    r.isEmpty = s.isEmpty := by
  have hpoint : r.isEmpty = false ↔ s.isEmpty = false := by
    rw [← exists_holds_iff, ← exists_holds_iff]
    simp only [h]
  simpa using hpoint

/-- A rectangle whose points lie in another lies inside it, unless it has none. -/
theorem le_of_holds (hr : r.isEmpty = false) (h : ∀ x y, r.Holds x y → s.Holds x y) : r ≤ s := by
  have hfirst := h _ _ (holds_first hr)
  have hlast := h _ _ (holds_last hr)
  exact ⟨hfirst.left, Int.le_of_sub_one_lt hlast.right, hfirst.top,
    Int.le_of_sub_one_lt hlast.bottom⟩

/-- The points of a rectangle that is not empty determine its edges. -/
theorem eq_of_holds_iff (hr : r.isEmpty = false) (h : ∀ x y, r.Holds x y ↔ s.Holds x y) :
    r = s := by
  have hs : s.isEmpty = false := (isEmpty_eq_of_holds_iff h).symm.trans hr
  apply le_antisymm
  · exact le_of_holds hr fun x y => (h x y).mp
  · exact le_of_holds hs fun x y => (h x y).mpr

/-! ## Clamping -/

/-- The points of a clamped rectangle are those of both rectangles. -/
theorem holds_clamp : (r.clamp s).Holds x y ↔ r.Holds x y ∧ s.Holds x y := by
  unfold clamp
  constructor
  · rintro ⟨hl, hr, ht, hb⟩
    simp only at hl hr ht hb
    exact ⟨⟨by omega, by omega, by omega, by omega⟩, ⟨by omega, by omega, by omega, by omega⟩⟩
  · rintro ⟨⟨hrl, hrr, hrt, hrb⟩, hsl, hsr, hst, hsb⟩
    refine ⟨?_, ?_, ?_, ?_⟩ <;> simp only <;> omega

/-- A clamped rectangle is clamped already. -/
theorem clamp_clamp (r s : Rect) : (r.clamp s).clamp s = r.clamp s :=
  clamp_of_inside (inside_clamp r s)

/-- A rectangle is clamped to nothing when it does not overlap the bounds. -/
theorem isEmpty_clamp (r s : Rect) : (r.clamp s).isEmpty = (r.intersect s).isEmpty := by
  apply isEmpty_eq_of_holds_iff
  intro x y
  rw [holds_clamp, holds_intersect]

/-- A rectangle that overlaps the bounds is clamped to the overlap. -/
theorem clamp_eq_intersect (h : (r.intersect s).isEmpty = false) : r.clamp s = r.intersect s := by
  apply eq_of_holds_iff ((isEmpty_clamp r s).trans h)
  intro x y
  rw [holds_clamp, holds_intersect]

/-- The bounding box of clamped rectangles is the clamped bounding box. -/
theorem union_clamp (r s t : Rect) : (r.union s).clamp t = (r.clamp t).union (s.clamp t) := by
  simp only [union, clamp, mk.injEq]
  omega

/-! ## Overlaps -/

/-- An overlap without a point is the empty rectangle at the origin. -/
theorem intersect_eq_empty (h : (r.intersect s).isEmpty = true) : r.intersect s = empty := by
  unfold intersect
  refine dif_neg fun ⟨hcolumn, hline⟩ => ?_
  have hoverlap : (r.intersect s).Holds (max r.left s.left) (max r.top s.top) := by
    rw [holds_intersect]
    exact ⟨⟨by omega, by omega, by omega, by omega⟩, ⟨by omega, by omega, by omega, by omega⟩⟩
  exact Bool.false_ne_true (hoverlap.isEmpty_eq_false.symm.trans h)

/-- Overlaps with the same points are the same. -/
theorem intersect_eq_of_holds_iff
    (h : ∀ x y, (r.intersect s).Holds x y ↔ (t.intersect u).Holds x y) :
    r.intersect s = t.intersect u := by
  cases hempty : (r.intersect s).isEmpty with
  | false => exact eq_of_holds_iff hempty h
  | true =>
    have hother : (t.intersect u).isEmpty = true := (isEmpty_eq_of_holds_iff h).symm.trans hempty
    rw [intersect_eq_empty hempty, intersect_eq_empty hother]

/-- An overlap does not depend on the order. -/
theorem intersect_comm (r s : Rect) : r.intersect s = s.intersect r := by
  apply intersect_eq_of_holds_iff
  intro x y
  rw [holds_intersect, holds_intersect, and_comm]

/-- The overlap of three rectangles does not depend on which two are taken first. -/
theorem intersect_assoc (r s t : Rect) :
    (r.intersect s).intersect t = r.intersect (s.intersect t) := by
  apply intersect_eq_of_holds_iff
  intro x y
  simp only [holds_intersect, and_assoc]

/-! ## Other origins -/

/-- A point of a rectangle in other coordinates is one of the rectangle in its own. -/
theorem holds_relativeTo {origin : Rect} :
    (r.relativeTo origin).Holds x y ↔ r.Holds (x + origin.left) (y + origin.top) := by
  obtain ⟨hleft, htop, hright, hbottom⟩ := r.relativeTo_edges origin
  constructor
  · rintro ⟨hl, hr, ht, hb⟩
    exact ⟨by omega, by omega, by omega, by omega⟩
  · rintro ⟨hl, hr, ht, hb⟩
    exact ⟨by omega, by omega, by omega, by omega⟩

/-- A rectangle that is moved back is where it was. -/
theorem offset_relativeTo (r origin : Rect) :
    (r.relativeTo origin).offset origin.left origin.top = r := by
  apply Rect.ext <;> exact Int.neg_add_cancel_right _ _

/-- Clamping in other coordinates. -/
theorem relativeTo_clamp (r s origin : Rect) :
    (r.clamp s).relativeTo origin = (r.relativeTo origin).clamp (s.relativeTo origin) := by
  simp only [clamp, relativeTo, offset, mk.injEq]
  omega

/-- The bounding box in other coordinates. -/
theorem relativeTo_union (r s origin : Rect) :
    (r.union s).relativeTo origin = (r.relativeTo origin).union (s.relativeTo origin) := by
  simp only [union, relativeTo, offset, mk.injEq]
  omega

/-- An overlap in other coordinates, unless it is the empty one, which stays at the origin. -/
theorem relativeTo_intersect (h : (r.intersect s).isEmpty = false) (origin : Rect) :
    (r.intersect s).relativeTo origin = (r.relativeTo origin).intersect (s.relativeTo origin) := by
  have hpoint : ((r.intersect s).relativeTo origin).isEmpty = false := by
    rw [← exists_holds_iff] at h ⊢
    obtain ⟨x, y, hxy⟩ := h
    refine ⟨x - origin.left, y - origin.top, holds_relativeTo.mpr ?_⟩
    rwa [Int.sub_add_cancel, Int.sub_add_cancel]
  apply eq_of_holds_iff hpoint
  intro x y
  simp only [holds_relativeTo, holds_intersect]

/-! ## All operations -/

/-- The edges of an overlap, or of the empty rectangle at the origin, are in order. -/
theorem ofEdges_intersect (r s : Rect) :
    (if min r.right s.right ≤ max r.left s.left ∨ min r.bottom s.bottom ≤ max r.top s.top
      then ofEdges 0 0 0 0
      else ofEdges (max r.left s.left) (max r.top s.top) (min r.right s.right)
        (min r.bottom s.bottom)) = .ok (r.intersect s) := by
  unfold intersect
  by_cases hoverlap : max r.left s.left < min r.right s.right ∧
      max r.top s.top < min r.bottom s.bottom
  · rw [dif_pos hoverlap, if_neg (by omega)]
    exact ofEdges_edges ⟨_, _, _, _, Int.le_of_lt hoverlap.1, Int.le_of_lt hoverlap.2⟩
  · rw [dif_neg hoverlap, if_pos (by omega)]
    exact ofEdges_edges empty

/-- The operations on rectangles give rectangles and mean what they say. Their edges are in order.
A point lies in an overlap when it lies in both rectangles, and a bounding box is the least
rectangle with the edges of both inside. A clamped rectangle lies inside the bounds, is clamped
already, is empty exactly when there is no overlap, and is the overlap otherwise. Bounding boxes and
overlaps depend neither on the order nor on the grouping, and a bounding box with itself changes
nothing; an overlap that is empty is the empty rectangle at the origin. Moving to another origin can
be undone, and moves what the operations give, but for an empty overlap. -/
theorem operations_lawful (a b c origin : Rect) (dx dy : Int) :
    (ofEdges (max b.left (min b.right a.left)) (max b.top (min b.bottom a.top))
        (max b.left (min b.right a.right)) (max b.top (min b.bottom a.bottom)) = .ok (a.clamp b) ∧
      ofEdges (min a.left b.left) (min a.top b.top) (max a.right b.right)
        (max a.bottom b.bottom) = .ok (a.union b) ∧
      (if min a.right b.right ≤ max a.left b.left ∨ min a.bottom b.bottom ≤ max a.top b.top
        then ofEdges 0 0 0 0
        else ofEdges (max a.left b.left) (max a.top b.top) (min a.right b.right)
          (min a.bottom b.bottom)) = .ok (a.intersect b) ∧
      ofEdges (a.left + dx) (a.top + dy) (a.right + dx) (a.bottom + dy) = .ok (a.offset dx dy) ∧
      ofEdges (a.left - origin.left) (a.top - origin.top) (a.right - origin.left)
        (a.bottom - origin.top) = .ok (a.relativeTo origin)) ∧
    (∀ x y, (a.intersect b).Holds x y ↔ a.Holds x y ∧ b.Holds x y) ∧
    IsLeast {r | a.Inside r ∧ b.Inside r} (a.union b) ∧
    ((a.clamp b).Inside b ∧ (a.clamp b).clamp b = a.clamp b ∧
      (a.clamp b).isEmpty = (a.intersect b).isEmpty ∧
      ((a.intersect b).isEmpty = false → a.clamp b = a.intersect b)) ∧
    (a.union b = b.union a ∧ (a.union b).union c = a.union (b.union c) ∧ a.union a = a) ∧
    (a.intersect b = b.intersect a ∧
      (a.intersect b).intersect c = a.intersect (b.intersect c) ∧
      ((a.intersect b).isEmpty = true ↔ a.intersect b = empty)) ∧
    (a.relativeTo origin).offset origin.left origin.top = a ∧
    (a.clamp b).relativeTo origin = (a.relativeTo origin).clamp (b.relativeTo origin) ∧
    (a.union b).relativeTo origin = (a.relativeTo origin).union (b.relativeTo origin) ∧
    ((a.intersect b).isEmpty = false →
      (a.intersect b).relativeTo origin =
        (a.relativeTo origin).intersect (b.relativeTo origin)) := by
  refine ⟨⟨ofEdges_edges (a.clamp b), ofEdges_edges (a.union b), ofEdges_intersect a b,
    ofEdges_edges (a.offset dx dy), ofEdges_edges (a.relativeTo origin)⟩,
    fun x y => holds_intersect, isLeast_union a b,
    ⟨inside_clamp a b, clamp_clamp a b, isEmpty_clamp a b, clamp_eq_intersect⟩,
    ⟨union_comm a b, sup_assoc a b c, sup_idem a⟩,
    ⟨intersect_comm a b, intersect_assoc a b c, intersect_eq_empty, fun hempty => ?_⟩,
    offset_relativeTo a origin, relativeTo_clamp a b origin, relativeTo_union a b origin,
    fun h => relativeTo_intersect h origin⟩
  rw [hempty]
  rfl

/-- Two rectangles that overlap in part, and a third one that touches their bounding box. -/
theorem operations_lawful_partial_overlap :
    let a : Rect := ⟨-2, 0, 4, 4, by decide, by decide⟩
    let b : Rect := ⟨2, -1, 9, 3, by decide, by decide⟩
    let origin : Rect := ⟨9, 0, 9, 5, by decide, by decide⟩
    (a.intersect b).isEmpty = false ∧ a.clamp b = a.intersect b ∧
      (a.intersect b).relativeTo origin =
        (a.relativeTo origin).intersect (b.relativeTo origin) := by
  intro a b origin
  have hoverlap : (a.intersect b).isEmpty = false := by decide
  obtain ⟨-, -, -, ⟨-, -, -, hclamp⟩, -, -, -, -, -, hmoved⟩ :=
    operations_lawful a b origin origin 0 0
  exact ⟨hoverlap, hclamp hoverlap, hmoved hoverlap⟩

end LayerBlend.Rect
