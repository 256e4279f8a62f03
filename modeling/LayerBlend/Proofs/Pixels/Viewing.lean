import LayerBlend.Pixels.Source
import LayerBlend.Proofs.Rect.Points

/-!
# What a view shows at each point

* `Bytes.getElem?_joinRows` — a byte of rows of one length, from its row and its place in the row.
* `view_getD` — at each point of the viewport a view has the bytes of the rectangle's pixel there,
  or zeros where the rectangle does not reach.
* `PixelSource.byteAt s x y c` — component `c` of a source at the document point `(x, y)`: the byte
  of the buffer, zero behind the end of the buffer, and zero outside the sampled pixels.
* `PixelSource.viewIn_getD` — the view of a source has these bytes.
-/

namespace LayerBlend

namespace Bytes

/-! ## Joined rows -/

/-- An element of lists of one length, from its list and its place in the list. -/
theorem getElem?_flatten {β : Type} {count : Nat} {lists : List (List β)}
    (h : ∀ list ∈ lists, list.length = count) {j : Nat} (hj : j < count) :
    ∀ i, lists.flatten[count * i + j]? = lists[i]?.bind fun list => list[j]? := by
  induction lists with
  | nil =>
    intro i
    rfl
  | cons list lists ih =>
    intro i
    have hlength : list.length = count := h list List.mem_cons_self
    rw [List.flatten_cons]
    cases i with
    | zero =>
      rw [List.getElem?_append_left (by omega), Nat.mul_zero, Nat.zero_add]
      rfl
    | succ i =>
      have hindex : count * (i + 1) + j - list.length = count * i + j := by
        rw [Nat.mul_succ]
        omega
      rw [List.getElem?_append_right (by rw [Nat.mul_succ]; omega), hindex,
        ih (fun other hother => h other (List.mem_cons_of_mem _ hother)) i]
      rfl

/-- A byte of rows of one length, from its row and its place in the row. -/
theorem getElem?_joinRows {count : Nat} {rows : Array Bytes} (h : ∀ row ∈ rows, row.size = count)
    {j : Nat} (hj : j < count) (i : Nat) :
    (joinRows rows)[count * i + j]? = rows[i]?.bind fun row => row[j]? := by
  have hlists : ∀ list ∈ rows.toList.map Array.toList, list.length = count := by
    intro list hlist
    obtain ⟨row, hrow, rfl⟩ := List.mem_map.mp hlist
    exact h row (Array.mem_toList_iff.mp hrow)
  have hjoin : (joinRows rows).toList = (rows.toList.map Array.toList).flatten :=
    Array.toList_flatten
  rw [← Array.getElem?_toList, hjoin, getElem?_flatten hlists hj, List.getElem?_map,
    Array.getElem?_toList]
  cases rows[i]? with
  | none => rfl
  | some row => exact Array.getElem?_toList

/-! ## Padded slices -/

/-- All bytes of a row of zeros are zero. -/
theorem getD_zeros (count i : Nat) : (zeros count).getD i 0 = 0 := by
  rw [Array.getD_eq_getD_getElem?, zeros, Array.getElem?_replicate]
  split <;> rfl

/-- The number of bytes of a slice between zeros. -/
theorem size_padded {before after first last : Nat} {source : Bytes} (hlast : last ≤ source.size) :
    (zeros before ++ source.extract first last ++ zeros after).size =
      before + (last - first) + after := by
  rw [Array.size_append, Array.size_append, zeros, zeros, Array.size_replicate,
    Array.size_replicate, Array.size_extract, Nat.min_eq_left hlast]

/-- A byte of a slice between zeros. -/
theorem getD_padded {before after first last : Nat} {source : Bytes} (hlast : last ≤ source.size)
    (i : Nat) :
    (zeros before ++ source.extract first last ++ zeros after).getD i 0 =
      if before ≤ i ∧ i < before + (last - first) then source.getD (first + (i - before)) 0
      else 0 := by
  rw [Array.getD_eq_getD_getElem?, Array.getElem?_append, Array.size_append, Array.size_extract,
    Nat.min_eq_left hlast, Array.getElem?_append, zeros, Array.size_replicate]
  by_cases hslice : before ≤ i ∧ i < before + (last - first)
  · rw [if_pos hslice, if_pos hslice.2, if_neg (by omega), Array.getElem?_extract,
      if_pos (by omega), Array.getD_eq_getD_getElem?]
  · rw [if_neg hslice]
    split
    · rw [if_pos (by omega), ← Array.getD_eq_getD_getElem?]
      exact getD_zeros before i
    · rw [← Array.getD_eq_getD_getElem?]
      exact getD_zeros after _

end Bytes

/-! ## Views -/

/-- A row of a view that shows the part `overlap` of a rectangle: its length, and its bytes. -/
theorem View.row_spec {viewport bounds overlap : Rect} {rowAt : Nat → Bytes}
    (hrow : ∀ y < bounds.height.toNat, (rowAt y).size = 4 * bounds.width.toNat)
    (hviewport : overlap.Inside viewport) (hbounds : overlap.Inside bounds) (y : Nat) :
    let row := View.row viewport.width.toNat (overlap.relativeTo viewport)
      (overlap.relativeTo bounds) rowAt y
    row.size = 4 * viewport.width.toNat ∧ ∀ x c, c < 4 → row.getD (4 * x + c) 0 =
      if overlap.Holds (viewport.left + x) (viewport.top + y) then
        (rowAt (viewport.top + y - bounds.top).toNat).getD
          (4 * (viewport.left + x - bounds.left).toNat + c) 0
      else 0 := by
  obtain ⟨hvl, hvr, hvt, hvb⟩ := hviewport
  obtain ⟨hbl, hbr, hbt, hbb⟩ := hbounds
  have hcolumns := overlap.left_le_right
  obtain ⟨hpl, hpt, hpr, hpb⟩ := overlap.relativeTo_edges viewport
  obtain ⟨hcl, hct, hcr, _⟩ := overlap.relativeTo_edges bounds
  unfold View.row
  unfold Rect.width Rect.height at *
  dsimp only
  by_cases hshown : (overlap.relativeTo viewport).top ≤ (y : Int) ∧
      (y : Int) < (overlap.relativeTo viewport).bottom
  · -- the row of the rectangle, counted from its own top edge
    have hindex : ((y : Int) - (overlap.relativeTo viewport).top +
        (overlap.relativeTo bounds).top).toNat = (viewport.top + y - bounds.top).toNat := by
      omega
    have hsize := hrow (viewport.top + y - bounds.top).toNat (by omega)
    rw [if_pos hshown, hindex]
    refine ⟨?_, fun x c hc => ?_⟩
    · rw [Bytes.size_padded (by omega)]
      omega
    · rw [Bytes.getD_padded (by omega)]
      by_cases hholds : overlap.Holds (viewport.left + x) (viewport.top + y)
      · have hleft := hholds.left
        have hright := hholds.right
        rw [if_pos (by omega), if_pos hholds]
        congr 1
        omega
      · rw [if_neg hholds]
        refine if_neg fun hslice => hholds ⟨?_, ?_, ?_, ?_⟩ <;> omega
  · rw [if_neg hshown]
    refine ⟨by simp [Bytes.zeros], fun x c hc => ?_⟩
    rw [Bytes.getD_zeros]
    refine (if_neg fun hholds => hshown ?_).symm
    obtain ⟨_, _, ht, hb⟩ := hholds
    omega

/-- A row of a view: its length, and its bytes. -/
theorem view_getElem (viewport : Rect) {bounds : Rect} {rowAt : Nat → Bytes}
    (hrow : ∀ y < bounds.height.toNat, (rowAt y).size = 4 * bounds.width.toNat) {y : Nat}
    (hy : y < viewport.height.toNat) :
    ∃ row, (view viewport bounds rowAt)[y]? = some row ∧ row.size = 4 * viewport.width.toNat ∧
      ∀ x c, x < viewport.width.toNat → c < 4 → row.getD (4 * x + c) 0 =
        if bounds.Holds (viewport.left + x) (viewport.top + y) then
          (rowAt (viewport.top + y - bounds.top).toNat).getD
            (4 * (viewport.left + x - bounds.left).toNat + c) 0
        else 0 := by
  unfold view
  refine ⟨_, by rw [Array.getElem?_ofFn, dif_pos hy], ?_⟩
  show Array.size (if (viewport.intersect bounds).isEmpty then _ else _) = _ ∧ _
  -- a point of the viewport lies in the overlap when it lies in the rectangle
  have hpoint : ∀ x : Nat, x < viewport.width.toNat →
      ((viewport.intersect bounds).Holds (viewport.left + x) (viewport.top + y) ↔
        bounds.Holds (viewport.left + x) (viewport.top + y)) := by
    intro x hx
    rw [Rect.holds_intersect]
    refine and_iff_right ?_
    unfold Rect.width at hx
    unfold Rect.height at hy
    exact ⟨by omega, by omega, by omega, by omega⟩
  cases hempty : (viewport.intersect bounds).isEmpty with
  | false =>
    obtain ⟨hviewport, hbounds⟩ := Rect.inside_intersect hempty
    obtain ⟨hsize, hbytes⟩ := View.row_spec hrow hviewport hbounds y
    refine ⟨hsize, fun x c hx hc => (hbytes x c hc).trans ?_⟩
    simp only [hpoint x hx]
  | true =>
    refine ⟨by simp [Bytes.zeros], fun x c hx hc => ?_⟩
    show (Bytes.zeros (4 * viewport.width.toNat)).getD (4 * x + c) 0 = _
    rw [Bytes.getD_zeros]
    refine (if_neg fun hholds => ?_).symm
    have hboth := ((hpoint x hx).mpr hholds).isEmpty_eq_false
    exact Bool.false_ne_true (hboth.symm.trans hempty)

/-- A view has as many rows as the viewport. -/
theorem size_view (viewport bounds : Rect) (rowAt : Nat → Bytes) :
    (view viewport bounds rowAt).size = viewport.height.toNat :=
  Array.size_ofFn

/-- The rows of a view have four bytes for each column of the viewport. -/
theorem size_of_mem_view {viewport bounds : Rect} {rowAt : Nat → Bytes}
    (hrow : ∀ y < bounds.height.toNat, (rowAt y).size = 4 * bounds.width.toNat) {row : Bytes}
    (hmem : row ∈ view viewport bounds rowAt) : row.size = 4 * viewport.width.toNat := by
  obtain ⟨i, hi⟩ := Array.mem_iff_getElem?.mp hmem
  have hlt : i < viewport.height.toNat :=
    size_view viewport bounds rowAt ▸ (Array.getElem?_eq_some_iff.mp hi).1
  obtain ⟨other, hother, hsize, _⟩ := view_getElem viewport hrow hlt
  rw [hi] at hother
  cases hother
  exact hsize

/-- At each point of the viewport a view has the bytes of the rectangle's pixel there, or zeros
where the rectangle does not reach. -/
theorem view_getD {viewport bounds : Rect} {rowAt : Nat → Bytes}
    (hrow : ∀ y < bounds.height.toNat, (rowAt y).size = 4 * bounds.width.toNat) {x y c : Nat}
    (hx : x < viewport.width.toNat) (hy : y < viewport.height.toNat) (hc : c < 4) :
    (Bytes.joinRows (view viewport bounds rowAt)).getD (4 * (viewport.width.toNat * y + x) + c) 0 =
      if bounds.Holds (viewport.left + x) (viewport.top + y) then
        (rowAt (viewport.top + y - bounds.top).toNat).getD
          (4 * (viewport.left + x - bounds.left).toNat + c) 0
      else 0 := by
  obtain ⟨row, hmem, _, hbytes⟩ := view_getElem viewport hrow hy
  have hindex : 4 * (viewport.width.toNat * y + x) + c =
      4 * viewport.width.toNat * y + (4 * x + c) := by
    rw [Nat.mul_add, Nat.mul_assoc]
    omega
  rw [Array.getD_eq_getD_getElem?, hindex,
    Bytes.getElem?_joinRows (fun _ => size_of_mem_view hrow) (by omega), hmem,
    ← hbytes x c hx hc, Array.getD_eq_getD_getElem?]
  rfl

/-! ## Sources -/

namespace PixelSource

/-- A component of a source at a point of the document: the byte of the buffer, which is zero behind
the end of the buffer, where the sampled pixels cover the point, and zero elsewhere. -/
def byteAt (s : PixelSource) (x y : Int) (c : Nat) : UInt8 :=
  if s.rect.left ≤ x ∧ x < s.rect.left + s.width ∧ s.rect.top ≤ y ∧ y < s.rect.top + s.height then
    s.data.getD (((y - s.rect.top) * s.stride + 4 * (x - s.rect.left)).toNat + c) 0
  else 0

/-- The number of bytes of a sampled row. -/
theorem size_row (s : PixelSource) (y : Nat) : (s.row y).size = (4 * s.width).toNat := by
  unfold row Bytes.zeros
  rw [Array.size_append, Array.size_replicate, Array.size_extract]
  omega

/-- A byte of a sampled row. -/
theorem getD_row (s : PixelSource) (y : Nat) {j : Nat} (hj : j < (4 * s.width).toNat) :
    (s.row y).getD j 0 = s.data.getD (s.stride.toNat * y + j) 0 := by
  unfold row
  rw [Array.getD_eq_getD_getElem?, Array.getD_eq_getD_getElem?, Array.getElem?_append]
  split
  · next hfound =>
    rw [Array.getElem?_extract]
    rw [Array.size_extract] at hfound
    rw [if_pos (by omega)]
  · next hmissing =>
    rw [Array.size_extract] at hmissing
    rw [← Array.getD_eq_getD_getElem?, Bytes.getD_zeros,
      Array.getElem?_eq_none (show s.data.size ≤ s.stride.toNat * y + j by omega)]
    rfl

/-- The sampled pixels form a rectangle. -/
theorem bounds_eq_ok {s : PixelSource} (hwidth : 0 ≤ s.width) (hheight : 0 ≤ s.height) :
    ∃ bounds, s.bounds = .ok bounds ∧ bounds.left = s.rect.left ∧ bounds.top = s.rect.top ∧
      bounds.right = s.rect.left + s.width ∧ bounds.bottom = s.rect.top + s.height := by
  unfold bounds Rect.ofSize Rect.ofEdges
  rw [dif_pos (by omega), dif_pos (by omega)]
  exact ⟨_, rfl, rfl, rfl, rfl, rfl⟩

/-- The view of a source has its bytes at each point of the viewport. -/
theorem viewIn_getD {s : PixelSource} (hwidth : 0 ≤ s.width) (hheight : 0 ≤ s.height)
    (viewport : Rect) :
    ∃ rows, s.viewIn viewport = .ok rows ∧ ∀ x y c, x < viewport.width.toNat →
      y < viewport.height.toNat → c < 4 →
        (Bytes.joinRows rows).getD (4 * (viewport.width.toNat * y + x) + c) 0 =
          s.byteAt (viewport.left + x) (viewport.top + y) c := by
  obtain ⟨bounds, hbounds, hleft, htop, hright, hbottom⟩ := bounds_eq_ok hwidth hheight
  refine ⟨view viewport bounds s.row, by rw [viewIn, hbounds]; rfl, fun x y c hx hy hc => ?_⟩
  have hsize : ∀ i < bounds.height.toNat, (s.row i).size = 4 * bounds.width.toNat := by
    intro i _
    rw [size_row, Rect.width, hleft, hright]
    omega
  rw [view_getD hsize hx hy hc, byteAt]
  by_cases hholds : bounds.Holds (viewport.left + x) (viewport.top + y)
  · obtain ⟨hbl, hbr, hbt, hbb⟩ := hholds
    rw [if_pos ⟨hbl, hbr, hbt, hbb⟩, if_pos (by omega)]
    obtain ⟨column, hcolumn⟩ := Int.eq_ofNat_of_zero_le (Int.sub_nonneg.mpr hbl)
    obtain ⟨line, hline⟩ := Int.eq_ofNat_of_zero_le (Int.sub_nonneg.mpr hbt)
    obtain ⟨stride, hstride⟩ := Int.eq_ofNat_of_zero_le (show 0 ≤ s.stride by
      have := s.row_le_stride
      omega)
    rw [hcolumn, hline, getD_row s _ (by omega), ← hleft, ← htop, hcolumn, hline, hstride]
    congr 1
    have hoffset : ((line : Int) * stride + 4 * column).toNat = line * stride + 4 * column := by
      rw [← Int.natCast_mul, show (4 : Int) = (4 : Nat) from rfl, ← Int.natCast_mul,
        ← Int.natCast_add, Int.toNat_natCast]
    rw [hoffset, Int.toNat_natCast, Int.toNat_natCast, Int.toNat_natCast, Nat.mul_comm stride line]
    omega
  · rw [if_neg hholds]
    refine (if_neg fun hcovered => hholds ⟨?_, ?_, ?_, ?_⟩).symm <;> omega

end PixelSource

end LayerBlend
