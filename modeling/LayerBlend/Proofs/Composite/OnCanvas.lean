import LayerBlend.Proofs.Composite.PerPixel
import LayerBlend.Proofs.Pixels.Layout

/-!
# Results on a canvas

* `Picture.pixel` — the pixel of a picture with alpha in a column and a row of its own.
* `Picture.blank` — a transparent picture; `Picture.paste` — a picture with another one laid on it,
  whose pixels replace those below and are cut off at the edges (`Picture.pixel_paste`).
* `BlendResult.onCanvas?_eq_laidOn` — a full result is shown on a canvas by laying its picture on a
  transparent one, with its corner at the place of the result relative to that of the canvas.
* `BlendResult.onCanvas?_keeps_places` — so every point of the canvas shows the pixel that the
  result has at that point of the document, however the two rectangles overlap.
* `composite_onCanvas` — two sources that touch the canvas have a picture, which shows the blend of
  their pixels at each point of the bounding box of what they cover of the canvas.
-/

namespace LayerBlend

/-- The pixel without colour and alpha. -/
def Pixel.transparent : Pixel := ⟨0, 0, 0, 0⟩

/-! ## Pictures with alpha -/

namespace Picture

/-- The pixel of a picture with alpha. -/
def pixel (p : Picture) (column row : Nat) : Pixel :=
  p.data.pixel (p.width * row + column)

/-- A picture that is transparent everywhere. -/
def blank (width height : Nat) : Picture :=
  ⟨.rgba, width, height, Bytes.zeros (4 * (width * height))⟩

/-- The picture has a pixel in the given column and row. -/
def Covers (p : Picture) (column row : Int) : Prop :=
  0 ≤ column ∧ column < p.width ∧ 0 ≤ row ∧ row < p.height

instance (p : Picture) (column row : Int) : Decidable (p.Covers column row) :=
  inferInstanceAs (Decidable (0 ≤ column ∧ column < p.width ∧ 0 ≤ row ∧ row < p.height))

/-- A picture with alpha with another one laid on it, whose corner is at the given column and row.
The pixels of the other picture replace those below; what sticks out is cut off. -/
def paste (p part : Picture) (left top : Int) : Picture :=
  ⟨.rgba, p.width, p.height, Array.ofFn fun k : Fin (4 * (p.width * p.height)) =>
    let column : Int := (k / 4 % p.width : Nat) - left
    let row : Int := (k / 4 / p.width : Nat) - top
    if part.Covers column row then
      part.data.getD (4 * (part.width * row.toNat + column.toNat) + k % 4) 0
    else p.data.getD k 0⟩

theorem pixel_blank (width height column row : Nat) :
    (blank width height).pixel column row = Pixel.transparent := by
  unfold pixel blank Bytes.pixel
  simp only [Bytes.getD_zeros]
  rfl

/-- A picture with another one laid on it keeps its size. -/
theorem size_paste (p part : Picture) (left top : Int) :
    (p.paste part left top).data.size = 4 * (p.width * p.height) :=
  Array.size_ofFn

/-- The components of a pixel lie in front of the end of the bytes. -/
theorem offset_lt {width height column row c : Nat} (hcolumn : column < width)
    (hrow : row < height) (hc : c < 4) :
    4 * (width * row + column) + c < 4 * (width * height) := by
  have hnext : width * (row + 1) ≤ width * height := Nat.mul_le_mul_left _ hrow
  rw [Nat.mul_succ] at hnext
  omega

/-- Every byte of a picture with alpha is a component of one of its pixels. -/
theorem exists_offset {width height k : Nat} (hk : k < 4 * (width * height)) :
    ∃ column row c, column < width ∧ row < height ∧ c < 4 ∧
      k = 4 * (width * row + column) + c := by
  have hplace : k / 4 < width * height := Nat.div_lt_of_lt_mul hk
  have hwidth : 0 < width := Nat.pos_of_ne_zero fun hzero => by simp [hzero] at hplace
  refine ⟨k / 4 % width, k / 4 / width, k % 4, Nat.mod_lt _ hwidth, Nat.div_lt_of_lt_mul hplace,
    Nat.mod_lt _ (by decide), ?_⟩
  rw [Nat.div_add_mod, Nat.div_add_mod]

/-- A byte of a picture with another one laid on it. -/
theorem getD_paste (p part : Picture) (left top : Int) {column row c : Nat}
    (hcolumn : column < p.width) (hrow : row < p.height) (hc : c < 4) :
    (p.paste part left top).data.getD (4 * (p.width * row + column) + c) 0 =
      if part.Covers (column - left) (row - top) then
        part.data.getD (4 * (part.width * (row - top).toNat + (column - left).toNat) + c) 0
      else p.data.getD (4 * (p.width * row + column) + c) 0 := by
  have hwidth : 0 < p.width := Nat.zero_lt_of_lt hcolumn
  have hplace : (4 * (p.width * row + column) + c) / 4 = p.width * row + column := by omega
  have hcomponent : (4 * (p.width * row + column) + c) % 4 = c := by omega
  have hline : (p.width * row + column) / p.width = row := by
    rw [Nat.mul_add_div hwidth, Nat.div_eq_of_lt hcolumn, Nat.add_zero]
  have hrest : (p.width * row + column) % p.width = column := by
    rw [Nat.mul_add_mod, Nat.mod_eq_of_lt hcolumn]
  rw [Array.getD_eq_getD_getElem?, paste, Array.getElem?_ofFn,
    dif_pos (offset_lt hcolumn hrow hc)]
  simp only [hplace, hcomponent, hline, hrest, Option.getD_some]

/-- A pixel of a picture with another one laid on it is that of the other picture where this covers
the place, and otherwise the one below. -/
theorem pixel_paste (p part : Picture) (left top : Int) {column row : Nat}
    (hcolumn : column < p.width) (hrow : row < p.height) :
    (p.paste part left top).pixel column row =
      if part.Covers (column - left) (row - top) then
        part.pixel (column - left).toNat (row - top).toNat
      else p.pixel column row := by
  have hpixel := Bytes.pixel_of_getD fun c (hc : c < 4) =>
    getD_paste p part left top hcolumn hrow hc
  refine hpixel.trans ?_
  split <;> rfl

end Picture

/-! ## Pictures of results -/

namespace BlendResult

variable {r : BlendResult} {part : Picture}

/-- Only a full result has a picture, which has its size and its bytes. -/
theorem toPicture?_eq_some :
    r.toPicture? = some part ↔ r.isFull = true ∧ part = ⟨.rgba, r.width, r.height, r.data⟩ := by
  unfold toPicture?
  split
  · next hfull => simp [hfull, eq_comm]
  · next hfull => simp [hfull]

/-- A byte of the row of a full result at a point that the result covers. -/
theorem getD_row_of_holds (hfull : r.isFull = true) {x y : Int} (hpoint : r.rect.Holds x y)
    {c : Nat} (hc : c < 4) :
    (r.row (y - r.rect.top).toNat).getD (4 * (x - r.rect.left).toNat + c) 0 =
      r.data.getD (4 * (r.width * (y - r.rect.top).toNat + (x - r.rect.left).toNat) + c) 0 := by
  obtain ⟨column, line, rfl, rfl, hcolumn, hline⟩ := hpoint.exists_offsets
  rw [show (r.rect.left + column - r.rect.left).toNat = column by omega,
    show (r.rect.top + line - r.rect.top).toNat = line by omega]
  have hbyte : 4 * column + c < 4 * r.width := by
    unfold width
    omega
  rw [getD_row hfull hline hbyte, Nat.mul_add, Nat.mul_assoc, Nat.add_assoc]

/-- The pixel of a result at a point that it covers is that of its picture in the column and the row
of the point. -/
theorem pixel_of_toPicture? (hpart : r.toPicture? = some part) {x y : Int}
    (hpoint : r.rect.Holds x y) :
    part.pixel (x - r.rect.left).toNat (y - r.rect.top).toNat = r.pixelAt x y := by
  obtain ⟨-, rfl⟩ := toPicture?_eq_some.mp hpart
  obtain ⟨column, line, rfl, rfl, -, -⟩ := hpoint.exists_offsets
  rw [show (r.rect.left + column - r.rect.left).toNat = column by omega,
    show (r.rect.top + line - r.rect.top).toNat = line by omega, pixelAt_offsets]
  rfl

/-! ## Places on a canvas -/

/-- A column and a row of a canvas, counted from the corner of a result that is laid on it, are
those of the point of the document counted from there. -/
theorem toNat_sub_relativeTo (r : BlendResult) (canvas : Rect) (column row : Nat) :
    ((column : Int) - (r.rect.relativeTo canvas).left).toNat =
        (canvas.left + column - r.rect.left).toNat ∧
      ((row : Int) - (r.rect.relativeTo canvas).top).toNat =
        (canvas.top + row - r.rect.top).toNat := by
  obtain ⟨hleft, htop, -, -⟩ := r.rect.relativeTo_edges canvas
  omega

/-- The picture of a result that is laid on a canvas covers a column and a row of it when the result
covers the point of the document. -/
theorem covers_iff_holds (hpart : r.toPicture? = some part) (canvas : Rect) (column row : Nat) :
    part.Covers (column - (r.rect.relativeTo canvas).left)
        (row - (r.rect.relativeTo canvas).top) ↔
      r.rect.Holds (canvas.left + column) (canvas.top + row) := by
  obtain ⟨-, rfl⟩ := toPicture?_eq_some.mp hpart
  obtain ⟨hleft, htop, -, -⟩ := r.rect.relativeTo_edges canvas
  have hwidth : ((r.rect.width.toNat : Nat) : Int) = r.rect.right - r.rect.left :=
    Int.toNat_of_nonneg r.rect.width_nonneg
  have hheight : ((r.rect.height.toNat : Nat) : Int) = r.rect.bottom - r.rect.top :=
    Int.toNat_of_nonneg r.rect.height_nonneg
  unfold Picture.Covers width height
  rw [hleft, htop, hwidth, hheight]
  constructor
  · rintro ⟨hl, hr, ht, hb⟩
    exact ⟨by omega, by omega, by omega, by omega⟩
  · rintro ⟨hl, hr, ht, hb⟩
    omega

/-- The picture that a result is laid on to be shown on a canvas, with the result on it. -/
def laidOn (r : BlendResult) (canvas : Rect) (part : Picture) : Picture :=
  (Picture.blank canvas.width.toNat canvas.height.toNat).paste part
    (r.rect.relativeTo canvas).left (r.rect.relativeTo canvas).top

/-- A full result is shown on a canvas by laying its picture on a transparent one. -/
theorem onCanvas?_eq_laidOn (hpart : r.toPicture? = some part) (canvas : Rect) :
    r.onCanvas? canvas = some (r.laidOn canvas part) := by
  obtain ⟨hfull, hpicture⟩ := toPicture?_eq_some.mp hpart
  have hrow : ∀ y < r.rect.height.toNat, (r.row y).size = 4 * r.rect.width.toNat :=
    fun y hy => size_row hfull hy
  have hsize : (Bytes.joinRows (view canvas r.rect r.row)).size =
      4 * (canvas.width.toNat * canvas.height.toNat) := by
    rw [Bytes.size_joinRows fun _ => size_of_mem_view hrow, size_view, Nat.mul_comm, Nat.mul_assoc]
  unfold onCanvas?
  rw [if_pos (by rw [hfull, Bool.or_true])]
  refine congrArg (fun data => some (Picture.mk .rgba canvas.width.toNat canvas.height.toNat data))
    (Bytes.ext_getD ?_ fun k hk => ?_)
  · exact hsize.trans (Picture.size_paste (.blank _ _) part _ _).symm
  · -- each byte is that of the result at its point of the document, or zero, in both
    obtain ⟨column, line, c, hcolumn, hline, hc, rfl⟩ := Picture.exists_offset (hsize ▸ hk)
    refine (view_getD hrow hcolumn hline hc).trans ?_
    refine Eq.trans ?_ (Picture.getD_paste (.blank _ _) part _ _ hcolumn hline hc).symm
    obtain ⟨hleft, htop⟩ := r.toNat_sub_relativeTo canvas column line
    by_cases hholds : r.rect.Holds (canvas.left + column) (canvas.top + line)
    · rw [if_pos hholds, if_pos ((covers_iff_holds hpart canvas column line).mpr hholds),
        getD_row_of_holds hfull hholds hc, hleft, htop, hpicture]
    · rw [if_neg hholds, if_neg (mt (covers_iff_holds hpart canvas column line).mp hholds)]
      exact (Bytes.getD_zeros _ _).symm

/-- The picture of a result that is laid on a canvas shows it at its place. -/
theorem pixel_laidOn (hpart : r.toPicture? = some part) {canvas : Rect} {i j : Nat}
    (hi : i < canvas.width.toNat) (hj : j < canvas.height.toNat) :
    (r.laidOn canvas part).pixel i j =
      if r.rect.Holds (canvas.left + i) (canvas.top + j) then
        r.pixelAt (canvas.left + i) (canvas.top + j)
      else Pixel.transparent := by
  obtain ⟨hleft, htop⟩ := r.toNat_sub_relativeTo canvas i j
  refine (Picture.pixel_paste (.blank _ _) part _ _ hi hj).trans ?_
  by_cases hholds : r.rect.Holds (canvas.left + i) (canvas.top + j)
  · rw [if_pos hholds, if_pos ((covers_iff_holds hpart canvas i j).mpr hholds), hleft, htop]
    exact pixel_of_toPicture? hpart hholds
  · rw [if_neg hholds, if_neg (mt (covers_iff_holds hpart canvas i j).mp hholds)]
    exact Picture.pixel_blank _ _ _ _

/-- A full result is shown on a canvas at its place. The picture has the size of the canvas, and
each of its pixels is that of the result at the same point of the document, or transparent where the
result does not cover the point. -/
theorem onCanvas?_keeps_places (hfull : r.isFull = true) (canvas : Rect) :
    ∃ picture, r.onCanvas? canvas = some picture ∧ picture.mode = .rgba ∧
      (picture.width : Int) = canvas.width ∧ (picture.height : Int) = canvas.height ∧
      picture.data.size = 4 * (picture.width * picture.height) ∧
      ∀ i j : Nat, i < picture.width → j < picture.height →
        picture.pixel i j =
          if r.rect.Holds (canvas.left + i) (canvas.top + j) then
            r.pixelAt (canvas.left + i) (canvas.top + j)
          else Pixel.transparent := by
  have hpart := toPicture?_eq_some.mpr ⟨hfull, rfl⟩
  exact ⟨_, onCanvas?_eq_laidOn hpart canvas, rfl, Int.toNat_of_nonneg canvas.width_nonneg,
    Int.toNat_of_nonneg canvas.height_nonneg, Picture.size_paste _ _ _ _,
    fun i j hi hj => pixel_laidOn hpart hi hj⟩

/-- A result of two rows that sticks out of a canvas at the left and at the bottom, with the corners
of both away from the origin. -/
theorem onCanvas?_keeps_places_sticking_out :
    let result : BlendResult :=
      ⟨#[1, 2, 3, 4, 5, 6, 7, 8, 9, 10, 11, 12, 13, 14, 15, 16],
        ⟨-4, 2, -2, 4, by decide, by decide⟩⟩
    let canvas : Rect := ⟨-3, 1, 0, 3, by decide, by decide⟩
    ∃ picture, result.onCanvas? canvas = some picture ∧
      (picture.width : Int) = 3 ∧ (picture.height : Int) = 2 ∧
      picture.pixel 0 0 = Pixel.transparent ∧ picture.pixel 0 1 = ⟨5, 6, 7, 8⟩ ∧
      picture.pixel 1 1 = Pixel.transparent := by
  intro result canvas
  obtain ⟨picture, hpicture, -, hwidth, hheight, -, hpixel⟩ :=
    onCanvas?_keeps_places (r := result) (by decide) canvas
  have hcolumns : (picture.width : Int) = 3 := hwidth
  have hrows : (picture.height : Int) = 2 := hheight
  refine ⟨picture, hpicture, hcolumns, hrows, ?_, ?_, ?_⟩
  · exact (hpixel 0 0 (by omega) (by omega)).trans (by decide)
  · exact (hpixel 0 1 (by omega) (by omega)).trans (by decide)
  · exact (hpixel 1 1 (by omega) (by omega)).trans (by decide)

end BlendResult

/-- Two sources that touch the canvas have a picture of its size, when the formula stays within the
nesting limit over pictures. It shows the blend of their pixels
at each point of the bounding box of what they cover of the canvas, and is transparent elsewhere. -/
theorem composite_onCanvas (α : Type) [Arithmetic α] {text : String} {engine : Engine}
    (h : compile text = .ok engine) (hlimit : engine.tree.pictureLevels α ≤ Engine.nestingLimit)
    {base blend : PixelSource} {canvas : Rect}
    (hbase : 0 ≤ base.width ∧ 0 ≤ base.height) (hblend : 0 ≤ blend.width ∧ 0 ≤ blend.height)
    (hcovered : (base.rect.clamp canvas).isEmpty = false)
    (hlaid : (blend.rect.clamp canvas).isEmpty = false) :
    ∃ result picture, composite α base blend canvas engine = .ok result ∧
      result.onCanvas? canvas = some picture ∧
      (picture.width : Int) = canvas.width ∧ (picture.height : Int) = canvas.height ∧
      ∀ i j : Nat, i < picture.width → j < picture.height →
        if ((base.rect.clamp canvas).union (blend.rect.clamp canvas)).Holds
            (canvas.left + i) (canvas.top + j) then
          engine.pixel α (base.pixelAt (canvas.left + i) (canvas.top + j))
            (blend.pixelAt (canvas.left + i) (canvas.top + j)) = .ok (picture.pixel i j)
        else picture.pixel i j = Pixel.transparent := by
  have hplace := Placement.of_eq base.rect blend.rect canvas
  rw [hcovered, hlaid, Bool.or_false, if_neg Bool.false_ne_true] at hplace
  obtain ⟨result, hresult, hrect, hsize, hpixels⟩ :=
    composite_eq_ok (Engine.wellFormed_of_compile h) hbase hblend hplace α hlimit
  have hpart := BlendResult.toPicture?_eq_some.mpr ⟨beq_iff_eq.mpr hsize, rfl⟩
  refine ⟨result, _, hresult, BlendResult.onCanvas?_eq_laidOn hpart canvas,
    Int.toNat_of_nonneg canvas.width_nonneg, Int.toNat_of_nonneg canvas.height_nonneg,
    fun i j hi hj => ?_⟩
  rw [BlendResult.pixel_laidOn hpart hi hj, hrect]
  split
  · next hholds => exact hpixels _ _ (hrect ▸ hholds)
  · rfl

end LayerBlend
