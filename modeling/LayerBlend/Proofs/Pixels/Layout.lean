import LayerBlend.Pixels.Result
import LayerBlend.Proofs.Pixels.Viewing

/-!
# How pixel buffers are laid out

* `four_dvd_inferStride`, `inferStride_of_rows` — an inferred stride is a whole number of pixels,
  and the length of the rows when there is nothing but rows of that length.
* `PixelSource.rows_spec` — the sampled rows: how many there are, how long they are, and which byte
  of the buffer each of their bytes is.
* `PixelSource.rows_of_joinRows` — rows that are laid one behind the other are read back without the
  stride being given, each cut to the sampled width.
* `BlendResult.joinRows_rows` — the rows of a result, laid one behind the other, are its bytes.
* `PixelSource.reads_layout` — pixel buffers are read back as they were laid out.
-/

namespace LayerBlend

/-! ## Strides -/

/-- An inferred stride is a whole number of pixels. -/
theorem four_dvd_inferStride (length width height : Int) :
    4 ∣ inferStride length width height := by
  simp only [inferStride]
  split
  · exact Int.dvd_mul_right 4 width
  · split
    · next h => exact Int.dvd_of_emod_eq_zero h.2
    · exact Int.dvd_mul_right 4 width

/-- The stride of a buffer of rows is the length of a row. -/
theorem inferStride_of_rows {count stride width : Int} (hcount : 0 < count) (hstride : 4 ∣ stride)
    (hwidth : 4 * width ≤ stride) : inferStride (count * stride) width count = stride := by
  have hshare : count * stride / count = stride :=
    Int.mul_ediv_cancel_left stride (Int.ne_of_gt hcount)
  simp only [inferStride, hshare]
  rw [if_neg (Int.not_le.mpr hcount), if_pos ⟨hwidth, Int.emod_eq_zero_of_dvd hstride⟩]

namespace Bytes

/-! ## Rows laid one behind the other -/

/-- Sequences of one length with the same bytes are the same. -/
theorem ext_getD {a b : Bytes} (hsize : a.size = b.size)
    (h : ∀ i < a.size, a.getD i 0 = b.getD i 0) : a = b := by
  apply Array.ext hsize
  intro i hi hi'
  have hbyte := h i hi
  rwa [Array.getD_eq_getD_getElem?, Array.getD_eq_getD_getElem?, Array.getElem?_eq_getElem hi,
    Array.getElem?_eq_getElem hi'] at hbyte

/-- The number of bytes of rows of one length. -/
theorem size_joinRows {count : Nat} {rows : Array Bytes} (h : ∀ row ∈ rows, row.size = count) :
    (joinRows rows).size = rows.size * count := by
  have hlengths : (rows.toList.map Array.toList).map List.length =
      List.replicate rows.size count := by
    apply List.eq_replicate_iff.mpr
    constructor
    · simp
    · intro length hlength
      obtain ⟨list, hlist, rfl⟩ := List.mem_map.mp hlength
      obtain ⟨row, hrow, rfl⟩ := List.mem_map.mp hlist
      exact h row (Array.mem_toList_iff.mp hrow)
  have hjoin : (joinRows rows).toList = (rows.toList.map Array.toList).flatten :=
    Array.toList_flatten
  rw [← Array.length_toList, hjoin, List.length_flatten, hlengths, List.sum_replicate_nat]

/-- A byte of rows of one length, zero where there is no row. -/
theorem getD_joinRows {count : Nat} {rows : Array Bytes} (h : ∀ row ∈ rows, row.size = count)
    {y j : Nat} (hj : j < count) {row : Bytes} (hrow : rows[y]? = some row) :
    (joinRows rows).getD (count * y + j) 0 = row.getD j 0 := by
  rw [Array.getD_eq_getD_getElem?, getElem?_joinRows h hj, hrow, Array.getD_eq_getD_getElem?]
  rfl

end Bytes

namespace PixelSource

variable {s : PixelSource}

/-! ## Sampled rows -/

theorem rows_getElem? {y : Nat} (hy : y < s.height.toNat) : s.rows[y]? = some (s.row y) := by
  unfold rows
  rw [Array.getElem?_ofFn, dif_pos hy]

/-- The byte of the buffer for a byte of a sampled row lies between the start of the row and the
start of the next one. -/
theorem offset_bounds (s : PixelSource) (y : Nat) {x c : Nat} (hx : x < s.width.toNat)
    (hc : c < 4) :
    s.stride.toNat * y ≤ s.stride.toNat * y + (4 * x + c) ∧
      s.stride.toNat * y + (4 * x + c) < s.stride.toNat * (y + 1) := by
  have hrow := s.row_le_stride
  rw [Nat.mul_succ]
  omega

/-- The sampled rows: as many as are sampled, each with four bytes for each sampled pixel. The byte
of a pixel is that of the buffer between the start of the row and the start of the next one, and
zero behind the end of the buffer. -/
theorem rows_spec (hwidth : 0 ≤ s.width) (hheight : 0 ≤ s.height) :
    (s.rows.size : Int) = s.height ∧
    ∀ y : Nat, y < s.height → ∃ row, s.rows[y]? = some row ∧ (row.size : Int) = 4 * s.width ∧
      ∀ x c : Nat, x < s.width → c < 4 → ∃ offset : Nat,
        (offset : Int) = y * s.stride + 4 * x + c ∧
        y * s.stride ≤ offset ∧ offset < (y + 1) * s.stride ∧
        row.getD (4 * x + c) 0 = s.data.getD offset 0 := by
  constructor
  · unfold rows
    rw [Array.size_ofFn]
    exact Int.toNat_of_nonneg hheight
  · intro y hy
    refine ⟨s.row y, rows_getElem? (by omega), ?_, fun x c hx hc => ?_⟩
    · rw [size_row]
      omega
    · obtain ⟨hstart, hend⟩ := s.offset_bounds y (x := x) (by omega) hc
      have hstride : ((s.stride.toNat : Nat) : Int) = s.stride := by
        have := s.row_le_stride
        omega
      refine ⟨s.stride.toNat * y + (4 * x + c), ?_, ?_, ?_, getD_row s y (by omega)⟩
      · push_cast
        rw [hstride, Int.mul_comm]
        omega
      · rw [← hstride, Int.mul_comm]
        exact_mod_cast hstart
      · rw [← hstride, Int.mul_comm]
        exact_mod_cast hend

/-- Rows that are laid one behind the other are sampled as they are, each cut to the sampled
width. -/
theorem row_of_joinRows {count : Nat} {rows : Array Bytes}
    (hrows : ∀ row ∈ rows, row.size = count) (hdata : s.data = Bytes.joinRows rows)
    (hstride : s.stride = count) {y : Nat} {row : Bytes} (hrow : rows[y]? = some row) :
    s.row y = row.extract 0 (4 * s.width.toNat) := by
  have hcount := s.row_le_stride
  have hsize : row.size = count := hrows row (Array.mem_of_getElem? hrow)
  apply Bytes.ext_getD
  · rw [size_row, Array.size_extract]
    omega
  · intro j hj
    rw [size_row] at hj
    rw [getD_row s y hj, hdata, hstride, Int.toNat_natCast,
      Bytes.getD_joinRows hrows (by omega) hrow, Array.getD_eq_getD_getElem?,
      Array.getD_eq_getD_getElem?, Array.getElem?_extract, if_pos (by omega), Nat.zero_add]

/-- Rows of one length, a whole number of pixels with room for the sampled width, are read back
without the stride being given. -/
theorem rows_of_joinRows {count : Nat} {rows : Array Bytes} (hpos : 0 < rows.size)
    (hrows : ∀ row ∈ rows, row.size = count) (hcount : 4 ∣ count)
    (hdata : s.data = Bytes.joinRows rows) (hheight : s.height = rows.size)
    (hwidth : 4 * s.width ≤ count) (hstride : s.stride = inferStride s.data.size s.width s.height) :
    s.rows = rows.map fun row => row.extract 0 (4 * s.width.toNat) := by
  have hinferred : s.stride = count := by
    rw [hstride, hdata, Bytes.size_joinRows hrows, hheight, Int.natCast_mul]
    exact inferStride_of_rows (by omega) (Int.natCast_dvd_natCast.mpr hcount) hwidth
  apply Array.ext_getElem?
  intro y
  rw [Array.getElem?_map]
  by_cases hy : y < rows.size
  · have hrow := Array.getElem?_eq_getElem hy
    rw [rows_getElem? (by omega), hrow, row_of_joinRows hrows hdata hinferred hrow]
    rfl
  · have hsize : s.rows.size = rows.size := by
      unfold PixelSource.rows
      rw [Array.size_ofFn]
      omega
    rw [Array.getElem?_eq_none (by omega), Array.getElem?_eq_none (by omega)]
    rfl

end PixelSource

/-! ## Results -/

namespace BlendResult

variable {r : BlendResult}

theorem size_rows (r : BlendResult) : r.rows.size = r.height :=
  Array.size_ofFn

theorem rows_getElem? {y : Nat} (hy : y < r.height) : r.rows[y]? = some (r.row y) := by
  unfold rows
  rw [Array.getElem?_ofFn, dif_pos hy]

/-- A row of a full result ends in front of the end of the bytes. -/
theorem row_end_le (hfull : r.isFull = true) {y : Nat} (hy : y < r.height) :
    4 * r.width * (y + 1) ≤ r.data.size := by
  have hsize : r.data.size = 4 * (r.width * r.height) := beq_iff_eq.mp hfull
  rw [hsize, ← Nat.mul_assoc]
  exact Nat.mul_le_mul_left _ hy

/-- A row of a full result has four bytes for each pixel. -/
theorem size_row (hfull : r.isFull = true) {y : Nat} (hy : y < r.height) :
    (r.row y).size = 4 * r.width := by
  rw [row, Array.size_extract, Nat.min_eq_left (row_end_le hfull hy), Nat.mul_succ,
    Nat.add_sub_cancel_left]

/-- A byte of a row of a full result. -/
theorem getD_row (hfull : r.isFull = true) {y j : Nat} (hy : y < r.height) (hj : j < 4 * r.width) :
    (r.row y).getD j 0 = r.data.getD (4 * r.width * y + j) 0 := by
  rw [row, Array.getD_eq_getD_getElem?, Array.getD_eq_getD_getElem?, Array.getElem?_extract,
    if_pos ?_]
  rw [Nat.min_eq_left (row_end_le hfull hy), Nat.mul_succ]
  omega

/-- The rows of a full result have four bytes for each pixel. -/
theorem size_of_mem_rows (hfull : r.isFull = true) {row : Bytes} (hrow : row ∈ r.rows) :
    row.size = 4 * r.width := by
  obtain ⟨y, hy, rfl⟩ := Array.mem_iff_getElem.mp hrow
  have hheight : y < r.height := r.size_rows ▸ hy
  have hitem : r.rows[y] = r.row y := by
    apply Option.some_inj.mp
    rw [← Array.getElem?_eq_getElem, rows_getElem? hheight]
  rw [hitem, size_row hfull hheight]

/-- The rows of a full result, laid one behind the other, are its bytes. -/
theorem joinRows_rows (hfull : r.isFull = true) : Bytes.joinRows r.rows = r.data := by
  have hsize : r.data.size = r.rows.size * (4 * r.width) := by
    rw [size_rows, Nat.mul_comm, Nat.mul_assoc]
    exact beq_iff_eq.mp hfull
  have hrows := fun row (hrow : row ∈ r.rows) => size_of_mem_rows hfull hrow
  have hjoined := Bytes.size_joinRows hrows
  apply Bytes.ext_getD (hjoined.trans hsize.symm)
  intro i hi
  rw [hjoined, size_rows, Nat.mul_comm] at hi
  have hpos : 0 < 4 * r.width := by
    apply Nat.pos_of_ne_zero
    intro hzero
    rw [hzero, Nat.zero_mul] at hi
    exact Nat.not_lt_zero i hi
  have hline : i / (4 * r.width) < r.height := Nat.div_lt_of_lt_mul hi
  have hcolumn : i % (4 * r.width) < 4 * r.width := Nat.mod_lt i hpos
  -- the byte lies in the row of its quotient, at the place of its remainder
  rw [← Nat.div_add_mod i (4 * r.width), Bytes.getD_joinRows hrows hcolumn (rows_getElem? hline),
    getD_row hfull hline hcolumn]

/-- A full result is sampled as its rows. -/
theorem rows_of_isFull (hfull : r.isFull = true) {s : PixelSource} (hdata : s.data = r.data)
    (hwidth : s.width = r.rect.width) (hheight : s.height = r.rect.height)
    (hstride : s.stride = inferStride s.data.size s.width s.height) : s.rows = r.rows := by
  have hcolumns : s.width.toNat = r.width := congrArg Int.toNat hwidth
  have hlines : s.height = r.rows.size := by
    rw [hheight, size_rows, height, Int.toNat_of_nonneg r.rect.height_nonneg]
  rcases Nat.eq_zero_or_pos r.rows.size with hnone | hpos
  · have hempty : s.rows.size = 0 := by
      unfold PixelSource.rows
      rw [Array.size_ofFn]
      omega
    rw [Array.eq_empty_of_size_eq_zero hempty, Array.eq_empty_of_size_eq_zero hnone]
  · have hrows := fun row (hrow : row ∈ r.rows) => size_of_mem_rows hfull hrow
    have hread := PixelSource.rows_of_joinRows hpos hrows (Nat.dvd_mul_right 4 r.width)
      (hdata.trans (joinRows_rows hfull).symm) hlines (by omega) hstride
    have hwhole : ∀ row ∈ r.rows, row.extract 0 (4 * s.width.toNat) = row := by
      intro row hrow
      rw [hcolumns, ← hrows row hrow, Array.extract_size]
    rw [hread, Array.map_congr_left hwhole, Array.map_id']

end BlendResult

/-- Pixel buffers are read back as they were laid out. A stride that is not given is a whole number
of pixels with room for the sampled width. Whatever the stride, the sampled rows have the bytes of
the buffer from the start of each row on, zeros behind its end, and none from behind the start of
the next row. So rows of one length, a whole number of pixels with room for the sampled width, are
read back without their length being given, each cut to the sampled width; and a full result is read
back as its rows, which are its bytes. -/
theorem PixelSource.reads_layout :
    (∀ (data : Bytes) (rect : Rect) (width? height? : Option Int), ∃ s : PixelSource,
      make data rect width? height? none = .ok s ∧ s.data = data ∧ s.rect = rect ∧
        s.width = width?.getD rect.width ∧ s.height = height?.getD rect.height ∧
        4 ∣ s.stride ∧ 4 * s.width ≤ s.stride) ∧
    (∀ s : PixelSource, 0 ≤ s.width → 0 ≤ s.height →
      (s.rows.size : Int) = s.height ∧
      ∀ y : Nat, y < s.height → ∃ row, s.rows[y]? = some row ∧ (row.size : Int) = 4 * s.width ∧
        ∀ x c : Nat, x < s.width → c < 4 → ∃ offset : Nat,
          (offset : Int) = y * s.stride + 4 * x + c ∧
          y * s.stride ≤ offset ∧ offset < (y + 1) * s.stride ∧
          row.getD (4 * x + c) 0 = s.data.getD offset 0) ∧
    (∀ (rows : Array Bytes) (count : Nat) (rect : Rect) (width? height? : Option Int),
      0 < rows.size → (∀ row ∈ rows, row.size = count) → 4 ∣ count →
      height?.getD rect.height = rows.size → 0 ≤ width?.getD rect.width →
      4 * width?.getD rect.width ≤ count → ∃ s,
        make (Bytes.joinRows rows) rect width? height? none = .ok s ∧
          s.rows = rows.map fun row => row.extract 0 (4 * (width?.getD rect.width).toNat)) ∧
    ∀ result : BlendResult, result.isFull = true → ∃ s,
      make result.data result.rect none none none = .ok s ∧ s.rows = result.rows ∧
        Bytes.joinRows s.rows = result.data := by
  refine ⟨fun data rect width? height? => ?_, fun s hwidth hheight => rows_spec hwidth hheight,
    fun rows count rect width? height? hpos hrows hcount hheight hwidth hroom => ?_,
    fun result hfull => ?_⟩
  · exact ⟨_, rfl, rfl, rfl, rfl, rfl, four_dvd_inferStride _ _ _, row_le_inferStride _ _ _⟩
  · exact ⟨_, rfl, rows_of_joinRows hpos hrows hcount rfl hheight hroom rfl⟩
  · have hread : (filling result.data result.rect).rows = result.rows :=
      BlendResult.rows_of_isFull hfull rfl rfl rfl rfl
    refine ⟨filling result.data result.rect, rfl, hread, ?_⟩
    rw [hread]
    exact BlendResult.joinRows_rows hfull

/-- Two rows of one pixel with four bytes behind each are read back without their length being
given, a result of two pixels is read back as its bytes, and a buffer that ends in its second row
has two rows. -/
theorem PixelSource.reads_layout_padded :
    let rect := Rect.fromOrigin 1 2
    let rows : Array Bytes := #[#[1, 2, 3, 4, 0, 0, 0, 0], #[5, 6, 7, 8, 0, 0, 0, 0]]
    let short := filling #[1, 2, 3, 4, 5] rect
    (∃ s, make (Bytes.joinRows rows) rect none none none = .ok s ∧
      s.rows = rows.map fun row => row.extract 0 4) ∧
    (∃ s, make #[1, 2, 3, 4, 5, 6, 7, 8] rect none none none = .ok s ∧
      Bytes.joinRows s.rows = #[1, 2, 3, 4, 5, 6, 7, 8]) ∧
    ∃ row, short.rows[1]? = some row ∧ (row.size : Int) = 4 * short.width := by
  intro rect rows short
  obtain ⟨-, hsampled, hpadded, hresult⟩ := reads_layout
  have hshort : 0 ≤ short.width ∧ 0 ≤ short.height ∧ ((1 : Nat) : Int) < short.height := by
    decide
  refine ⟨?_, ?_, ?_⟩
  · exact hpadded rows 8 rect none none (by decide) (by decide) (by decide) (by decide) (by decide)
      (by decide)
  · obtain ⟨s, hmake, -, hjoin⟩ := hresult ⟨#[1, 2, 3, 4, 5, 6, 7, 8], rect⟩ (by decide)
    exact ⟨s, hmake, hjoin⟩
  · obtain ⟨row, hrow, hsize, -⟩ := (hsampled short hshort.1 hshort.2.1).2 1 hshort.2.2
    exact ⟨row, hrow, hsize⟩

end LayerBlend
