import LayerBlend.Proofs.Arithmetic.Parts
import LayerBlend.Proofs.Composite.ChannelBytes
import LayerBlend.Proofs.Composite.Mirror
import LayerBlend.Proofs.Formula.Safety

/-!
# What is cast to bytes

No number that a blend casts to a byte is out of range, infinite or NaN.

* `Double.isUnit_iff` — a double in `[0, 1]` is one that stands for a number up to one.
* `Double.isUnit_straighten` — the straight colour of a clipped colour under a clipped alpha is in
  `[0, 1]`: the colour is lowered to the alpha before the division, and nothing is divided by zero.
* `Double.scaled_spec` — a number in `[0, 1]` is scaled to a whole number from 0 to 255, which is
  the one of its byte.
* `Composite.Quantized` — all this of the bytes of a viewport, and `composite_quantized` of the
  bytes of every result.
-/

namespace LayerBlend

open Arithmetic

/-- The number that is cast to a byte for a number from zero to one. -/
def Arithmetic.scaled {α : Type} [Arithmetic α] (x : α) : α :=
  floor (add (mul x fullByte) half)

/-! ## Doubles from zero to one -/

namespace Double

open Float.Model

/-- A finite double that is not negative stands for a number. -/
theorem exists_stands {x : Float} (hfinite : x.isFinite = true) (hnonneg : (0 : Float) ≤ x) :
    ∃ q, Stands x q := by
  have hparts := parts_eq x
  have hle : (UnpackedFloat.zero .positive).compare x.toModel.unpack |>.any (·.isLE) :=
    of_decide_eq_true hnonneg
  unfold Float.isFinite Float.Model.isFinite at hfinite
  unfold Stands
  cases hx : x.toModel.unpack with
  | notANumber =>
    rw [hx] at hfinite
    cases hfinite
  | infinity s =>
    rw [hx] at hfinite
    cases hfinite
  | zero s => exact ⟨0, .zero s⟩
  | finite s m e hm =>
    rw [hx] at hle hparts
    cases s with
    | positive => exact ⟨m * 2 ^ e, .finite hm (canonical_of_parts hparts).1⟩
    | negative => cases hle

/-- The doubles from zero to one are those that stand for a number up to one. -/
theorem isUnit_iff {x : Float} : IsUnit x ↔ ∃ q ≤ 1, Stands x q := by
  constructor
  · intro h
    obtain ⟨q, hq⟩ := exists_stands h.finite h.nonneg
    exact ⟨q, (hq.le_iff stands_one).mp h.le_one, hq⟩
  · rintro ⟨q, hle, hq⟩
    exact ⟨hq.isFinite, (stands_zero.le_iff hq).mpr hq.nonneg, (hq.le_iff stands_one).mpr hle⟩

/-- The smaller of two doubles stands for the smaller number. -/
theorem Stands.minimum {x y : Float} {p q : ℚ} (hx : Stands x p) (hy : Stands y q) :
    Stands (minimum x y) (min p q) := by
  have hnan : isNaN x = false := not_isNaN_of_isFinite hx.isFinite
  unfold Arithmetic.minimum
  rw [hnan, Bool.or_false]
  by_cases hle : p ≤ q
  · have hlessEq : lessEq x y = true := decide_eq_true ((hx.le_iff hy).mpr hle)
    rw [hlessEq, if_pos rfl, min_eq_left hle]
    exact hx
  · have hlessEq : lessEq x y = false := decide_eq_false (mt (hx.le_iff hy).mp hle)
    rw [hlessEq, if_neg Bool.false_ne_true, min_eq_right (not_le.mp hle).le]
    exact hy

section

variable {c a : Float}

/-- Above a positive alpha there is the quotient of the colour, lowered to the alpha. -/
theorem straighten_of_pos (ha : 0 < a) : straighten c a = minimum c a / a := by
  have hless : less zero a = true := decide_eq_true ha
  rw [straighten, if_pos hless]
  rfl

/-- An alpha that is not positive is zero, and so is the colour. -/
theorem straighten_of_not_pos (hunit : IsUnit a) (ha : ¬ 0 < a) :
    Stands a 0 ∧ straighten c a = 0 := by
  obtain ⟨q, -, hq⟩ := isUnit_iff.mp hunit
  constructor
  · have hzero : q = 0 := le_antisymm (not_lt.mp (mt (stands_zero.lt_iff hq).mpr ha)) hq.nonneg
    rwa [hzero] at hq
  · have hless : less zero a = false := decide_eq_false ha
    rw [straighten, hless, if_neg Bool.false_ne_true]
    rfl

/-- A straight colour is a number from zero to one. -/
theorem isUnit_straighten (hc : IsUnit c) (ha : IsUnit a) : IsUnit (straighten c a) := by
  by_cases hpos : 0 < a
  · obtain ⟨p, -, hp⟩ := isUnit_iff.mp hc
    obtain ⟨q, -, hq⟩ := isUnit_iff.mp ha
    have hqpos : 0 < q := (stands_zero.lt_iff hq).mp hpos
    have hle : min p q / q ≤ 1 := (div_le_one hqpos).mpr (min_le_right p q)
    obtain ⟨v, hv, hquotient⟩ := (hp.minimum hq).div hq hqpos (le_range (by linarith))
    have hone := hv.le (representable_natCast (n := 1) (by norm_num))
    rw [Nat.cast_one] at hone
    rw [straighten_of_pos hpos]
    exact isUnit_iff.mpr ⟨v, hone hle, hquotient⟩
  · rw [(straighten_of_not_pos ha hpos).2]
    exact isUnit_zero

end

/-- A number from zero to one is scaled to a whole number from 0 to 255, the one of its byte. -/
theorem scaled_spec {x : Float} (h : IsUnit x) :
    ∃ n : ℕ, n ≤ 255 ∧ Stands (scaled x) n ∧ (toByte (scaled x)).toNat = n := by
  obtain ⟨q, hq, hx⟩ := isUnit_iff.mp h
  obtain ⟨v, hv, hproduct⟩ := hx.mul stands_fullByte (le_range (by linarith))
  have hfull := hv.le (representable_natCast (n := 255) (by norm_num))
  have hproduct_le : v ≤ 255 := by
    apply hfull
    push_cast
    linarith
  obtain ⟨s, hs, hsum⟩ := hproduct.add stands_half (le_range (by linarith))
  have hsum_le : s ≤ (511 : ℕ) / 2 ^ 1 := by
    apply hs.le (representable_fraction 511 1 (by norm_num) (by norm_num))
    push_cast
    linarith
  -- rounding half up cannot reach the number behind the last byte
  have hfloor : ⌊s⌋₊ ≤ 255 := by
    apply Nat.le_of_lt_succ
    rw [Nat.floor_lt hsum.nonneg]
    push_cast at hsum_le ⊢
    linarith
  have hwhole := hsum.floor
  have hbyte := hwhole.toUInt8
  rw [Nat.floor_natCast] at hbyte
  refine ⟨⌊s⌋₊, hfloor, hwhole, ?_⟩
  show (Float.toUInt8 (Double.floor (x * fullByte + half))).toNat = _
  rw [hbyte, UInt8.ofNatClamp, dif_pos (Nat.lt_succ_of_le hfloor)]
  exact UInt8.toNat_ofNatLT

end Double

/-! ## Numbers of a viewport -/

/-- The cells of a block of numbers from zero to one, and those behind it. -/
theorem Samples.isUnit_cell {s : Samples Float} (h : ∀ x ∈ s.cells, Double.IsUnit x) (i : Nat) :
    Double.IsUnit (s.cell i) := by
  unfold cell
  rw [Array.getD_eq_getD_getElem?]
  cases hcell : s.cells[i]? with
  | none => exact Double.isUnit_zero
  | some x => exact h x (Array.mem_of_getElem? hcell)

namespace Composite

variable {α : Type} [Arithmetic α]

/-- The numbers from zero to one of the pixels of a viewport, four for each pixel: its straight
colours and its alpha. -/
def numbers (shape : Shape) (alpha : Samples α) (values : List (Samples α)) : Array α :=
  Array.ofFn fun i : Fin (4 * shape.size) =>
    match (values.take 3)[i.val % 4]? with
    | some color => straighten (color.read shape (i / 4)) (alpha.cell (i / 4))
    | none => alpha.cell (i / 4)

/-- The bytes of a viewport are what its numbers are cast to. -/
theorem outputBytes_eq (shape : Shape) (alpha : Samples α) (values : List (Samples α)) :
    outputBytes shape alpha values = ((numbers shape alpha values).map scaled).map toByte := by
  apply Array.ext
  · simp [outputBytes, numbers]
  · intro i hi hi'
    have hlt : i < 4 * shape.size := by
      rw [outputBytes, Array.size_ofFn] at hi
      exact hi
    have hplace : i / 4 < shape.size := by omega
    simp only [outputBytes, numbers, Array.getElem_ofFn, Array.getElem_map, List.getElem?_map]
    cases (values.take 3)[i % 4]? with
    | none => rfl
    | some color =>
      show toChannelByte (straighten ((color.stretch shape).cell (i / 4)) _) = _
      rw [Samples.cell_stretch hplace]
      rfl

/-- The bytes of a viewport come from numbers from zero to one. -/
structure Quantized (shape : Shape) (alpha : Samples Float) (values : List (Samples Float))
    (data : Bytes) : Prop where
  /-- Each byte is what a number is cast to. -/
  data_eq : data = ((numbers shape alpha values).map scaled).map toByte
  /-- The alpha of each pixel is in `[0, 1]`. -/
  alpha_unit : ∀ p < shape.size, Double.IsUnit (alpha.cell p)
  /-- Where the alpha is positive, a straight colour is the quotient of the colour, lowered to the
  alpha, and is in `[0, 1]`. -/
  quotient : ∀ color ∈ values.take 3, ∀ p < shape.size, 0 < alpha.cell p →
    straighten (color.read shape p) (alpha.cell p) =
      minimum (color.read shape p) (alpha.cell p) / alpha.cell p ∧
    Double.IsUnit (minimum (color.read shape p) (alpha.cell p) / alpha.cell p)
  /-- Everywhere else the alpha is zero, and the straight colour is zero and no quotient. -/
  masked : ∀ color ∈ values.take 3, ∀ p < shape.size, ¬ 0 < alpha.cell p →
    Double.Stands (alpha.cell p) 0 ∧ straighten (color.read shape p) (alpha.cell p) = 0
  /-- Each number is in `[0, 1]`, and what is cast for it is a whole number from 0 to 255, the one
  of its byte. -/
  whole : ∀ x ∈ numbers shape alpha values, Double.IsUnit x ∧
    ∃ n : ℕ, n ≤ 255 ∧ Double.Stands (scaled x) n ∧ (toByte (scaled x)).toNat = n

/-- Clipped values and a clipped alpha become bytes without wrapping. -/
theorem quantized_of_isUnit {shape : Shape} {alpha : Samples Float} {values : List (Samples Float)}
    (halpha : ∀ i, Double.IsUnit (alpha.cell i))
    (hvalues : ∀ color ∈ values, ∀ x ∈ color.cells, Double.IsUnit x) :
    Quantized shape alpha values (outputBytes shape alpha values) := by
  have hcolor : ∀ color ∈ values.take 3, ∀ p, Double.IsUnit (color.read shape p) :=
    fun color hmem p => Samples.isUnit_cell (hvalues color (List.mem_of_mem_take hmem)) _
  have hunit : ∀ x ∈ numbers shape alpha values, Double.IsUnit x := by
    intro x hx
    obtain ⟨i, rfl⟩ := Array.mem_ofFn.mp hx
    cases hmem : (values.take 3)[i.val % 4]? with
    | none => exact halpha _
    | some color =>
      exact Double.isUnit_straighten (hcolor color (List.mem_of_getElem? hmem) _) (halpha _)
  exact {
    data_eq := outputBytes_eq shape alpha values
    alpha_unit := fun p _ => halpha p
    quotient := fun color hmem p _ hpos => by
      have hstraight := Double.isUnit_straighten (hcolor color hmem p) (halpha p)
      rw [Double.straighten_of_pos hpos] at hstraight
      exact ⟨Double.straighten_of_pos hpos, hstraight⟩
    masked := fun color _ p _ hpos => Double.straighten_of_not_pos (halpha p) hpos
    whole := fun x hx => ⟨hunit x hx, Double.scaled_spec (hunit x hx)⟩ }

/-- The alpha of a blend is in `[0, 1]`, whether the formula gives it or not. -/
theorem isUnit_outputAlpha (engine : Engine) (shape : Shape) (base blend : Bytes)
    (values : List (Samples Float)) (i : Nat) :
    Double.IsUnit ((outputAlpha engine shape base blend values).cell i) := by
  apply Samples.isUnit_cell
  intro x hx
  obtain ⟨j, rfl⟩ := Array.mem_ofFn.mp hx
  apply Samples.isUnit_cell
  intro y hy
  obtain ⟨z, -, rfl⟩ := Array.mem_map.mp hy
  exact Double.isUnit_normalize z

end Composite

/-! ## Results -/

/-- The values of a formula are the clipped blocks that its tree gives. -/
theorem Engine.WellFormed.blocks_of_call {α : Type} [Arithmetic α] {engine : Engine}
    (hwell : engine.WellFormed) {channels : Channels α} {S : Shape} (hS : channels.Uniform S)
    {values : List (Samples α)} (h : engine.call channels = .ok values) :
    ∃ blocks, engine.tree.value channels = .ok (.parts blocks) ∧ blocks.length = engine.arity ∧
      values = blocks.map (Samples.map Arithmetic.normalize) := by
  obtain ⟨blocks, hblocks, hlength, -⟩ := hwell.value_represents hS (Node.self_mem_results _)
  refine ⟨blocks, hblocks, hlength, ?_⟩
  unfold call at h
  rw [Node.valueWithin_eq nestingLimit hblocks] at h
  by_cases hlevels : engine.tree.levels channels ≤ nestingLimit
  · rw [within_of_le hlevels] at h
    exact (Except.ok.inj h).symm
  · rw [within_of_lt (Nat.not_le.mp hlevels)] at h
    cases h

section

variable {α : Type} [Arithmetic α] {base blend : PixelSource} {canvas : Rect} {engine : Engine}
  {result : BlendResult}

open Composite in
/-- A result holds the bytes of the values of the formula for the two layers in its rectangle. -/
theorem views_of_composite (h : composite α base blend canvas engine = .ok result) :
    ∃ (rows others : Array Bytes) (values : List (Samples α)),
      base.viewIn result.rect = .ok rows ∧ blend.viewIn result.rect = .ok others ∧
      engine.call (channels [result.width, result.height] (Bytes.joinRows rows)
        (Bytes.joinRows others)) = .ok values ∧
      result.data = outputBytes [result.width, result.height]
        (outputAlpha engine [result.width, result.height] (Bytes.joinRows rows)
          (Bytes.joinRows others) values) values := by
  obtain ⟨place, -, hviews⟩ := bind_eq_ok.mp h
  obtain ⟨rows, hrows, hviews⟩ := bind_eq_ok.mp hviews
  obtain ⟨others, hothers, hcall⟩ := bind_eq_ok.mp hviews
  obtain ⟨values, hvalues, hpure⟩ := bind_eq_ok.mp hcall
  cases hpure
  exact ⟨rows, others, values, eq_ok_of_mapError hrows, eq_ok_of_mapError hothers,
    eq_ok_of_mapError hvalues, rfl⟩

end

open Composite in
/-- The blend of two layers never casts a number that is out of range: whatever a compiled formula
gives, its values are clipped first, the alpha of the result is in `[0, 1]` for both arities, each
straight colour is so too, and each number that is cast is a whole one from 0 to 255. -/
theorem composite_quantized {text : String} {engine : Engine} (h : compile text = .ok engine)
    {base blend : PixelSource} {canvas : Rect} {result : BlendResult}
    (hresult : composite Float base blend canvas engine = .ok result) :
    ∃ (rows others : Array Bytes) (blocks : List (Samples Float)),
      base.viewIn result.rect = .ok rows ∧ blend.viewIn result.rect = .ok others ∧
      let shape := [result.width, result.height]
      let lower := Bytes.joinRows rows
      let upper := Bytes.joinRows others
      let values := blocks.map (Samples.map Arithmetic.normalize)
      engine.tree.value (channels shape lower upper) = .ok (.parts blocks) ∧
      (blocks.length = 3 ∨ blocks.length = 4) ∧
      Quantized shape (outputAlpha engine shape lower upper values) values result.data := by
  obtain ⟨rows, others, values, hrows, hothers, hcall, hdata⟩ := views_of_composite hresult
  have hwell := Engine.wellFormed_of_compile h
  obtain ⟨blocks, hblocks, hlength, rfl⟩ := hwell.blocks_of_call (uniform_channels _ _ _) hcall
  refine ⟨rows, others, blocks, hrows, hothers, hblocks, hlength ▸ hwell.arity, ?_⟩
  rw [hdata]
  apply quantized_of_isUnit
  · intro i
    exact isUnit_outputAlpha engine _ _ _ _ i
  · intro color hcolor x hx
    exact Engine.isUnit_of_call hcall hcolor hx

/-- Quotients by zero and the logarithm of a negative number, on a transparent pixel and on one of
which only the alpha is not zero. -/
theorem composite_quantized_nan :
    let base :=
      PixelSource.filling #[10, 20, 30, 0, 0, 0, 0, 255] ⟨0, 0, 2, 1, by decide, by decide⟩
    let blend := PixelSource.filling #[1, 2, 3, 0] ⟨0, 0, 1, 1, by decide, by decide⟩
    let canvas : Rect := ⟨0, 0, 3, 2, by decide, by decide⟩
    ∃ engine result, compile "[rb / (ab - ab), log(gs - 1), bs / rs]" = .ok engine ∧
      composite Float base blend canvas engine = .ok result ∧
      ∃ casts : Array Float, result.data = casts.map toByte ∧
        ∀ x ∈ casts, ∃ n : ℕ, n ≤ 255 ∧ Double.Stands x n ∧ (toByte x).toNat = n := by
  intro base blend canvas
  obtain ⟨engine, h, hlimit⟩ : ∃ engine,
      compile "[rb / (ab - ab), log(gs - 1), bs / rs]" = .ok engine ∧
        engine.tree.pictureLevels Float ≤ Engine.nestingLimit :=
    exists_eq_ok_and (by decide +kernel)
  have hbase : 0 ≤ base.width ∧ 0 ≤ base.height := by decide
  have hblend : 0 ≤ blend.width ∧ 0 ≤ blend.height := by decide
  have hplace : Placement.of base.rect blend.rect canvas =
      .ok ⟨base.rect, blend.rect, base.rect⟩ := rfl
  obtain ⟨result, hresult, -⟩ :=
    composite_eq_ok (Engine.wellFormed_of_compile h) hbase hblend hplace Float hlimit
  obtain ⟨rows, others, blocks, -, -, -, -, hquantized⟩ := composite_quantized h hresult
  refine ⟨engine, result, h, hresult, _, hquantized.data_eq, ?_⟩
  intro x hx
  obtain ⟨y, hy, rfl⟩ := Array.mem_map.mp hx
  exact (hquantized.whole y hy).2

end LayerBlend
