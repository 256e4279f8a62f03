import LayerBlend.Composite
import LayerBlend.Proofs.Arithmetic.Values

/-!
# Bytes of channels survive the arithmetic

* `toChannelByte_eq` — a double within an eighth of a byte's number gives back the byte.
* `toChannelByte_ofChannelByte`, `toChannelByte_straighten` — so a byte that is read as a number is
  written as the same byte, and a colour that is multiplied by an alpha, rounded, divided by the
  alpha, and rounded again is too.
-/

namespace LayerBlend.Arithmetic

open Double

/-! ## Relative errors -/

/-- The greatest relative error of one rounding. -/
def unitError : ℚ := 1 / 2 ^ 53

/-- A number is off by the relative errors of some roundings. -/
structure Within (n : ℕ) (q v : ℚ) : Prop where
  /-- It is not too small. -/
  low : q * (1 - unitError) ^ n ≤ v
  /-- It is not too great. -/
  high : v ≤ q * (1 + unitError) ^ n

theorem unitError_bounds : 0 < unitError ∧ unitError < 1 := by
  unfold unitError
  norm_num

namespace Within

variable {n m : ℕ} {q v w : ℚ}

/-- Relative errors add up. -/
theorem trans (h : Within n q v) (h' : Within m v w) : Within (n + m) q w := by
  obtain ⟨hpos, hlt⟩ := unitError_bounds
  constructor
  · calc q * (1 - unitError) ^ (n + m) = q * (1 - unitError) ^ n * (1 - unitError) ^ m := by ring
      _ ≤ v * (1 - unitError) ^ m :=
        mul_le_mul_of_nonneg_right h.low (pow_nonneg (by linarith) m)
      _ ≤ w := h'.low
  · calc w ≤ v * (1 + unitError) ^ m := h'.high
      _ ≤ q * (1 + unitError) ^ n * (1 + unitError) ^ m :=
        mul_le_mul_of_nonneg_right h.high (pow_nonneg (by linarith) m)
      _ = q * (1 + unitError) ^ (n + m) := by ring

/-- A relative error does not change when both numbers are multiplied. -/
theorem mul (h : Within n q v) (hw : 0 ≤ w) : Within n (q * w) (v * w) := by
  constructor
  · have := mul_le_mul_of_nonneg_right h.low hw
    linarith
  · have := mul_le_mul_of_nonneg_right h.high hw
    linarith

/-- A few roundings move a number up to two hundred and fifty-five by less than an eighth. -/
theorem near (h : Within n q v) (hn : n ≤ 3) (hq : 0 ≤ q) (hq' : q ≤ 255) :
    q - 1 / 8 ≤ v ∧ v ≤ q + 1 / 8 := by
  obtain ⟨hpos, hlt⟩ := unitError_bounds
  have hlow : (1 - unitError) ^ 3 ≤ (1 - unitError) ^ n :=
    pow_le_pow_of_le_one (by linarith) (by linarith) hn
  have hhigh : (1 + unitError) ^ n ≤ (1 + unitError) ^ 3 :=
    pow_le_pow_right₀ (by linarith) hn
  constructor
  · calc q - 1 / 8 ≤ q * (1 - unitError) ^ 3 := by
          unfold unitError
          norm_num
          linarith
      _ ≤ q * (1 - unitError) ^ n := mul_le_mul_of_nonneg_left hlow hq
      _ ≤ v := h.low
  · calc v ≤ q * (1 + unitError) ^ n := h.high
      _ ≤ q * (1 + unitError) ^ 3 := mul_le_mul_of_nonneg_left hhigh hq
      _ ≤ q + 1 / 8 := by
          unfold unitError
          norm_num
          linarith

end Within

/-- Zero stays zero. -/
theorem eq_zero_of_roundsTo {v : ℚ} (h : RoundsTo 0 v) : v = 0 := by
  simpa using h.eq_of_representable (representable_natCast (n := 0) (by norm_num))

/-- A number is zero or not too small. -/
def Clear (q : ℚ) : Prop :=
  q = 0 ∨ 1 / 2 ^ 16 ≤ q

/-- One rounding moves a number that is not too small by its relative error. -/
theorem within_of_roundsTo {q v : ℚ} (h : RoundsTo q v) (hq : Clear q) : Within 1 q v := by
  rcases hq with rfl | hq
  · rw [eq_zero_of_roundsTo h]
    constructor <;> simp
  · have hnormal : (2 : ℚ) ^ (-1022 : ℤ) ≤ q := by
      calc (2 : ℚ) ^ (-1022 : ℤ) ≤ 2 ^ (-16 : ℤ) := zpow_le_zpow_right₀ one_le_two (by norm_num)
        _ = 1 / 2 ^ 16 := by norm_num
        _ ≤ q := hq
    obtain ⟨hlow, hhigh⟩ := abs_le.mp (h.error hnormal)
    constructor <;> rw [pow_one, unitError] <;> linarith

/-! ## Constants and bytes -/

theorem stands_zero : Stands zero 0 :=
  .zero .positive

theorem stands_half : Stands half (1 / 2) := by
  have hhalf : (half : Float) = Double.ofParts false 1 (-1) := by decide +kernel
  have h := stands_ofParts (m := 1) (e := -1) (by norm_num) (by norm_num)
    ((show (1 : ℕ) * (2 : ℚ) ^ (-1 : ℤ) < 1 by norm_num).trans
      (one_lt_zpow₀ one_lt_two (by norm_num)))
  rw [hhalf]
  norm_num at h ⊢
  exact h

theorem stands_fullByte : Stands fullByte 255 := by
  have hfull : (fullByte : Float) = Float.ofNat 255 := by decide +kernel
  rw [hfull]
  exact_mod_cast stands_ofNat (n := 255) (by norm_num)

/-- A byte is read as a rounded part of the largest one. -/
theorem stands_ofChannelByte (b : UInt8) :
    ∃ v, RoundsTo (b.toNat / 255) v ∧ Stands (ofChannelByte b) v := by
  have hb : (b.toNat : ℚ) ≤ 255 := by exact_mod_cast Nat.le_of_lt_succ b.toNat_lt
  refine (stands_ofNat (by have := b.toNat_lt; omega)).div stands_fullByte (by norm_num) ?_
  calc (b.toNat : ℚ) / 255 ≤ 1 := by rw [div_le_one (by norm_num)]; exact hb
    _ ≤ 2 ^ (1023 : ℤ) := one_le_zpow₀ one_le_two (by norm_num)

/-! ## Writing bytes -/

/-- A fraction with a small power of two below is that of a double. -/
theorem representable_fraction (m k : ℕ) (hm : m < 2 ^ 53) (hk : k ≤ 1074) :
    Representable (m / 2 ^ k) := by
  have h := representable_mul_zpow (e := -k) hm (by omega)
  rwa [zpow_neg, zpow_natCast, ← div_eq_mul_inv] at h

/-- A number that is not great is in the range of doubles. -/
theorem le_range {q : ℚ} (h : q ≤ 512) : q ≤ 2 ^ (1023 : ℤ) :=
  calc q ≤ 2 ^ (9 : ℤ) := h.trans (by norm_num)
    _ ≤ 2 ^ (1023 : ℤ) := zpow_le_zpow_right₀ one_le_two (by norm_num)

/-- A double within an eighth of a byte's number gives back the byte. -/
theorem toChannelByte_eq {x : Float} {q : ℚ} {c : UInt8} (hx : Stands x q)
    (hlow : c.toNat - 1 / 8 ≤ q * 255) (hhigh : q * 255 ≤ c.toNat + 1 / 8) :
    toChannelByte x = c := by
  obtain ⟨n, hn⟩ : ∃ n, c.toNat = n := ⟨_, rfl⟩
  have hsmall : n < 256 := hn ▸ c.toNat_lt
  have hbyte : (n : ℚ) ≤ 255 := by exact_mod_cast Nat.le_of_lt_succ hsmall
  rw [hn] at hlow hhigh
  obtain ⟨m, hm, hstands⟩ := hx.mul stands_fullByte (le_range (by linarith))
  have hmlow : n - 1 / 8 ≤ m := by
    rcases Nat.eq_zero_or_pos n with rfl | hpos
    · have := hstands.nonneg
      norm_num
      linarith
    · have heighth : (n : ℚ) - 1 / 8 = (8 * n - 1 : ℕ) / 2 ^ 3 := by
        rw [Nat.cast_sub (by omega)]
        push_cast
        ring
      rw [heighth] at hlow ⊢
      exact hm.ge (representable_fraction _ 3 (by omega) (by norm_num)) hlow
  have hmhigh : m ≤ n + 1 / 8 := by
    have heighth : (n : ℚ) + 1 / 8 = (8 * n + 1 : ℕ) / 2 ^ 3 := by
      push_cast
      ring
    rw [heighth] at hhigh ⊢
    exact hm.le (representable_fraction _ 3 (by omega) (by norm_num)) hhigh
  obtain ⟨s, hs, hstands⟩ := hstands.add stands_half (le_range (by linarith))
  have hslow : n ≤ s := hs.ge (representable_natCast (by omega)) (by linarith)
  have hshigh : s ≤ (4 * n + 3 : ℕ) / 2 ^ 2 := by
    refine hs.le (representable_fraction _ 2 (by omega) (by norm_num)) ?_
    push_cast
    linarith
  have hfloor : ⌊s⌋₊ = n := by
    refine (Nat.floor_eq_iff hstands.nonneg).mpr ⟨hslow, hshigh.trans_lt ?_⟩
    push_cast
    linarith
  have hbyte := hstands.floor.toUInt8
  rw [hfloor, Nat.floor_natCast] at hbyte
  show Float.toUInt8 (Double.floor (x * fullByte + half)) = c
  rw [hbyte, ← hn, UInt8.ofNatClamp, dif_pos c.toNat_lt]
  exact UInt8.ofNatLT_toNat c

/-- The number that a byte is read as is at most one. -/
theorem le_one_of_roundsTo {b : UInt8} {v : ℚ} (h : RoundsTo (b.toNat / 255) v) : v ≤ 1 := by
  have hb : (b.toNat : ℚ) ≤ 255 := by exact_mod_cast Nat.le_of_lt_succ b.toNat_lt
  have hone := h.le (representable_natCast (n := 1) (by norm_num))
  rw [Nat.cast_one] at hone
  exact hone ((div_le_one (by norm_num)).mpr hb)

/-- A byte other than zero is not too small a part of the largest one. -/
theorem fraction_le {b : UInt8} (hb : b ≠ 0) : 1 / 2 ^ 8 ≤ (b.toNat : ℚ) / 255 := by
  have hpos : (1 : ℚ) ≤ b.toNat := by
    exact_mod_cast Nat.one_le_iff_ne_zero.mpr fun hzero => hb (UInt8.toNat_inj.mp hzero)
  rw [div_le_div_iff₀ (by norm_num) (by norm_num)]
  linarith

/-- Rounding does not make a number smaller than a power of two below it. -/
theorem power_le_of_roundsTo {q v : ℚ} (h : RoundsTo q v) (k : ℕ) (hk : k ≤ 1074)
    (hq : 1 / 2 ^ k ≤ q) : 1 / 2 ^ k ≤ v := by
  have hge := h.ge (representable_fraction 1 k (by norm_num) hk)
  rw [Nat.cast_one] at hge
  exact hge hq

theorem clear_fraction (b : UInt8) : Clear (b.toNat / 255) := by
  by_cases hb : b = 0
  · left
    simp [hb]
  · right
    have := fraction_le hb
    norm_num at this ⊢
    linarith

/-- A byte that is read as a number is written as the same byte. -/
theorem toChannelByte_ofChannelByte (b : UInt8) :
    toChannelByte (ofChannelByte b : Float) = b := by
  obtain ⟨v, hv, hstands⟩ := stands_ofChannelByte b
  have hb : (b.toNat : ℚ) ≤ 255 := by exact_mod_cast Nat.le_of_lt_succ b.toNat_lt
  have hscaled := (within_of_roundsTo hv (clear_fraction b)).mul (w := 255) (by norm_num)
  rw [div_mul_cancel₀ _ (by norm_num)] at hscaled
  obtain ⟨hlow, hhigh⟩ := hscaled.near (by norm_num) (Nat.cast_nonneg _) hb
  exact toChannelByte_eq hstands hlow hhigh

/-- Neither a premultiplied colour nor its quotient by the alpha is too small, unless it is zero. -/
theorem clear_premultiplied {c a : UInt8} (ha : a ≠ 0) {v w p : ℚ}
    (hv : RoundsTo (c.toNat / 255) v) (hw : RoundsTo (a.toNat / 255) w) (hp : RoundsTo (v * w) p) :
    Clear (v * w) ∧ Clear (p / w) := by
  by_cases hc : c = 0
  · have hv0 : v = 0 := eq_zero_of_roundsTo (by simpa [hc] using hv)
    rw [hv0, zero_mul] at hp ⊢
    rw [eq_zero_of_roundsTo hp, zero_div]
    exact ⟨.inl rfl, .inl rfl⟩
  · have hvlow := power_le_of_roundsTo hv 8 (by norm_num) (fraction_le hc)
    have hwlow := power_le_of_roundsTo hw 8 (by norm_num) (fraction_le ha)
    have hproduct : (1 : ℚ) / 2 ^ 16 ≤ v * w := by
      calc (1 : ℚ) / 2 ^ 16 = 1 / 2 ^ 8 * (1 / 2 ^ 8) := by norm_num
        _ ≤ v * w :=
          mul_le_mul hvlow hwlow (by norm_num) ((by norm_num : (0 : ℚ) ≤ 1 / 2 ^ 8).trans hvlow)
    have hplow := power_le_of_roundsTo hp 16 (by norm_num) hproduct
    have hwpos : 0 < w := (by norm_num : (0 : ℚ) < 1 / 2 ^ 8).trans_le hwlow
    have hppos : 0 ≤ p := (by norm_num : (0 : ℚ) ≤ 1 / 2 ^ 16).trans hplow
    refine ⟨.inr hproduct, .inr (hplow.trans ?_)⟩
    rw [le_div_iff₀ hwpos]
    exact mul_le_of_le_one_right hppos (le_one_of_roundsTo hw)

/-- A colour that is multiplied by an alpha and divided by it again is written as the same byte,
unless the alpha is zero. -/
theorem toChannelByte_straighten (c : UInt8) {a : UInt8} (ha : a ≠ 0) :
    toChannelByte (straighten (mul (ofChannelByte c) (ofChannelByte a))
      (ofChannelByte a) : Float) = c := by
  obtain ⟨v, hv, hcolor⟩ := stands_ofChannelByte c
  obtain ⟨w, hw, halpha⟩ := stands_ofChannelByte a
  have hc : (c.toNat : ℚ) ≤ 255 := by exact_mod_cast Nat.le_of_lt_succ c.toNat_lt
  have hv1 := le_one_of_roundsTo hv
  have hw1 := le_one_of_roundsTo hw
  have hwlow := power_le_of_roundsTo hw 8 (by norm_num) (fraction_le ha)
  have hwpos : 0 < w := by
    norm_num at hwlow
    linarith
  -- the colour is at most the alpha, so lowering it to the alpha changes nothing
  have hle : v * w ≤ w := mul_le_of_le_one_left hwpos.le hv1
  obtain ⟨p, hp, hproduct⟩ := hcolor.mul halpha (le_range (by linarith))
  have hpw : p ≤ w := hp.le halpha.representable hle
  have hone : p / w ≤ 1 := (div_le_one hwpos).mpr hpw
  obtain ⟨x, hx, hquotient⟩ := hproduct.div halpha hwpos (le_range (by linarith))
  have hstraight : (straighten (mul (ofChannelByte c) (ofChannelByte a)) (ofChannelByte a) : Float)
      = ofChannelByte c * ofChannelByte a / ofChannelByte a := by
    have hpositive : less zero (ofChannelByte a : Float) = true :=
      decide_eq_true ((stands_zero.lt_iff halpha).mpr hwpos)
    have hlessEq :
        lessEq (mul (ofChannelByte c) (ofChannelByte a)) (ofChannelByte a : Float) = true :=
      decide_eq_true ((hproduct.le_iff halpha).mpr hpw)
    rw [straighten, if_pos hpositive, minimum, hlessEq]
    rfl
  rw [hstraight]
  -- three roundings are between the byte and the straight colour
  obtain ⟨hclear, hclear'⟩ := clear_premultiplied ha hv hw hp
  have hfirst : Within 1 (c.toNat / 255 * w) (v * w) :=
    (within_of_roundsTo hv (clear_fraction c)).mul hwpos.le
  have hsecond : Within 2 (c.toNat / 255) (p / w) := by
    have := (hfirst.trans (within_of_roundsTo hp hclear)).mul (inv_pos.mpr hwpos).le
    rwa [mul_inv_cancel_right₀ hwpos.ne', ← div_eq_mul_inv] at this
  have hscaled := (hsecond.trans (within_of_roundsTo hx hclear')).mul (w := 255) (by norm_num)
  rw [div_mul_cancel₀ _ (by norm_num)] at hscaled
  obtain ⟨hlow, hhigh⟩ := hscaled.near le_rfl (Nat.cast_nonneg _) hc
  exact toChannelByte_eq hquotient hlow hhigh

/-- Where the alpha is zero, any colour is written as zero. -/
theorem toChannelByte_straighten_zero (x : Float) :
    toChannelByte (straighten x (ofChannelByte 0)) = 0 := by
  obtain ⟨w, hw, halpha⟩ := stands_ofChannelByte 0
  have hw0 : w = 0 := eq_zero_of_roundsTo (by simpa using hw)
  have hless : less zero (ofChannelByte 0 : Float) = false :=
    decide_eq_false fun hlt => absurd ((stands_zero.lt_iff halpha).mp hlt) (by simp [hw0])
  rw [straighten, hless]
  exact toChannelByte_eq stands_zero (by norm_num) (by norm_num)

end LayerBlend.Arithmetic
