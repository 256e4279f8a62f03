import Mathlib
import LayerBlend.Proofs.Arithmetic.Packing

/-!
# Doubles and their parts

The parts that the bits of a double say determine the double.

* `parts_injective` — doubles with the same parts are the same, NaNs too: there is but one.
* `canonical_of_parts` — mantissa and exponent of a finite double are in range.
* `parts_ofParts`, `ofParts_of_parts` — parts in range make the double that has them.
* `eq_infinity_of_parts`, `parts_eq_nan` — the doubles that are not finite.
* `beq_iff` — doubles that agree are the same, or they are both zero.
-/

namespace LayerBlend.Double

open Float.Model Float.Model.UnpackedFloat Numeral

/-! ## Doubles that are taken apart -/

/-- A double that is taken apart is not taken for another. -/
theorem partsOf_injective : Function.Injective partsOf := by
  have hsign : ∀ {s t : Sign}, (s.toBitVec == 1#1) = (t.toBitVec == 1#1) → s = t := by
    intro s t h
    cases s <;> cases t <;> first | rfl | cases h
  intro u v h
  cases u <;> cases v <;> simp only [partsOf, Parts.finite.injEq, Parts.infinite.injEq,
    reduceCtorEq] at h
  case notANumber => rfl
  case infinity => rw [hsign h]
  case zero.zero => rw [hsign h.1]
  case zero.finite hpos => exact absurd h.2.1 hpos.ne
  case finite.zero hpos _ => exact absurd h.2.1 hpos.ne'
  case finite.finite =>
    obtain ⟨hs, rfl, rfl⟩ := h
    rw [hsign hs]

/-- Doubles with the same parts are the same. -/
theorem parts_injective : Function.Injective parts := by
  intro x y h
  rw [parts_eq, parts_eq] at h
  have hbits : x.toBits.toBitVec = y.toBits.toBitVec :=
    (unpack_inj_of_valid x.toModel.valid y.toModel.valid).mp (partsOf_injective h)
  exact Float.toBits_inj.mp (UInt64.toBitVec_inj.mp hbits)

/-! ## Finite doubles -/

/-- The parts that bits say. -/
theorem parts_of_toNat {x : Float} {bits : ℕ} (h : x.toBits.toNat = bits) :
    parts x =
      if bits / 2 ^ 52 % 2 ^ 11 = 2047 then
        if bits % 2 ^ 52 = 0 then .infinite (bits / 2 ^ 63 == 1) else .nan
      else if bits / 2 ^ 52 % 2 ^ 11 = 0 then
        .finite (bits / 2 ^ 63 == 1) (bits % 2 ^ 52) minExponent
      else .finite (bits / 2 ^ 63 == 1) (bits % 2 ^ 52 + 2 ^ 52)
        (((bits / 2 ^ 52 % 2 ^ 11 : ℕ) : ℤ) - 1075) := by
  subst h
  rfl

section

variable {x : Float} {negative : Bool} {m : ℕ} {e : ℤ}

/-- Mantissa and exponent of a finite double are in range. -/
theorem canonical_of_parts (h : parts x = .finite negative m e) : Canonical m e ∧ e ≤ 971 := by
  rw [parts_of_toNat rfl] at h
  generalize x.toBits.toNat = bits at h
  by_cases hgreatest : bits / 2 ^ 52 % 2 ^ 11 = 2047
  · rw [if_pos hgreatest] at h
    split at h <;> cases h
  rw [if_neg hgreatest] at h
  by_cases hleast : bits / 2 ^ 52 % 2 ^ 11 = 0
  · rw [if_pos hleast] at h
    cases h
    exact ⟨⟨by omega, le_rfl, Or.inr rfl⟩, by decide⟩
  · rw [if_neg hleast] at h
    cases h
    exact ⟨⟨by omega, by omega, Or.inl (by omega)⟩, by omega⟩

/-- The exponent of a zero is the least one. -/
theorem Canonical.least_of_zero (h : Canonical 0 e) : e = -1074 :=
  h.full.resolve_left (by norm_num)

/-- A mantissa and an exponent of a double are put into its bits as they are. -/
theorem ofParts_eq (h : Canonical m e) (negative : Bool) :
    ofParts negative m e =
      Float.ofBits (UInt64.ofNat (bitsOf m e + if negative then 2 ^ 63 else 0)) := by
  have hleast := h.least
  have htarget : max (e + (if m = 0 then 0 else (m.log2 : ℤ) + 1) - 53) minExponent = e := by
    rw [minExponent]
    by_cases hm : m = 0
    · subst hm
      rw [if_pos rfl, h.least_of_zero]
      rfl
    · have hlog := (Nat.log2_lt hm).mpr h.lt
      have hfull : 52 ≤ m.log2 ∨ e = -1074 := h.full.imp_left (Nat.le_log2 hm).mpr
      rw [if_neg hm]
      omega
  unfold ofParts
  simp only [htarget, le_refl, if_true, sub_self, Int.toNat_zero, twoTo, Nat.pow_eq, pow_zero,
    mul_one]
  rfl

/-- Bits below those of an infinity make a double that has them. -/
theorem toNat_toBits_ofBits {bits : ℕ} (hlt : bits < 2 ^ 64)
    (hexponent : bits / 2 ^ 52 % 2 ^ 11 ≠ 2047) :
    (Float.ofBits (UInt64.ofNat bits)).toBits.toNat = bits := by
  obtain ⟨b, hb⟩ : ∃ b : BitVec Format.binary64.numBits, (UInt64.ofNat bits).toBitVec = b :=
    ⟨_, rfl⟩
  have hnat : b.toNat = bits := by
    rw [← hb]
    exact Nat.mod_eq_of_lt hlt
  have hgreatest : unpackExponent b ≠ -1#_ := by
    rw [ne_eq, ← BitVec.toNat_inj, toNat_unpackExponent, hnat]
    exact hexponent
  have hvalid : Format.binary64.Valid b := ⟨fun heq => absurd heq hgreatest⟩
  show (UnpackedFloat.pack Format.binary64
    (UnpackedFloat.unpack Format.binary64 (UInt64.ofNat bits).toBitVec)).toNat = bits
  rw [hb, pack_unpack_of_valid hvalid, hnat]

/-- A double that is made of parts in range has these parts. -/
theorem parts_ofParts (h : Canonical m e) (he : e ≤ 971) (negative : Bool) :
    parts (ofParts negative m e) = .finite negative m e := by
  obtain ⟨bits, hbits⟩ : ∃ bits, bitsOf m e + (if negative then 2 ^ 63 else 0) = bits := ⟨_, rfl⟩
  have hlt := h.lt
  have hleast := h.least
  obtain ⟨hexponent, hfraction, hsign, hbound⟩ :
      bits / 2 ^ 52 % 2 ^ 11 = (if m < 2 ^ 52 then 0 else (e + 1075).toNat) ∧
      bits % 2 ^ 52 = (if m < 2 ^ 52 then m else m - 2 ^ 52) ∧
      bits / 2 ^ 63 = (if negative then 1 else 0) ∧ bits < 2 ^ 64 := by
    rw [← hbits, bitsOf]
    by_cases hfull : m < 2 ^ 52
    · simp only [if_pos hfull]
      cases negative <;> simp <;> omega
    · simp only [if_neg hfull]
      cases negative <;> simp <;> omega
  have hnegative : (bits / 2 ^ 63 == 1) = negative := by
    rw [hsign]
    cases negative <;> rfl
  have hgreatest : bits / 2 ^ 52 % 2 ^ 11 ≠ 2047 := by
    rw [hexponent]
    split <;> omega
  rw [ofParts_eq h, hbits, parts_of_toNat (toNat_toBits_ofBits hbound hgreatest),
    if_neg hgreatest, hnegative, hfraction, hexponent]
  by_cases hfull : m < 2 ^ 52
  · simp only [if_pos hfull, if_true, minExponent, h.full.resolve_left (not_le.mpr hfull)]
  · have hpos : (e + 1075).toNat ≠ 0 := by omega
    simp only [if_neg hfull, if_neg hpos, Parts.finite.injEq, true_and]
    omega

/-- A finite double is made of its parts. -/
theorem ofParts_of_parts (h : parts x = .finite negative m e) : ofParts negative m e = x := by
  obtain ⟨hcanonical, he⟩ := canonical_of_parts h
  exact parts_injective ((parts_ofParts hcanonical he negative).trans h.symm)

end

/-! ## Other doubles -/

/-- Each sign has one infinity. -/
theorem eq_infinity_of_parts {x : Float} {negative : Bool} (h : parts x = .infinite negative) :
    x = if negative then -infinity else infinity := by
  apply parts_injective
  rw [h]
  cases negative <;> decide +kernel

/-- There is one NaN. -/
theorem parts_eq_nan {x : Float} : parts x = .nan ↔ x = nan := by
  have hnan : parts nan = .nan := by decide +kernel
  rw [← hnan, parts_injective.eq_iff]

/-- What tells a NaN. -/
theorem isNaN_iff {x : Float} : x.isNaN = true ↔ parts x = .nan := by
  rw [Float.isNaN_eq_decide_eq_nan, decide_eq_true_eq, parts_eq_nan]
  rfl

/-- A finite double is none of the infinities. -/
theorem beq_infinity_of_parts {x : Float} {negative : Bool} {m : ℕ} {e : ℤ}
    (h : parts x = .finite negative m e) :
    (x == infinity) = false ∧ (x == -infinity) = false := by
  have hpos : infinity.toModel.unpack = .infinity .positive := by rfl
  have hneg : (-infinity).toModel.unpack = .infinity .negative := by rfl
  show x.toModel.unpack.beq infinity.toModel.unpack = false ∧
    x.toModel.unpack.beq (-infinity).toModel.unpack = false
  rw [parts_eq] at h
  rw [hpos, hneg]
  cases hunpack : x.toModel.unpack <;> rw [hunpack] at h <;> cases h
  · exact ⟨rfl, rfl⟩
  · exact ⟨rfl, rfl⟩

/-! ## Equality -/

/-- Each sign has one zero. -/
theorem eq_zero_of_parts {x : Float} {negative : Bool} {e : ℤ}
    (h : parts x = .finite negative 0 e) : x = if negative then -0 else 0 := by
  obtain rfl := (canonical_of_parts h).1.least_of_zero
  apply parts_injective
  rw [h]
  cases negative <;> decide +kernel

/-- Two doubles agree when they are the same or both zero, and no NaN. -/
theorem beq_iff {x y : Float} : (x == y) = true ↔ parts x ≠ .nan ∧
    (x = y ∨ (∃ negative e, parts x = .finite negative 0 e) ∧
      ∃ negative e, parts y = .finite negative 0 e) := by
  have hzero : parts 0 = .finite false 0 (-1074) := by decide +kernel
  have hminus : parts (-0) = .finite true 0 (-1074) := by decide +kernel
  rw [Float.beq_iff_ne_nan_and_eq]
  constructor
  · rintro ⟨hx, -, rfl | ⟨rfl, rfl⟩ | ⟨rfl, rfl⟩⟩
    · exact ⟨fun h => hx (parts_eq_nan.mp h), Or.inl rfl⟩
    · exact ⟨by simp [hzero], Or.inr ⟨⟨_, _, hzero⟩, _, _, hminus⟩⟩
    · exact ⟨by simp [hminus], Or.inr ⟨⟨_, _, hminus⟩, _, _, hzero⟩⟩
  · rintro ⟨hx, rfl | ⟨⟨s, e, hx'⟩, t, f, hy⟩⟩
    · have hnan : x ≠ Float.nan := fun h => hx (parts_eq_nan.mpr h)
      exact ⟨hnan, hnan, Or.inl rfl⟩
    · rw [eq_zero_of_parts hx', eq_zero_of_parts hy]
      cases s <;> cases t <;> decide +kernel

end LayerBlend.Double
