import LayerBlend.Proofs.Arithmetic.Parts

/-!
# Fractions that are read as a double

* `Nearest m e q` — among all doubles `m * 2 ^ e` is the one nearest to `q`, or one of two nearest
  whose mantissa is even.
* `leadingExponent_spec` — the power of two of the first bit of a fraction.
* `ofFraction_of_nearest` — a fraction is read as the double that is nearest to it.
* `ofDecimal_of_nearest` — so are decimal digits with an exponent that is not too large.
-/

namespace LayerBlend.Double

open Numeral

/-! ## Powers -/

theorem two_zpow_of_nonneg {e : ℤ} (h : 0 ≤ e) : (2 : ℚ) ^ e = (twoTo e.toNat : ℕ) := by
  obtain ⟨n, rfl⟩ := Int.eq_ofNat_of_zero_le h
  simp [twoTo]

theorem two_zpow_of_neg {e : ℤ} (h : e < 0) : (2 : ℚ) ^ e = ((twoTo (-e).toNat : ℕ) : ℚ)⁻¹ := by
  rw [← two_zpow_of_nonneg (by omega), zpow_neg, inv_inv]

theorem ten_zpow_of_nonneg {e : ℤ} (h : 0 ≤ e) : (10 : ℚ) ^ e = (tenTo e.toNat : ℕ) := by
  obtain ⟨n, rfl⟩ := Int.eq_ofNat_of_zero_le h
  simp [tenTo]

theorem ten_zpow_of_neg {e : ℤ} (h : e < 0) : (10 : ℚ) ^ e = ((tenTo (-e).toNat : ℕ) : ℚ)⁻¹ := by
  rw [← ten_zpow_of_nonneg (by omega), zpow_neg, inv_inv]

theorem twoTo_pos (n : ℕ) : 0 < twoTo n :=
  Nat.two_pow_pos n

theorem tenTo_pos (n : ℕ) : 0 < tenTo n :=
  Nat.pow_pos (by decide)

/-! ## Nearest doubles -/

/-- How far the numbers that are read as a double reach below it, in quarters of the unit of its
mantissa: below a power of two the doubles are twice as dense. -/
def reachBelow (m : ℕ) (e : ℤ) : ℕ :=
  if m = 2 ^ 52 ∧ -1074 < e then 1 else 2

theorem reachBelow_le (m : ℕ) (e : ℤ) : (reachBelow m e : ℚ) ≤ 2 := by
  unfold reachBelow
  split <;> norm_num

/-- The double `m * 2 ^ e` is nearest to a number, and if another one is as near, its mantissa is
even. -/
structure Nearest (m : ℕ) (e : ℤ) (q : ℚ) : Prop where
  /-- The number is not too far below. -/
  lower : (m : ℚ) - reachBelow m e / 4 ≤ q / 2 ^ e
  /-- The number is not too far above. -/
  upper : q / 2 ^ e ≤ m + 1 / 2
  /-- In the middle between two doubles it belongs to the other one when the mantissa is odd. -/
  strict : m % 2 = 1 → (m : ℚ) - reachBelow m e / 4 < q / 2 ^ e ∧ q / 2 ^ e < m + 1 / 2

/-- A quotient is rounded to the nearest whole number, and in the middle to the even one. -/
theorem rounded_eq {above below m : ℕ} (hbelow : 0 < below)
    (hlow : (m : ℚ) - 1 / 2 ≤ above / below) (hhigh : (above : ℚ) / below ≤ m + 1 / 2)
    (hodd : m % 2 = 1 → (m : ℚ) - 1 / 2 < above / below ∧ (above : ℚ) / below < m + 1 / 2) :
    (if 2 * (above % below) < below || (2 * (above % below) = below && above / below % 2 = 0)
      then above / below else above / below + 1) = m := by
  have hpos : (0 : ℚ) < below := by exact_mod_cast hbelow
  -- the bounds, over whole numbers
  have hlow' : 2 * (below * m) ≤ 2 * above + below := by
    rw [le_div_iff₀ hpos] at hlow
    have : (2 * (below * m) : ℚ) ≤ 2 * above + below := by linarith
    exact_mod_cast this
  have hhigh' : 2 * above ≤ 2 * (below * m) + below := by
    rw [div_le_iff₀ hpos] at hhigh
    have : (2 * above : ℚ) ≤ 2 * (below * m) + below := by linarith
    exact_mod_cast this
  have hodd' : m % 2 = 1 →
      2 * (below * m) < 2 * above + below ∧ 2 * above < 2 * (below * m) + below := by
    intro hm
    obtain ⟨hlow, hhigh⟩ := hodd hm
    rw [lt_div_iff₀ hpos] at hlow
    rw [div_lt_iff₀ hpos] at hhigh
    have hbefore : (2 * (below * m) : ℚ) < 2 * above + below := by linarith
    have hbehind : (2 * above : ℚ) < 2 * (below * m) + below := by linarith
    exact ⟨by exact_mod_cast hbefore, by exact_mod_cast hbehind⟩
  have hdivision := Nat.div_add_mod above below
  have hrest := Nat.mod_lt above hbelow
  generalize above / below = low at *
  generalize above % below = rest at *
  have hle : low ≤ m := by
    by_contra hlt
    have := Nat.mul_le_mul_left below (by omega : m + 1 ≤ low)
    rw [Nat.mul_add, Nat.mul_one] at this
    omega
  have hge : m ≤ low + 1 := by
    by_contra hlt
    have := Nat.mul_le_mul_left below (by omega : low + 2 ≤ m)
    rw [Nat.mul_add] at this
    omega
  simp only [Bool.or_eq_true, Bool.and_eq_true, decide_eq_true_eq]
  rcases Nat.lt_or_eq_of_le hle with hlt | rfl
  · have hm : m = low + 1 := by omega
    subst hm
    rw [Nat.mul_add, Nat.mul_one] at hlow' hodd'
    rw [if_neg (by omega)]
  · rw [if_pos (by omega)]

/-! ## Reading -/

/-- The power of two of the first bit of a fraction. -/
theorem leadingExponent_spec {n d : ℕ} (hn : 0 < n) (hd : 0 < d) :
    (2 : ℚ) ^ leadingExponent n d ≤ n / d ∧ (n : ℚ) / d < 2 ^ (leadingExponent n d + 1) := by
  have hd' : (0 : ℚ) < d := by exact_mod_cast hd
  obtain ⟨guess, hguess⟩ : ∃ guess : ℤ, (n.log2 : ℤ) - d.log2 = guess := ⟨_, rfl⟩
  have hreached : (if 0 ≤ guess then d * twoTo guess.toNat ≤ n else d ≤ n * twoTo (-guess).toNat) ↔
      (2 : ℚ) ^ guess ≤ n / d := by
    rw [le_div_iff₀' hd']
    by_cases hsign : 0 ≤ guess
    · rw [if_pos hsign, two_zpow_of_nonneg hsign]
      exact_mod_cast Iff.rfl
    · have hpos : (0 : ℚ) < twoTo (-guess).toNat := by exact_mod_cast twoTo_pos _
      rw [if_neg hsign, two_zpow_of_neg (not_le.mp hsign), mul_inv_le_iff₀ hpos]
      exact_mod_cast Iff.rfl
  have hnum : (2 : ℚ) ^ (n.log2 : ℤ) ≤ n ∧ (n : ℚ) < 2 ^ ((n.log2 : ℤ) + 1) := by
    exact_mod_cast And.intro (Nat.log2_self_le hn.ne') Nat.lt_log2_self
  have hden : (2 : ℚ) ^ (d.log2 : ℤ) ≤ d ∧ (d : ℚ) < 2 ^ ((d.log2 : ℤ) + 1) := by
    exact_mod_cast And.intro (Nat.log2_self_le hd.ne') Nat.lt_log2_self
  have hbefore : (2 : ℚ) ^ (guess - 1) ≤ n / d := by
    rw [le_div_iff₀ hd']
    calc (2 : ℚ) ^ (guess - 1) * d ≤ 2 ^ (guess - 1) * 2 ^ ((d.log2 : ℤ) + 1) :=
          mul_le_mul_of_nonneg_left hden.2.le (two_zpow_pos _).le
      _ = 2 ^ (n.log2 : ℤ) := by
          rw [← zpow_add₀ two_ne_zero]
          congr 1
          omega
      _ ≤ n := hnum.1
  have hbehind : (n : ℚ) / d < 2 ^ (guess + 1) := by
    rw [div_lt_iff₀ hd']
    calc (n : ℚ) < 2 ^ ((n.log2 : ℤ) + 1) := hnum.2
      _ = 2 ^ (guess + 1) * 2 ^ (d.log2 : ℤ) := by
          rw [← zpow_add₀ two_ne_zero]
          congr 1
          omega
      _ ≤ 2 ^ (guess + 1) * d := mul_le_mul_of_nonneg_left hden.1 (two_zpow_pos _).le
  unfold leadingExponent
  dsimp only
  rw [hguess]
  by_cases h : (2 : ℚ) ^ guess ≤ n / d
  · rw [if_pos (hreached.mpr h)]
    exact ⟨h, hbehind⟩
  · rw [if_neg (mt hreached.mp h), sub_add_cancel]
    exact ⟨hbefore, not_le.mp h⟩

/-- The two whole numbers whose quotient is a fraction in units of a power of two. -/
theorem scaled_fraction (n : ℕ) {d : ℕ} (hd : 0 < d) (e : ℤ) :
    0 < (if 0 ≤ e then d * twoTo e.toNat else d) ∧
      (((if 0 ≤ e then n else n * twoTo (-e).toNat : ℕ) : ℚ) /
        (if 0 ≤ e then d * twoTo e.toNat else d : ℕ)) = n / d / 2 ^ e := by
  by_cases he : 0 ≤ e
  · simp only [if_pos he]
    rw [two_zpow_of_nonneg he]
    exact ⟨Nat.mul_pos hd (twoTo_pos _), by push_cast; rw [div_div]⟩
  · simp only [if_neg he]
    rw [two_zpow_of_neg (not_le.mp he)]
    exact ⟨hd, by push_cast; rw [div_inv_eq_mul]; ring⟩

/-- A mantissa with one digit too many is the next power of two. -/
theorem ofParts_carry (negative : Bool) {e : ℤ} (he : -1074 < e) :
    ofParts negative (2 ^ 53) (e - 1) = ofParts negative (2 ^ 52) e := by
  have hlog : Nat.log2 (2 ^ 53) = 53 ∧ Nat.log2 (2 ^ 52) = 52 := by decide
  have htarget : max (e - 1 + ((53 : ℕ) + 1) - 53) minExponent = e ∧
      max (e + ((52 : ℕ) + 1) - 53) minExponent = e := by
    rw [minExponent]
    omega
  have hshift : (e - (e - 1)).toNat = 1 := by omega
  unfold ofParts
  simp only [hlog, show (2 ^ 53 : ℕ) ≠ 0 by decide, show (2 ^ 52 : ℕ) ≠ 0 by decide, if_false]
  simp only [htarget.1, htarget.2, hshift]
  have hleft : (if e ≤ e - 1 then 2 ^ 53 * twoTo (e - 1 - e).toNat else 2 ^ 53 / twoTo 1) =
      2 ^ 52 := by
    rw [if_neg (by omega)]
    rfl
  have hright : (if e ≤ e then 2 ^ 52 * twoTo (e - e).toNat else 2 ^ 52 / twoTo (e - e).toNat) =
      2 ^ 52 := by
    rw [if_pos le_rfl, sub_self]
    rfl
  rw [hleft, hright]

variable {m : ℕ} {e : ℤ} {n d : ℕ}

/-- The mantissa of a fraction is rounded at the place of its last digit. -/
theorem ofFraction_eq (hn : 0 < n) (hd : 0 < d)
    (he : max (leadingExponent n d - 52) minExponent = e) (hrange : e < 971 ∨ e = 971 ∧ m < 2 ^ 53)
    (hlow : (m : ℚ) - 1 / 2 ≤ n / d / 2 ^ e) (hhigh : (n : ℚ) / d / 2 ^ e ≤ m + 1 / 2)
    (hodd : m % 2 = 1 → (m : ℚ) - 1 / 2 < n / d / 2 ^ e ∧ (n : ℚ) / d / 2 ^ e < m + 1 / 2)
    (negative : Bool) : ofFraction negative n d = ofParts negative m e := by
  obtain ⟨hbelow, hscaled⟩ := scaled_fraction n hd e
  rw [← hscaled] at hlow hhigh hodd
  have hmantissa := rounded_eq hbelow hlow hhigh hodd
  have hinside : ¬ ((decide (971 < e) || decide (e = 971) && decide (m = twoTo 53)) = true) := by
    have htop : twoTo 53 = 2 ^ 53 := rfl
    simp only [Bool.or_eq_true, Bool.and_eq_true, decide_eq_true_eq]
    omega
  unfold ofFraction
  rw [if_neg hn.ne']
  dsimp only
  rw [he, hmantissa, if_neg hinside]

/-- A number below the least full mantissa of its exponent can be nearest to that mantissa only, and
is close to it. -/
theorem Nearest.carries {q : ℚ} (h : Nearest m e q) (hm : Canonical m e)
    (hsmall : q / 2 ^ e < 2 ^ 52) (hleast : e ≠ -1074) :
    m = 2 ^ 52 ∧ (2 : ℚ) ^ 52 - 1 / 4 ≤ q / 2 ^ e := by
  have hlower := h.lower
  have hbound := hm.least
  have hm52 : m = 2 ^ 52 := by
    by_contra hne
    have hsucc : (2 : ℚ) ^ 52 + 1 ≤ m := by
      exact_mod_cast Nat.lt_of_le_of_ne (hm.full.resolve_right hleast) (Ne.symm hne)
    have hreach := reachBelow_le m e
    linarith
  have hreach : reachBelow m e = 1 := if_pos ⟨hm52, by omega⟩
  rw [hreach, hm52] at hlower
  exact ⟨hm52, by exact_mod_cast hlower⟩

/-- A fraction is read as the double that is nearest to it. -/
theorem ofFraction_of_nearest (hn : 0 < n) (hd : 0 < d) (hm : Canonical m e) (he : e ≤ 971)
    (h : Nearest m e (n / d)) (negative : Bool) :
    ofFraction negative n d = ofParts negative m e := by
  obtain ⟨hfirst, hlast⟩ := leadingExponent_spec hn hd
  have hleast := hm.least
  have hlt := hm.lt
  have hunit : (0 : ℚ) < 2 ^ e := two_zpow_pos e
  -- powers of two that bound the fraction bound the place of its first digit
  have hbelow : ∀ k : ℕ, (n : ℚ) / d / 2 ^ e < 2 ^ k → leadingExponent n d < e + k := by
    intro k hk
    refine (zpow_lt_zpow_iff_right₀ (one_lt_two (α := ℚ))).mp (hfirst.trans_lt ?_)
    rwa [two_zpow_add, ← div_lt_iff₀ hunit]
  have habove : ∀ k : ℕ, (2 : ℚ) ^ k ≤ n / d / 2 ^ e → e + k ≤ leadingExponent n d := by
    intro k hk
    refine Int.lt_add_one_iff.mp
      ((zpow_lt_zpow_iff_right₀ (one_lt_two (α := ℚ))).mp (lt_of_le_of_lt ?_ hlast))
    rwa [two_zpow_add, ← le_div_iff₀ hunit]
  have hlead := hbelow 53 (by
    have hm53 : (m : ℚ) + 1 ≤ 2 ^ 53 := by exact_mod_cast hlt
    linarith [h.upper])
  by_cases hfull : 2 ^ 52 ≤ (n : ℚ) / d / 2 ^ e ∨ e = -1074
  · -- the mantissa is rounded at its own place
    have hge := hfull.imp_left (habove 52)
    have hexponent : max (leadingExponent n d - 52) minExponent = e := by
      rw [minExponent]
      omega
    have hreach := reachBelow_le m e
    refine ofFraction_eq hn hd hexponent (by omega) ?_ h.upper ?_ negative
    · linarith [h.lower]
    · intro hodd
      obtain ⟨hlow, hhigh⟩ := h.strict hodd
      exact ⟨by linarith, hhigh⟩
  · -- below a power of two the place is one lower, and the mantissa is carried over
    obtain ⟨hsmall, hleast'⟩ := not_or.mp hfull
    rw [not_le] at hsmall
    obtain ⟨hm52, hlower⟩ := h.carries hm hsmall hleast'
    have hhalf : (n : ℚ) / d / 2 ^ (e - 1) = 2 * (n / d / 2 ^ e) := by
      rw [zpow_sub_one₀ two_ne_zero]
      field_simp
    have hge := habove 51 (by norm_num at hlower ⊢; linarith)
    have hlead' := hbelow 52 hsmall
    have hexponent : max (leadingExponent n d - 52) minExponent = e - 1 := by
      rw [minExponent]
      omega
    rw [hm52, ← ofParts_carry negative (by omega)]
    refine ofFraction_eq hn hd hexponent (by omega) ?_ ?_ (fun hodd => by norm_num at hodd) negative
    · rw [hhalf]
      norm_num at hlower ⊢
      linarith
    · rw [hhalf]
      norm_num at hsmall ⊢
      linarith

/-- Decimal digits with an exponent are read as the double that is nearest to them. -/
theorem ofDecimal_of_nearest {digits : ℕ} {exponent : ℤ} (hdigits : 0 < digits)
    (hleast : -400 ≤ exponent) (hgreatest : exponent ≤ 400) (hm : Canonical m e) (he : e ≤ 971)
    (h : Nearest m e (digits * 10 ^ exponent)) (negative : Bool) :
    ofDecimal negative digits exponent = ofParts negative m e := by
  unfold ofDecimal
  rw [if_neg hdigits.ne']
  by_cases hsign : 0 ≤ exponent
  · rw [if_pos hsign, if_neg (by omega)]
    refine ofFraction_of_nearest (Nat.mul_pos hdigits (tenTo_pos _)) one_pos hm he ?_ negative
    rw [ten_zpow_of_nonneg hsign] at h
    simpa using h
  · rw [if_neg hsign, if_neg (by omega)]
    refine ofFraction_of_nearest hdigits (tenTo_pos _) hm he ?_ negative
    rw [ten_zpow_of_neg (not_le.mp hsign)] at h
    exact h

/-- A zero is read whatever its exponent. -/
theorem ofDecimal_zero (negative : Bool) (exponent : ℤ) :
    ofDecimal negative 0 exponent = ofParts negative 0 0 :=
  if_pos rfl

end LayerBlend.Double
