import LayerBlend.Numeral.Digits
import LayerBlend.Proofs.Numeral.Nearest

/-!
# The fewest digits of a double

* `Digits.stripZeros_spec` — digits without the zeros behind them say the same number.
* `Digits.holds_iff` — the interval of a double holds the decimal numbers that the double is nearest
  to.
* `Fraction.magnitude_spec` — a fraction has at least as many digits as its magnitude says.
* `Digits.isSome_ofCount?` — a grid of decimal numbers that is finer than the interval has a point
  in it; a grid of seventeen digits is.
* `Digits.shortest_spec` — the digits that are chosen for a double are read as the double.
-/

namespace LayerBlend.Numeral

open Double

/-- The number that decimal digits say. -/
def Digits.toRat (d : Digits) : ℚ :=
  d.coefficient * 10 ^ d.exponent

/-- The number that a fraction says. -/
def Fraction.toRat (q : Fraction) : ℚ :=
  q.numerator / q.denominator

theorem ten_zpow_pos (e : ℤ) : (0 : ℚ) < 10 ^ e :=
  zpow_pos (by norm_num) e

/-- Dropping the zeros at the end of digits does not change what they say. -/
theorem Digits.stripZeros_spec (fuel : ℕ) (d : Digits) :
    (stripZeros fuel d).toRat = d.toRat ∧
      (0 < d.coefficient → 0 < (stripZeros fuel d).coefficient) ∧
      d.exponent ≤ (stripZeros fuel d).exponent ∧
      (stripZeros fuel d).exponent ≤ d.exponent + fuel := by
  induction fuel generalizing d with
  | zero => simp [stripZeros]
  | succ fuel ih =>
    unfold stripZeros
    by_cases h : d.coefficient ≠ 0 ∧ d.coefficient % 10 = 0
    · rw [if_pos h]
      obtain ⟨hvalue, hpos, hlow, hhigh⟩ := ih ⟨d.coefficient / 10, d.exponent + 1⟩
      refine ⟨hvalue.trans ?_, fun _ => hpos (Nat.div_pos (by omega) (by norm_num)), ?_, ?_⟩
      · have hten : (d.coefficient : ℚ) = 10 * (d.coefficient / 10 : ℕ) := by
          exact_mod_cast (Nat.mul_div_cancel' (Nat.dvd_of_mod_eq_zero h.2)).symm
        simp only [toRat]
        rw [hten, zpow_add_one₀ (by norm_num)]
        ring
      · exact (Int.le_add_one le_rfl).trans hlow
      · push_cast
        linarith
    · rw [if_neg h]
      refine ⟨rfl, id, le_rfl, ?_⟩
      push_cast
      linarith

/-! ## Magnitudes -/

namespace Fraction

/-- The fraction divided by a power of ten. -/
theorem toRat_perTenTo (q : Fraction) (exponent : ℤ) :
    (q.perTenTo exponent).toRat = q.toRat / 10 ^ exponent := by
  unfold perTenTo toRat
  by_cases h : 0 ≤ exponent
  · rw [if_pos h, ten_zpow_of_nonneg h]
    push_cast
    rw [div_div]
  · rw [if_neg h, ten_zpow_of_neg (not_le.mp h)]
    push_cast
    rw [div_inv_eq_mul]
    ring

theorem perTenTo_denominator_pos {q : Fraction} (h : 0 < q.denominator) (exponent : ℤ) :
    0 < (q.perTenTo exponent).denominator := by
  unfold perTenTo
  split
  · exact Nat.mul_pos h (tenTo_pos _)
  · exact h

/-- A search through numbers in a row stops at the first one that is found, or behind the last. -/
theorem exists_find_row (p : ℤ → Bool) (first : ℤ) (n : ℕ) :
    ∃ s ≤ n, (((List.range n).map fun (step : ℕ) => first + (step : ℤ)).find? p).getD (first + n) =
      first + s ∧ ∀ t < s, p (first + t) = false := by
  induction n with
  | zero => exact ⟨0, le_rfl, rfl, fun t ht => absurd ht (Nat.not_lt_zero t)⟩
  | succ n ih =>
    obtain ⟨s, hs, hfound, hbefore⟩ := ih
    rw [List.range_succ, List.map_append, List.find?_append]
    cases hrow : ((List.range n).map fun (step : ℕ) => first + (step : ℤ)).find? p with
    | some k =>
      rw [hrow] at hfound
      exact ⟨s, by omega, hfound, hbefore⟩
    | none =>
      rw [hrow, Option.getD_none] at hfound
      have hsn : s = n := by omega
      subst hsn
      by_cases hp : p (first + s) = true
      · exact ⟨s, by omega, by simp [hp], hbefore⟩
      · refine ⟨s + 1, le_rfl, by simp [hp], fun t ht => ?_⟩
        rcases Nat.lt_succ_iff_lt_or_eq.mp ht with ht | rfl
        · exact hbefore t ht
        · exact Bool.not_eq_true _ ▸ hp

/-- The first guess at the magnitude of a fraction. -/
def guess (q : Fraction) : ℤ :=
  ((Nat.log2 q.numerator : ℤ) - (Nat.log2 q.denominator : ℤ)) * 30103 / 100000 - 1

/-- A fraction that reaches the guess at its magnitude reaches its magnitude. -/
theorem magnitude_spec {q : Fraction} (hpos : 0 < q.denominator)
    (hguess : (10 : ℚ) ^ (q.guess - 1) ≤ q.toRat) :
    (10 : ℚ) ^ (q.magnitude - 1) ≤ q.toRat ∧ q.guess ≤ q.magnitude ∧
      q.magnitude ≤ q.guess + 5 := by
  obtain ⟨s, hs, hfound, hbefore⟩ := exists_find_row
    (fun k => decide ((q.perTenTo k).numerator < (q.perTenTo k).denominator)) q.guess 5
  have hmagnitude : q.magnitude = q.guess + s := hfound
  rw [hmagnitude]
  refine ⟨?_, by omega, by omega⟩
  rcases Nat.eq_zero_or_pos s with rfl | hs'
  · simpa using hguess
  · have hlast := hbefore (s - 1) (by omega)
    have hexponent : q.guess + ((s - 1 : ℕ) : ℤ) = q.guess + s - 1 := by omega
    rw [decide_eq_false_iff_not, not_lt, hexponent] at hlast
    have hpos' : (0 : ℚ) < (q.perTenTo (q.guess + s - 1)).denominator := by
      exact_mod_cast perTenTo_denominator_pos hpos _
    have hone : (1 : ℚ) ≤ (q.perTenTo (q.guess + s - 1)).toRat := by
      rw [toRat, one_le_div hpos']
      exact_mod_cast hlast
    rwa [toRat_perTenTo, one_le_div (ten_zpow_pos _)] at hone

end Fraction

/-- Powers of two have about three tenths as many digits as their exponent says. -/
theorem ten_zpow_le_two_zpow {l : ℤ} (hlow : -1100 < l) (hhigh : l < 1100) :
    (10 : ℚ) ^ (l * 30103 / 100000 - 2) ≤ 2 ^ l := by
  have hpositive : ∀ n < 1100, 10 ^ (n * 30103 / 100000) ≤ 100 * 2 ^ n := by decide +kernel
  have hnegative : ∀ n < 1100, 2 ^ n ≤ 10 ^ ((n * 30103 + 99999) / 100000 + 2) := by
    decide +kernel
  obtain ⟨n, rfl | rfl⟩ := l.eq_nat_or_neg
  · have h : ((10 : ℚ) ^ (n * 30103 / 100000)) ≤ 100 * 2 ^ n := by
      exact_mod_cast hpositive n (by omega)
    have hexponent : ((n : ℤ) * 30103 / 100000) = (n * 30103 / 100000 : ℕ) := by omega
    rw [hexponent, zpow_sub₀ (by norm_num), zpow_natCast, zpow_natCast, div_le_iff₀ (by norm_num)]
    norm_num
    linarith
  · have h : (2 : ℚ) ^ n ≤ 10 ^ ((n * 30103 + 99999) / 100000 + 2) := by
      exact_mod_cast hnegative n (by omega)
    have hexponent : (-(n : ℤ) * 30103 / 100000) - 2 =
        -(((n * 30103 + 99999) / 100000 + 2 : ℕ) : ℤ) := by omega
    rw [hexponent, zpow_neg, zpow_neg, zpow_natCast, zpow_natCast]
    exact inv_anti₀ (by positivity) h

namespace Digits

/-! ## Intervals -/

section

variable {m : ℕ} {e : ℤ}

/-- The common denominator of an interval is a power of two. -/
theorem exists_denominator (m : ℕ) (e : ℤ) :
    ∃ k : ℕ, (Interval.ofParts m e).denominator = 2 ^ k ∧ (e < 2 → (k : ℤ) = 2 - e) ∧
      (2 ≤ e → k = 0) := by
  by_cases h : 0 ≤ e - 2
  · exact ⟨0, if_pos h, by omega, fun _ => rfl⟩
  · refine ⟨(2 - e).toNat, ?_, by omega, by omega⟩
    have hscale : (-(e - 2)).toNat = (2 - e).toNat := by omega
    simp only [Interval.ofParts, if_neg h, hscale]
    rfl

theorem denominator_pos (m : ℕ) (e : ℤ) : 0 < (Interval.ofParts m e).denominator := by
  obtain ⟨k, hk, _⟩ := exists_denominator m e
  rw [hk]
  exact Nat.two_pow_pos k

/-- The three numbers of an interval, in units of the double. -/
theorem interval_eq (hm : 0 < m) (e : ℤ) :
    let i := Interval.ofParts m e
    (i.value : ℚ) = m * 2 ^ e * i.denominator ∧
      (i.lower : ℚ) = (m - reachBelow m e / 4) * 2 ^ e * i.denominator ∧
      (i.upper : ℚ) = (m + 1 / 2) * 2 ^ e * i.denominator := by
  have hfactor : ((if 0 ≤ e - 2 then twoTo (e - 2).toNat else 1 : ℕ) : ℚ) =
      2 ^ e / 4 * (if 0 ≤ e - 2 then 1 else twoTo (-(e - 2)).toNat : ℕ) := by
    have hquarter : (2 : ℚ) ^ e / 4 = 2 ^ (e - 2) := by
      rw [zpow_sub₀ two_ne_zero]
      norm_num
    rw [hquarter]
    by_cases h : 0 ≤ e - 2
    · rw [if_pos h, if_pos h, two_zpow_of_nonneg h]
      simp
    · have hpos : (twoTo (-(e - 2)).toNat : ℚ) ≠ 0 := by exact_mod_cast (twoTo_pos _).ne'
      rw [if_neg h, if_neg h, two_zpow_of_neg (not_le.mp h), inv_mul_cancel₀ hpos]
      simp
  have hreach : (if (decide (m = twoTo 52) && decide (minExponent < e)) = true then 1 else 2) =
      reachBelow m e := by
    simp only [Bool.and_eq_true, decide_eq_true_eq]
    rfl
  have hle : reachBelow m e ≤ 4 * m := by
    unfold reachBelow
    split <;> omega
  dsimp only [Interval.ofParts]
  rw [hreach]
  push_cast [Nat.cast_sub hle]
  push_cast at hfactor
  rw [hfactor]
  refine ⟨by ring, by ring, by ring⟩

/-- The value of an interval is the double. -/
theorem toRat_value (hm : 0 < m) (e : ℤ) :
    Fraction.toRat ⟨(Interval.ofParts m e).value, (Interval.ofParts m e).denominator⟩ =
      m * 2 ^ e := by
  rw [Fraction.toRat, div_eq_iff (by exact_mod_cast (denominator_pos m e).ne')]
  exact (interval_eq hm e).1

/-- A decimal number lies in the interval of a double. -/
theorem holds_iff (hm : 0 < m) (exponent : ℤ) (c : ℕ) :
    (Interval.ofParts m e).holds exponent c = true ↔
      if m % 2 = 0 then
        (m - reachBelow m e / 4) * 2 ^ e ≤ (c : ℚ) * 10 ^ exponent ∧
          (c : ℚ) * 10 ^ exponent ≤ (m + 1 / 2) * 2 ^ e
      else
        (m - reachBelow m e / 4) * 2 ^ e < (c : ℚ) * 10 ^ exponent ∧
          (c : ℚ) * 10 ^ exponent < (m + 1 / 2) * 2 ^ e := by
  obtain ⟨_, hlower, hupper⟩ := interval_eq hm e
  have hden : (0 : ℚ) < (Interval.ofParts m e).denominator := by exact_mod_cast denominator_pos m e
  have hclosed : (Interval.ofParts m e).closed = decide (m % 2 = 0) := rfl
  obtain ⟨down, hdown⟩ : ∃ down, (if 0 ≤ exponent then 1 else tenTo (-exponent).toNat) = down :=
    ⟨_, rfl⟩
  obtain ⟨up, hup⟩ : ∃ up, (if 0 ≤ exponent then tenTo exponent.toNat else 1) = up := ⟨_, rfl⟩
  obtain ⟨hpos, hpower⟩ : 0 < down ∧ (up : ℚ) = 10 ^ exponent * down := by
    rw [← hdown, ← hup]
    by_cases h : 0 ≤ exponent
    · simp [if_pos h, ten_zpow_of_nonneg h]
    · have hpos : (tenTo (-exponent).toNat : ℚ) ≠ 0 := by exact_mod_cast (tenTo_pos _).ne'
      rw [if_neg h, if_neg h, ten_zpow_of_neg (not_le.mp h), inv_mul_cancel₀ hpos]
      exact ⟨tenTo_pos _, by simp⟩
  have hpos' : (0 : ℚ) < (Interval.ofParts m e).denominator * down :=
    mul_pos hden (by exact_mod_cast hpos)
  unfold Interval.holds
  simp only [hdown, hup, hclosed, decide_eq_true_eq]
  generalize (Interval.ofParts m e).denominator = den at *
  generalize (Interval.ofParts m e).lower = lower at *
  generalize (Interval.ofParts m e).upper = upper at *
  have hlower' : ((lower * down : ℕ) : ℚ) = (m - reachBelow m e / 4) * 2 ^ e * (den * down) := by
    push_cast
    rw [hlower]
    ring
  have hupper' : ((upper * down : ℕ) : ℚ) = (m + 1 / 2) * 2 ^ e * (den * down) := by
    push_cast
    rw [hupper]
    ring
  have hpoint : ((c * up * den : ℕ) : ℚ) = c * 10 ^ exponent * (den * down) := by
    push_cast
    rw [hpower]
    ring
  split
  · simp only [Bool.and_eq_true, decide_eq_true_eq]
    rw [← Nat.cast_le (α := ℚ), ← Nat.cast_le (α := ℚ), hlower', hupper', hpoint,
      mul_le_mul_iff_of_pos_right hpos', mul_le_mul_iff_of_pos_right hpos']
  · simp only [Bool.and_eq_true, decide_eq_true_eq]
    rw [← Nat.cast_lt (α := ℚ), ← Nat.cast_lt (α := ℚ), hlower', hupper', hpoint,
      mul_lt_mul_iff_of_pos_right hpos', mul_lt_mul_iff_of_pos_right hpos']

/-- The double is nearest to the decimal numbers in its interval. -/
theorem nearest_of_holds (hm : 0 < m) {exponent : ℤ} {c : ℕ}
    (h : (Interval.ofParts m e).holds exponent c = true) :
    Nearest m e (c * 10 ^ exponent) := by
  have hunit := two_zpow_pos e
  rw [holds_iff hm] at h
  split at h
  · next heven =>
    exact ⟨(le_div_iff₀ hunit).mpr h.1, (div_le_iff₀ hunit).mpr h.2, by omega⟩
  · have hlow := (lt_div_iff₀ hunit).mpr h.1
    have hhigh := (div_lt_iff₀ hunit).mpr h.2
    exact ⟨hlow.le, hhigh.le, fun _ => ⟨hlow, hhigh⟩⟩

/-- A number that is nearer to the double than the ends of its interval lies in it. -/
theorem holds_of_near (hm : 0 < m) {exponent : ℤ} {c : ℕ}
    (h : |m * 2 ^ e - (c : ℚ) * 10 ^ exponent| < reachBelow m e / 4 * 2 ^ e) :
    (Interval.ofParts m e).holds exponent c = true := by
  have hunit := two_zpow_pos e
  have hreach := reachBelow_le m e
  have hhalf : (reachBelow m e : ℚ) / 4 * 2 ^ e ≤ 1 / 2 * 2 ^ e :=
    mul_le_mul_of_nonneg_right (by linarith) hunit.le
  obtain ⟨hlow, hhigh⟩ := abs_lt.mp h
  rw [holds_iff hm]
  split
  · constructor <;> linarith
  · constructor <;> linarith

/-! ## The choice of digits -/

/-- The digits that are chosen of a grid lie in the interval. -/
theorem holds_of_ofCount? {i : Interval} {magnitude : ℤ} {count : ℕ} {d : Digits}
    (h : ofCount? i magnitude count = some d) :
    d.exponent = magnitude - count ∧ i.holds d.exponent d.coefficient = true := by
  obtain ⟨c, hc, rfl⟩ := Option.map_eq_some_iff.mp h
  exact ⟨rfl, List.find?_some hc⟩

/-- One of the two whole numbers around a quotient is at most a half away from it. -/
theorem exists_near (n : ℕ) {d : ℕ} (hd : 0 < d) :
    ∃ c, (c = n / d ∨ c = n / d + 1) ∧ |(n : ℚ) / d - c| ≤ 1 / 2 := by
  have hd' : (0 : ℚ) < d := by exact_mod_cast hd
  have hquotient : (n : ℚ) / d = (n / d : ℕ) + (n % d : ℕ) / d := by
    rw [div_eq_iff hd'.ne', add_mul, div_mul_cancel₀ _ hd'.ne']
    exact_mod_cast (Nat.div_add_mod' n d).symm
  have hlt := Nat.mod_lt n hd
  rw [hquotient]
  by_cases hrest : 2 * (n % d) ≤ d
  · refine ⟨n / d, Or.inl rfl, ?_⟩
    rw [add_sub_cancel_left, abs_of_nonneg (by positivity), div_le_div_iff₀ hd' two_pos]
    exact_mod_cast (by omega : n % d * 2 ≤ 1 * d)
  · have hhalf : (1 : ℚ) / 2 ≤ (n % d : ℕ) / d := by
      rw [div_le_div_iff₀ two_pos hd']
      exact_mod_cast (by omega : 1 * d ≤ n % d * 2)
    have hone : ((n % d : ℕ) : ℚ) / d ≤ 1 := by
      rw [div_le_one hd']
      exact_mod_cast hlt.le
    refine ⟨n / d + 1, Or.inr rfl, abs_le.mpr ⟨?_, ?_⟩⟩
    · push_cast at hhalf ⊢
      linarith
    · push_cast at hone ⊢
      linarith

/-- A grid that is finer than the interval has a point in it. -/
theorem isSome_ofCount? (hm : 0 < m) {magnitude : ℤ} {count : ℕ}
    (h : (10 : ℚ) ^ (magnitude - count) / 2 < reachBelow m e / 4 * 2 ^ e) :
    (ofCount? (Interval.ofParts m e) magnitude count).isSome = true := by
  obtain ⟨exponent, hexponent⟩ : ∃ exponent, magnitude - count = exponent := ⟨_, rfl⟩
  have hunit : (0 : ℚ) < 10 ^ exponent := ten_zpow_pos exponent
  have hscaled := Fraction.toRat_perTenTo
    ⟨(Interval.ofParts m e).value, (Interval.ofParts m e).denominator⟩ exponent
  have hpos := Fraction.perTenTo_denominator_pos
    (q := ⟨(Interval.ofParts m e).value, (Interval.ofParts m e).denominator⟩)
    (denominator_pos m e) exponent
  rw [hexponent] at h
  unfold ofCount?
  dsimp only
  rw [hexponent]
  generalize Fraction.perTenTo _ exponent = scaled at hscaled hpos ⊢
  rw [toRat_value hm e, Fraction.toRat, eq_div_iff hunit.ne'] at hscaled
  -- both whole numbers are tried, in whatever order
  obtain ⟨c, hc, hnear⟩ := exists_near scaled.numerator hpos
  have hpoint : |m * 2 ^ e - (c : ℚ) * 10 ^ exponent| ≤ 10 ^ exponent / 2 := by
    rw [← hscaled, ← sub_mul, abs_mul, abs_of_pos hunit]
    linarith [mul_le_mul_of_nonneg_right hnear hunit.le]
  rw [Option.isSome_map, List.find?_isSome]
  refine ⟨c, ?_, holds_of_near hm (hpoint.trans_lt h)⟩
  split <;> rcases hc with rfl | rfl <;> simp

/-- The value of an interval is at least the power of two of the binary digits it is written with,
which are not too many. -/
theorem digits_of_interval (hm : 0 < m) (hc : Canonical m e) (he : e ≤ 971) :
    ∃ l : ℤ, -1100 < l ∧ l < 1100 ∧ (2 : ℚ) ^ l ≤ m * 2 ^ e ∧
      Fraction.guess ⟨(Interval.ofParts m e).value, (Interval.ofParts m e).denominator⟩ =
        l * 30103 / 100000 - 1 := by
  obtain ⟨k, hk, hsmall, hlarge⟩ := exists_denominator m e
  have hleast := hc.least
  have hvalue : ((Interval.ofParts m e).value : ℚ) = m * 2 ^ e * 2 ^ k := by
    rw [(interval_eq hm e).1, hk]
    push_cast
    rfl
  have hunit := two_zpow_pos e
  have hm' : (0 : ℚ) < m := by exact_mod_cast hm
  have hpos : (Interval.ofParts m e).value ≠ 0 := by
    intro hzero
    rw [hzero] at hvalue
    have : (0 : ℚ) < m * 2 ^ e * 2 ^ k := by positivity
    rw [← hvalue] at this
    exact absurd this (by norm_num)
  have hlog : (2 : ℚ) ^ (((Interval.ofParts m e).value.log2 : ℤ) - k) ≤ m * 2 ^ e := by
    rw [zpow_sub₀ two_ne_zero, zpow_natCast, zpow_natCast, div_le_iff₀ (by positivity), ← hvalue]
    exact_mod_cast Nat.log2_self_le hpos
  have hrange : (m : ℚ) * 2 ^ e < 2 ^ (1024 : ℤ) :=
    (hc.lt_two_zpow (f := e + 1) (by omega)).trans_le
      (zpow_le_zpow_right₀ one_le_two (by omega))
  have hlt : ((Interval.ofParts m e).value.log2 : ℤ) - k < 1024 :=
    (zpow_lt_zpow_iff_right₀ one_lt_two).mp (hlog.trans_lt hrange)
  exact ⟨_, by omega, by omega, hlog, by rw [Fraction.guess, hk, Nat.log2_two_pow]⟩

/-- The grid of seventeen digits is finer than the interval of a double. -/
theorem seventeen_digits (hc : Canonical m e) {magnitude : ℤ}
    (h : (10 : ℚ) ^ (magnitude - 1) ≤ m * 2 ^ e) :
    (10 : ℚ) ^ (magnitude - (17 : ℕ)) / 2 < reachBelow m e / 4 * 2 ^ e := by
  have hunit := two_zpow_pos e
  have hgrid : (10 : ℚ) ^ (magnitude - (17 : ℕ)) * 10 ^ 16 = 10 ^ (magnitude - 1) := by
    rw [← zpow_natCast, ← zpow_add₀ (by norm_num)]
    congr 1
    push_cast
    ring
  rw [← hgrid] at h
  unfold reachBelow
  split
  · next hpower =>
    rw [hpower.1] at h
    push_cast at h ⊢
    linarith
  · have hlt : (m : ℚ) < 2 ^ 53 := by exact_mod_cast hc.lt
    have hupper : (m : ℚ) * 2 ^ e ≤ 2 ^ 53 * 2 ^ e := mul_le_mul_of_nonneg_right hlt.le hunit.le
    push_cast at h ⊢
    linarith

/-- The digits that are chosen for a double are read as the double. -/
theorem shortest_spec (hm : 0 < m) (hc : Canonical m e) (he : e ≤ 971) :
    0 < (shortest m e).coefficient ∧ -400 ≤ (shortest m e).exponent ∧
      (shortest m e).exponent ≤ 400 ∧ Nearest m e (shortest m e).toRat := by
  obtain ⟨l, hlow, hhigh, hl, hguess⟩ := digits_of_interval hm hc he
  have hden := denominator_pos m e
  have hvalue := toRat_value hm e
  obtain ⟨hmagnitude, hleast, hgreatest⟩ := Fraction.magnitude_spec
    (q := ⟨(Interval.ofParts m e).value, (Interval.ofParts m e).denominator⟩) hden (by
      rw [hguess, hvalue, sub_sub]
      exact (ten_zpow_le_two_zpow hlow hhigh).trans hl)
  rw [hvalue] at hmagnitude
  have hlast := isSome_ofCount? hm (seventeen_digits hc hmagnitude)
  unfold shortest
  dsimp only
  generalize Fraction.magnitude _ = magnitude at *
  obtain ⟨d, hd⟩ : ∃ d, (List.range 17).findSome? (fun n =>
      ofCount? (Interval.ofParts m e) magnitude (n + 1)) = some d := by
    rw [← Option.isSome_iff_exists, List.findSome?_isSome_iff]
    exact ⟨16, by simp, hlast⟩
  rw [hd, Option.getD_some]
  obtain ⟨n, hn, hfound⟩ := List.exists_of_findSome?_eq_some hd
  rw [List.mem_range] at hn
  obtain ⟨hexponent, hholds⟩ := holds_of_ofCount? hfound
  obtain ⟨hstrip, hpos, hmore, hless⟩ := stripZeros_spec 20 d
  have hnearest := nearest_of_holds hm hholds
  have hcoefficient : 0 < d.coefficient := by
    refine Nat.pos_of_ne_zero fun hzero => ?_
    have hlower := hnearest.lower
    have hone : (1 : ℚ) ≤ m := by exact_mod_cast hm
    have hreach := reachBelow_le m e
    rw [hzero, Nat.cast_zero, zero_mul, zero_div] at hlower
    linarith
  exact ⟨hpos hcoefficient, by omega, by omega, hstrip ▸ hnearest⟩

end

end Digits

end LayerBlend.Numeral
