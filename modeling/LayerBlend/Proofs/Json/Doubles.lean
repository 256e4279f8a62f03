import LayerBlend.Proofs.Json.Scalars
import LayerBlend.Proofs.Numeral.Shortest

/-!
# Doubles that are written are read back

* `Numeral.IsDecimal s c x` — `s` is a numeral with a point or an exponent that says
  `c * 10 ^ x`.
* `Numeral.isDecimal_write` — digits are laid out as such a numeral.
* `Json.Reader.number?_decimal` — such a numeral is read as the nearest double.
* `Json.Reader.scalar?_writeDouble` — every double is read back from the digits that are written for
  it, the infinities and the NaN from their words.
-/

namespace LayerBlend

open Json.Reader (IsWhole isWhole_of_isNumeral StopsDigits Follows)
open Text.Radix (valueOf isNumeral_write)

namespace Text

/-- Digits behind others are lower digits. -/
theorem ofDigits_append (a b : List ℕ) :
    ofDigits (a ++ b) = ofDigits a * 10 ^ b.length + ofDigits b := by
  have hfold : ∀ (b : List ℕ) (n : ℕ), b.foldl (fun n d => 10 * n + d) n =
      n * 10 ^ b.length + b.foldl (fun n d => 10 * n + d) 0 := by
    intro b
    induction b with
    | nil => simp
    | cons d b ih =>
      intro n
      rw [List.foldl_cons, List.foldl_cons, ih, ih (10 * 0 + d), List.length_cons, pow_succ]
      ring
  rw [ofDigits, List.foldl_append, hfold]
  rfl

/-- Zeros say nothing by themselves. -/
theorem ofDigits_zeros (k : ℕ) : ofDigits (List.replicate k 0) = 0 := by
  induction k with
  | zero => rfl
  | succ k ih => exact ih

/-- What is filled with zeros is made of digits. -/
theorem Radix.isDigit_writePadded (width n : ℕ) :
    ∀ c ∈ Radix.writePadded 10 width n, c.isDigit = true := by
  intro c hc
  rcases List.mem_append.mp hc with hc | hc
  · rw [List.eq_of_mem_replicate hc]
    rfl
  · exact (isNumeral_write n).digits c hc

end Text

namespace Numeral

/-! ## Numerals with a point or an exponent -/

/-- The digits behind a point, if there are any. -/
def pointed : List Char → List Char
  | [] => []
  | places => '.' :: places

/-- An exponent, if there is one. -/
def powered : Option ℤ → List Char
  | none => []
  | some power => Layout.writeExponent power

/-- The characters are a numeral with a point or an exponent that says `c * 10 ^ x`. -/
def IsDecimal (s : List Char) (c : ℕ) (x : ℤ) : Prop :=
  ∃ (whole places : List Char) (power : Option ℤ), s = whole ++ (pointed places ++ powered power) ∧
    IsWhole whole ∧ (∀ d ∈ places, d.isDigit = true) ∧ (places ≠ [] ∨ power ≠ none) ∧
    c = Text.ofDigits ((whole ++ places).map valueOf) ∧ x = power.getD 0 - places.length

/-- A numeral starts with a digit. -/
theorem IsDecimal.exists_cons {s : List Char} {c : ℕ} {x : ℤ} (h : IsDecimal s c x) :
    ∃ d rest, s = d :: rest ∧ d.isDigit = true := by
  obtain ⟨whole, places, power, rfl, hwhole, _⟩ := h
  rcases hwhole.first with ⟨d, rest, rfl, _⟩ | rfl
  · exact ⟨d, _, rfl, hwhole.digits d List.mem_cons_self⟩
  · exact ⟨'0', _, rfl, rfl⟩

/-- A numeral holds no line end. -/
theorem IsDecimal.return_notMem {s : List Char} {c : ℕ} {x : ℤ} (h : IsDecimal s c x) :
    '\r' ∉ s := by
  have hdigits : ∀ {t : List Char}, (∀ d ∈ t, d.isDigit = true) → '\r' ∉ t :=
    fun ht hmem => absurd (ht _ hmem) (by decide)
  obtain ⟨whole, places, power, rfl, hwhole, hplaces, _⟩ := h
  simp only [List.mem_append, not_or]
  refine ⟨hdigits hwhole.digits, ?_, ?_⟩
  · cases places with
    | nil => simp [pointed]
    | cons d places => simpa [pointed] using hdigits hplaces
  · cases power with
    | none => simp [powered]
    | some power =>
      have hpadded := hdigits (Text.Radix.isDigit_writePadded 2 power.natAbs)
      by_cases hsign : power < 0
      · simpa [powered, Layout.writeExponent, hsign] using hpadded
      · simpa [powered, Layout.writeExponent, hsign] using hpadded

section

variable {d : Digits}

/-- The digits of a positive number start with one that is not zero. -/
theorem exists_cons_digits (h : 0 < d.coefficient) :
    ∃ c rest, Text.Radix.write 10 d.coefficient = c :: rest ∧ c ≠ '0' := by
  have hnumeral := isNumeral_write d.coefficient
  rcases hnumeral.first with hfirst | hzero
  · exact hfirst
  · have hvalue := hnumeral.value
    rw [hzero] at hvalue
    exact absurd hvalue.symm h.ne'

/-- Zeros are digits, and say zero. -/
theorem map_valueOf_zeros (k : ℕ) : (List.replicate k '0').map valueOf = List.replicate k 0 := by
  rw [List.map_replicate]
  rfl

/-- A number with few digits in front of its last one is written with zeros behind it. -/
theorem isDecimal_padded (hpos : 0 < d.coefficient) (k : ℕ) :
    IsDecimal (Text.Radix.write 10 d.coefficient ++ List.replicate k '0' ++ ['.', '0'])
      (d.coefficient * 10 ^ k * 10) (-1) := by
  have hnumeral := isNumeral_write d.coefficient
  obtain ⟨c, rest, hcons, hc⟩ := exists_cons_digits hpos
  refine ⟨Text.Radix.write 10 d.coefficient ++ List.replicate k '0', ['0'], none, ?_, ⟨?_, ?_⟩,
    by simp, by simp, ?_, rfl⟩
  · simp [pointed, powered]
  · intro e he
    rcases List.mem_append.mp he with he | he
    · exact hnumeral.digits e he
    · rw [List.eq_of_mem_replicate he]
      rfl
  · exact Or.inl ⟨c, rest ++ List.replicate k '0', by rw [hcons]; rfl, hc⟩
  · rw [List.map_append, List.map_append, map_valueOf_zeros, Text.ofDigits_append,
      Text.ofDigits_append, Text.ofDigits_zeros, hnumeral.value, List.length_replicate]
    rfl

/-- A number below one is written with zeros in front of its digits. -/
theorem isDecimal_fraction (hpos : 0 < d.coefficient) (k : ℕ) :
    IsDecimal (['0', '.'] ++ List.replicate k '0' ++ Text.Radix.write 10 d.coefficient)
      d.coefficient (-(k + (Text.Radix.write 10 d.coefficient).length : ℕ)) := by
  have hnumeral := isNumeral_write d.coefficient
  obtain ⟨c, rest, hcons, hc⟩ := exists_cons_digits hpos
  have hpointed : pointed (List.replicate k '0' ++ Text.Radix.write 10 d.coefficient) =
      '.' :: (List.replicate k '0' ++ Text.Radix.write 10 d.coefficient) := by
    rw [hcons]
    cases k <;> rfl
  refine ⟨['0'], List.replicate k '0' ++ Text.Radix.write 10 d.coefficient, none, ?_,
    ⟨by simp, Or.inr rfl⟩, ?_, Or.inl ?_, ?_, ?_⟩
  · rw [hpointed]
    simp [powered]
  · intro e he
    rcases List.mem_append.mp he with he | he
    · rw [List.eq_of_mem_replicate he]
      rfl
    · exact hnumeral.digits e he
  · simp [hcons]
  · rw [List.map_append, List.map_append, map_valueOf_zeros, Text.ofDigits_append,
      Text.ofDigits_append, Text.ofDigits_zeros, hnumeral.value]
    simp [Text.ofDigits, Text.Radix.valueOf]
  · simp

/-- A number between is written with a point between its digits. -/
theorem isDecimal_split (hpos : 0 < d.coefficient) {whole : ℕ} (hwhole : 0 < whole)
    (hlt : whole < (Text.Radix.write 10 d.coefficient).length) :
    IsDecimal ((Text.Radix.write 10 d.coefficient).take whole ++
        '.' :: (Text.Radix.write 10 d.coefficient).drop whole)
      d.coefficient (whole - (Text.Radix.write 10 d.coefficient).length) := by
  have hnumeral := isNumeral_write d.coefficient
  obtain ⟨c, rest, hcons, hc⟩ := exists_cons_digits hpos
  have hdrop : (Text.Radix.write 10 d.coefficient).drop whole ≠ [] := by
    rw [ne_eq, List.drop_eq_nil_iff]
    omega
  refine ⟨(Text.Radix.write 10 d.coefficient).take whole,
    (Text.Radix.write 10 d.coefficient).drop whole, none, ?_, ⟨?_, ?_⟩, ?_, Or.inl hdrop, ?_, ?_⟩
  · obtain ⟨e, places, hplaces⟩ := List.exists_cons_of_ne_nil hdrop
    rw [hplaces]
    simp [pointed, powered]
  · exact fun e he => hnumeral.digits e (List.mem_of_mem_take he)
  · obtain ⟨whole, rfl⟩ : ∃ k, whole = k + 1 := ⟨whole - 1, by omega⟩
    exact Or.inl ⟨c, rest.take whole, by rw [hcons, List.take_succ_cons], hc⟩
  · exact fun e he => hnumeral.digits e (List.mem_of_mem_drop he)
  · rw [List.take_append_drop, hnumeral.value]
  · rw [List.length_drop, Option.getD_none]
    omega

/-- A number that is too large or too small is written with an exponent. -/
theorem isDecimal_exponent (hpos : 0 < d.coefficient) (power : ℤ) :
    IsDecimal (match Text.Radix.write 10 d.coefficient with
        | [] => []
        | [c] => c :: Layout.writeExponent power
        | c :: rest => c :: '.' :: rest ++ Layout.writeExponent power)
      d.coefficient (power + 1 - (Text.Radix.write 10 d.coefficient).length) := by
  have hnumeral := isNumeral_write d.coefficient
  obtain ⟨c, rest, hcons, hc⟩ := exists_cons_digits hpos
  have hdigits := hnumeral.digits
  have hvalue := hnumeral.value
  rw [hcons] at hdigits hvalue ⊢
  rw [List.forall_mem_cons] at hdigits
  refine ⟨[c], rest, some power, ?_, ⟨by simpa using hdigits.1, Or.inl ⟨c, [], rfl, hc⟩⟩, hdigits.2,
    by simp, hvalue.symm, ?_⟩
  · cases rest <;> rfl
  · rw [List.length_cons, Option.getD_some]
    push_cast
    omega

end

/-- Digits are laid out as a numeral that says the same number. -/
theorem isDecimal_write {d : Digits} (hpos : 0 < d.coefficient) (hleast : -400 ≤ d.exponent)
    (hgreatest : d.exponent ≤ 400) :
    ∃ c x, IsDecimal (exactLayout.write d) c x ∧ 0 < c ∧ -400 ≤ x ∧ x ≤ 400 ∧
      (c : ℚ) * 10 ^ x = d.toRat := by
  have hlength : 0 < (Text.Radix.write 10 d.coefficient).length := by
    obtain ⟨c, rest, hcons, _⟩ := exists_cons_digits hpos
    simp [hcons]
  obtain ⟨first, hfirst⟩ : ∃ first : ℤ,
      d.exponent + (Text.Radix.write 10 d.coefficient).length - 1 = first := ⟨_, rfl⟩
  unfold Layout.write
  simp only [if_neg hpos.ne', hfirst, exactLayout, if_true]
  by_cases hpower : first < -4 ∨ 16 ≤ first
  · have hx : first + 1 - (Text.Radix.write 10 d.coefficient).length = d.exponent := by omega
    rw [if_pos (by simpa using hpower)]
    exact ⟨_, _, hx ▸ isDecimal_exponent hpos first, hpos, hleast, hgreatest, rfl⟩
  rw [if_neg (by simpa using hpower)]
  by_cases hwhole : 0 ≤ d.exponent
  · rw [if_pos hwhole]
    refine ⟨_, _, isDecimal_padded hpos d.exponent.toNat, by positivity, by norm_num, by norm_num,
      ?_⟩
    obtain ⟨k, hk⟩ := Int.eq_ofNat_of_zero_le hwhole
    simp only [Digits.toRat, hk, Int.toNat_natCast]
    push_cast
    rw [zpow_natCast]
    norm_num
    ring
  rw [if_neg hwhole]
  by_cases hsmall : first < 0
  · have hx : -(((-first - 1).toNat + (Text.Radix.write 10 d.coefficient).length : ℕ) : ℤ) =
        d.exponent := by omega
    rw [if_pos hsmall]
    exact ⟨_, _, hx ▸ isDecimal_fraction hpos _, hpos, hleast, hgreatest, rfl⟩
  · have hx : ((first + 1).toNat : ℤ) - (Text.Radix.write 10 d.coefficient).length =
        d.exponent := by omega
    rw [if_neg hsmall]
    exact ⟨_, _, hx ▸ isDecimal_split hpos (by omega) (by omega), hpos, hleast, hgreatest, rfl⟩

end Numeral

namespace Json.Reader

open Numeral

/-! ## Reading numerals -/

section

variable {places rest tail : List Char} {power : Option ℤ}

/-- Behind a numeral's digits stands no digit, and behind its places no second point. -/
theorem stops_powered (power : Option ℤ) (hrest : Follows rest) :
    StopsDigits (powered power ++ rest) ∧ ∀ c ∈ (powered power ++ rest).head?, c ≠ '.' := by
  cases power with
  | none =>
    refine ⟨hrest.stopsDigits, fun c hc => ?_⟩
    rcases hrest c hc with rfl | rfl <;> decide
  | some power =>
    constructor
    · rintro c ⟨⟩
      rfl
    · rintro c ⟨⟩
      decide

theorem stopsDigits_pointed (places : List Char) (htail : StopsDigits tail) :
    StopsDigits (pointed places ++ tail) := by
  cases places with
  | nil => exact htail
  | cons d places =>
    rintro c ⟨⟩
    rfl

/-- The places behind a point are read. -/
theorem fraction_pointed (hplaces : ∀ c ∈ places, c.isDigit = true) (htail : StopsDigits tail)
    (hpoint : ∀ c ∈ tail.head?, c ≠ '.') :
    fraction (pointed places ++ tail) = (places.map valueOf, tail) := by
  cases places with
  | nil =>
    unfold fraction
    split
    · next rest heq =>
      rw [pointed, List.nil_append] at heq
      exact absurd rfl (hpoint '.' (by rw [heq]; rfl))
    · rfl
  | cons d places =>
    have hdigits := digits_append hplaces htail
    show fraction ('.' :: (d :: places ++ tail)) = _
    rw [fraction, hdigits]
    rfl

/-- Digits with zeros in front are read as their number. -/
theorem digits_writePadded (n : ℕ) (hrest : StopsDigits rest) :
    ∃ d ds, digits (Text.Radix.writePadded 10 2 n ++ rest) = (d :: ds, rest) ∧
      Text.ofDigits (d :: ds) = n := by
  have hnumeral := isNumeral_write n
  have hdigits := Text.Radix.isDigit_writePadded 2 n
  have hvalue : Text.ofDigits ((Text.Radix.writePadded 10 2 n).map valueOf) = n := by
    rw [Text.Radix.writePadded, List.map_append, map_valueOf_zeros, Text.ofDigits_append,
      Text.ofDigits_zeros, hnumeral.value, zero_mul, zero_add]
  have hne : (Text.Radix.writePadded 10 2 n).map valueOf ≠ [] := by
    obtain ⟨c, others, hcons, _⟩ := hnumeral.exists_cons
    simp [Text.Radix.writePadded, hcons]
  obtain ⟨d, ds, hcons⟩ := List.exists_cons_of_ne_nil hne
  exact ⟨d, ds, by rw [digits_append hdigits hrest, hcons], by rw [← hcons, hvalue]⟩

/-- An exponent is read. -/
theorem exponent_powered (power : Option ℤ) (hrest : Follows rest) :
    exponent (powered power ++ rest) = (power, rest) := by
  cases power with
  | none => exact exponent_of_follows hrest
  | some power =>
    obtain ⟨d, ds, hdigits, hvalue⟩ := digits_writePadded power.natAbs hrest.stopsDigits
    simp only [powered, Layout.writeExponent, List.cons_append]
    by_cases hsign : power < 0
    · simp [exponent, sign, hsign, hdigits, hvalue, abs_of_neg hsign]
    · simp [exponent, sign, hsign, hdigits, hvalue, abs_of_nonneg (not_lt.mp hsign)]

/-- A numeral with a point or an exponent is read as the double nearest to what it says. -/
theorem number?_decimal {s : List Char} {c : ℕ} {x : ℤ} (h : IsDecimal s c x)
    (hrest : Follows rest) (negative : Bool) :
    number? negative (s ++ rest) = some (.double (Double.ofDecimal negative c x), rest) := by
  obtain ⟨whole, places, power, rfl, hwhole, hplaces, hkind, rfl, rfl⟩ := h
  obtain ⟨hstops, hpoint⟩ := stops_powered power hrest
  have hmark : (((places.map valueOf).isEmpty && power.isNone) = true) = False := by
    rcases hkind with hne | hne
    · simp [hne]
    · simp [hne]
  unfold number?
  rw [List.append_assoc, List.append_assoc,
    whole?_append hwhole (stopsDigits_pointed places hstops)]
  simp only [Option.bind_eq_bind, Option.bind_some, fraction_pointed hplaces hstops hpoint,
    exponent_powered power hrest, hmark, if_false]
  rw [List.map_append, List.length_map]
  rfl

end

/-! ## Doubles -/

section

variable {x : Float} {negative : Bool} {m : ℕ} {e : ℤ}

/-- The digits of a finite double, without its sign. -/
def digitsOf (m : ℕ) (e : ℤ) : List Char :=
  exactLayout.write (if m = 0 then ⟨0, 0⟩ else Digits.shortest m e)

/-- A finite double is written by its sign and its digits. -/
theorem writeDouble_of_parts (h : Double.parts x = .finite negative m e) :
    Writer.double x = (if negative then ['-'] else []) ++ digitsOf m e := by
  have hnan : x.isNaN = false := by
    rw [Bool.eq_false_iff, ne_eq, Double.isNaN_iff, h]
    exact nofun
  have hinfinity := Double.beq_infinity_of_parts h
  unfold Writer.double
  rw [hnan, hinfinity.1, hinfinity.2]
  simp only [Bool.false_eq_true, if_false, showExact, showDouble, h, String.toList_ofList]
  rfl

/-- The digits of a finite double are a numeral that is read as the double. -/
theorem isDecimal_digitsOf (h : Double.parts x = .finite negative m e) :
    ∃ c p, IsDecimal (digitsOf m e) c p ∧ Double.ofDecimal negative c p = x := by
  obtain ⟨hcanonical, he⟩ := Double.canonical_of_parts h
  have hself := Double.ofParts_of_parts h
  unfold digitsOf
  rcases Nat.eq_zero_or_pos m with rfl | hm
  · refine ⟨0, -1, ⟨['0'], ['0'], none, rfl, ⟨by simp, Or.inr rfl⟩, by simp, by simp, rfl, rfl⟩, ?_⟩
    rw [Double.ofDecimal_zero, ← hself, hcanonical.least_of_zero]
    cases negative <;> rfl
  · obtain ⟨hpos, hleast, hgreatest, hnearest⟩ := Digits.shortest_spec hm hcanonical he
    obtain ⟨c, p, hdecimal, hc, hlow, hhigh, hvalue⟩ := isDecimal_write hpos hleast hgreatest
    rw [if_neg hm.ne']
    refine ⟨c, p, hdecimal, ?_⟩
    rw [Double.ofDecimal_of_nearest hc hlow hhigh hcanonical he (hvalue ▸ hnearest), hself]

/-- A double is written by a word, or by a sign and a numeral that is read as the double. -/
theorem writeDouble_cases (x : Float) :
    (x = Double.nan ∧ Writer.double x = ['N', 'a', 'N']) ∨
      (x = Double.infinity ∧ Writer.double x = ['I', 'n', 'f', 'i', 'n', 'i', 't', 'y']) ∨
      (x = -Double.infinity ∧
        Writer.double x = ['-', 'I', 'n', 'f', 'i', 'n', 'i', 't', 'y']) ∨
      ∃ negative s c p, Writer.double x = (if negative then ['-'] else []) ++ s ∧
        IsDecimal s c p ∧ Double.ofDecimal negative c p = x := by
  cases hparts : Double.parts x with
  | nan =>
    rw [Double.parts_eq_nan.mp hparts]
    exact Or.inl ⟨rfl, by decide +kernel⟩
  | infinite negative =>
    rw [Double.eq_infinity_of_parts hparts]
    by_cases hsign : negative = true
    · rw [if_pos hsign]
      exact Or.inr (Or.inr (Or.inl ⟨rfl, by decide +kernel⟩))
    · rw [if_neg hsign]
      exact Or.inr (Or.inl ⟨rfl, by decide +kernel⟩)
  | finite negative m e =>
    obtain ⟨c, p, hdecimal, hvalue⟩ := isDecimal_digitsOf hparts
    exact Or.inr (Or.inr (Or.inr
      ⟨negative, _, c, p, writeDouble_of_parts hparts, hdecimal, hvalue⟩))

/-- A double that is written is read back. -/
theorem scalar?_writeDouble (x : Float) {rest : List Char} (hrest : Follows rest) :
    scalar? (Writer.double x ++ rest) = some (.double x, rest) := by
  rcases writeDouble_cases x with ⟨hx, hword⟩ | ⟨hx, hword⟩ | ⟨hx, hword⟩ |
    ⟨negative, s, c, p, hword, hdecimal, hvalue⟩
  · rw [hword, hx]
    rfl
  · rw [hword, hx]
    rfl
  · rw [hword, hx]
    rfl
  · have hread := number?_decimal hdecimal hrest negative
    obtain ⟨d, digits, hcons, hdigit⟩ := hdecimal.exists_cons
    rw [hcons, List.cons_append, hvalue] at hread
    rw [hword, hcons]
    by_cases hsign : negative = true
    · rw [if_pos hsign]
      rw [hsign] at hread
      exact (scalar?_minus hdigit _).trans hread
    · rw [if_neg hsign]
      rw [Bool.not_eq_true] at hsign
      rw [hsign] at hread
      exact (scalar?_of_isDigit hdigit _).trans hread

/-- The first character of a double that is written. -/
theorem exists_first_double (x : Float) :
    ∃ c s, Writer.double x = c :: s ∧ (c = 'N' ∨ c = 'I' ∨ c = '-' ∨ c.isDigit = true) := by
  rcases writeDouble_cases x with ⟨_, hword⟩ | ⟨_, hword⟩ | ⟨_, hword⟩ |
    ⟨negative, s, c, p, hword, hdecimal, _⟩
  · exact ⟨'N', _, hword, by simp⟩
  · exact ⟨'I', _, hword, by simp⟩
  · exact ⟨'-', _, hword, by simp⟩
  · obtain ⟨d, digits, hcons, hdigit⟩ := hdecimal.exists_cons
    rw [hword, hcons]
    by_cases hsign : negative = true
    · rw [if_pos hsign]
      exact ⟨'-', d :: digits, rfl, by simp⟩
    · rw [if_neg hsign]
      exact ⟨d, digits, rfl, by simp [hdigit]⟩

/-- A double is written on one line. -/
theorem return_notMem_writeDouble (x : Float) : '\r' ∉ Writer.double x := by
  rcases writeDouble_cases x with ⟨_, hword⟩ | ⟨_, hword⟩ | ⟨_, hword⟩ |
    ⟨negative, s, c, p, hword, hdecimal, _⟩
  · simp [hword]
  · simp [hword]
  · simp [hword]
  · rw [hword, List.mem_append]
    rintro (hmem | hmem)
    · split at hmem <;> simp at hmem
    · exact hdecimal.return_notMem hmem

end

end Json.Reader

end LayerBlend
