import LayerBlend.Json.Reader
import LayerBlend.Proofs.Json.Halves
import LayerBlend.Proofs.Text.Numerals

/-!
# Texts and integers that are written are read back

* `Json.Reader.text?_escape` — a text is read back from between its quotes.
* `Json.Reader.Follows rest` — `rest` is what stands behind a value of a document that is written:
  nothing, a comma or the end of a line.
* `Json.Reader.number?_write`, `Json.Reader.scalar?_writeInt` — an integer is read back.
-/

namespace LayerBlend.Json.Reader

open Text.Radix (IsNumeral isNumeral_write)

/-! ## Texts -/

/-- The units of a text with one more in front. -/
def withUnit (unit : Nat) (found : Option (List Nat × List Char)) : Option (List Nat × List Char) :=
  found.map fun (units, rest) => (unit :: units, rest)

/-- A control character is written by the four hexadecimal digits of its number. -/
theorem hexNumber?_writePadded {n : Nat} (h : n < 0x20) :
    ∃ a b d e, Text.Radix.writePadded 16 4 n = [a, b, d, e] ∧ hexNumber? [a, b, d, e] = some n := by
  have hall : ∀ n < 0x20, (Text.Radix.writePadded 16 4 n).length = 4 ∧
      hexNumber? (Text.Radix.writePadded 16 4 n) = some n := by decide
  obtain ⟨hlength, hvalue⟩ := hall n h
  match hdigits : Text.Radix.writePadded 16 4 n, hlength with
  | [a, b, d, e], _ => exact ⟨a, b, d, e, rfl, hdigits ▸ hvalue⟩

/-- A character that is not escaped is read as its number. -/
theorem units?_plain {c : Char} (hquote : c ≠ '"') (hbackslash : c ≠ '\\')
    (hplain : ¬ c.toNat < 0x20) (s : List Char) :
    units? (c :: s) = withUnit c.toNat (units? s) := by
  rw [units?.eq_def]
  simp only [if_neg hquote, if_neg hbackslash, if_neg hplain]
  cases units? s <;> rfl

/-- A backslash and a letter are read as what the letter stands for. -/
theorem units?_letter {letter : Char} {unit : Nat} (h : escape? letter = some unit)
    (s : List Char) : units? ('\\' :: letter :: s) = withUnit unit (units? s) := by
  have hu : letter ≠ 'u' := by
    rintro rfl
    cases h
  rw [units?.eq_def]
  simp only [if_false, if_true, Char.reduceEq]
  split
  · next heq => exact absurd (List.cons.inj heq).1 hu
  · next heq =>
    obtain ⟨rfl, rfl⟩ := List.cons.inj heq
    rw [h]
    cases units? s <;> rfl
  · next heq => cases heq

/-- A backslash, `u` and four digits are read as the number of the digits. -/
theorem units?_number {a b d e : Char} {unit : Nat} (h : hexNumber? [a, b, d, e] = some unit)
    (s : List Char) :
    units? ('\\' :: 'u' :: a :: b :: d :: e :: s) = withUnit unit (units? s) := by
  rw [units?.eq_def]
  simp only [Char.reduceEq, if_false, if_true, h]
  cases units? s <;> rfl

/-- A character that is written is read as its number. -/
theorem units?_escape (c : Char) (s : List Char) :
    units? (Writer.escape c ++ s) = withUnit c.toNat (units? s) := by
  unfold Writer.escape
  split
  case h_8 hquote hbackslash _ _ _ _ _ =>
    split
    · next hcontrol =>
      obtain ⟨a, b, d, e, hdigits, hvalue⟩ := hexNumber?_writePadded hcontrol
      rw [hdigits]
      exact units?_number hvalue s
    · next hplain => exact units?_plain hquote hbackslash hplain s
  all_goals exact units?_letter rfl s

/-- A text that is written is read as the numbers of its characters. -/
theorem units?_text (s rest : List Char) :
    units? (s.flatMap Writer.escape ++ '"' :: rest) = some (s.map Char.toNat, rest) := by
  induction s with
  | nil =>
    rw [List.flatMap_nil, List.nil_append, units?.eq_def]
    rfl
  | cons c s ih =>
    rw [List.flatMap_cons, List.append_assoc, units?_escape, ih]
    rfl

/-- A character has its number. -/
theorem charOf_toNat (c : Char) : charOf c.toNat = c := by
  have hvalid : c.toNat.isValidChar := c.valid
  rw [charOf, if_pos hvalid, Char.ofNat_toNat]

/-- No character is half of another one. -/
theorem isHighSurrogate_toNat (c : Char) : isHighSurrogate c.toNat = false := by
  have hvalid : c.toNat.isValidChar := c.valid
  simp only [Nat.isValidChar] at hvalid
  simp only [isHighSurrogate, Bool.and_eq_false_iff, decide_eq_false_iff_not]
  omega

/-- The numbers of characters are not joined. -/
theorem joinHalves_map_toNat : ∀ s : List Char, joinHalves (s.map Char.toNat) = s.map Char.toNat
  | [] => rfl
  | [_] => rfl
  | c :: d :: s => by
    have ih := joinHalves_map_toNat (d :: s)
    rw [List.map_cons] at ih
    rw [List.map_cons, List.map_cons, joinHalves, isHighSurrogate_toNat, ih]
    rfl

/-- The number of a character is no half. -/
theorem halfOf?_toNat (c : Char) : ¬ ∃ half, halfOf? c.toNat = some (some half) := by
  have hvalid : c.toNat.isValidChar := c.valid
  rintro ⟨half, h⟩
  rw [halfOf?, if_pos hvalid] at h
  split at h <;> cases h

/-- Characters have no half among them. -/
theorem any_filterMap_halfOf? (s : List Char) :
    ((s.map Char.toNat).filterMap halfOf?).any Option.isSome = false := by
  rw [List.any_eq_false]
  intro mark hmark hsome
  obtain ⟨n, hn, hmark⟩ := List.mem_filterMap.mp hmark
  obtain ⟨c, _, rfl⟩ := List.mem_map.mp hn
  obtain ⟨half, rfl⟩ := Option.isSome_iff_exists.mp hsome
  exact halfOf?_toNat c ⟨half, hmark⟩

/-- A text that is written is read back. -/
theorem text?_escape (s : String) (rest : List Char) :
    text? (s.toList.flatMap Writer.escape ++ '"' :: rest) = some (.whole s, rest) := by
  have hchars : (s.toList.map Char.toNat).map charOf = s.toList := by
    simp [Function.comp_def, charOf_toNat]
  rw [text?, units?_text, Option.map_some]
  simp only [joinHalves_map_toNat, hchars, String.ofList_toList,
    JsonText.ofHalves_of_none (any_filterMap_halfOf? _)]

/-! ## Numbers -/

/-- What stands behind a value of a document that is written. -/
def Follows (rest : List Char) : Prop :=
  ∀ c ∈ rest.head?, c = ',' ∨ c = '\n'

/-- No digit stands in front. -/
def StopsDigits (rest : List Char) : Prop :=
  ∀ c ∈ rest.head?, c.isDigit = false

theorem Follows.stopsDigits {rest : List Char} (h : Follows rest) : StopsDigits rest := by
  intro c hc
  rcases h c hc with rfl | rfl <;> rfl

/-- Digits are read up to what is no digit. -/
theorem digits_append {s rest : List Char} (hs : ∀ c ∈ s, c.isDigit = true)
    (hrest : StopsDigits rest) : digits (s ++ rest) = (s.map Text.Radix.valueOf, rest) := by
  rw [digits, List.takeWhile_append_of_pos hs, List.dropWhile_append_of_pos hs]
  cases rest with
  | nil => simp [Text.Radix.valueOf]
  | cons c rest => simp [hrest c rfl, Text.Radix.valueOf]

/-- Digits that may stand for the whole part of a numeral: none is behind a zero in front. -/
structure IsWhole (s : List Char) : Prop where
  /-- They are digits. -/
  digits : ∀ c ∈ s, c.isDigit = true
  /-- There is a digit, and none stands behind a zero in front. -/
  first : (∃ c rest, s = c :: rest ∧ c ≠ '0') ∨ s = ['0']

theorem isWhole_of_isNumeral {s : List Char} {n : Nat} (h : IsNumeral s n) : IsWhole s :=
  ⟨h.digits, h.first⟩

/-- The whole part of a numeral is read up to what is no digit. -/
theorem whole?_append {s rest : List Char} (hs : IsWhole s) (hrest : StopsDigits rest) :
    whole? (s ++ rest) = some (s.map Text.Radix.valueOf, rest) := by
  rcases hs.first with ⟨c, others, rfl, hc⟩ | rfl
  · have hdigits := digits_append hs.digits hrest
    rw [List.cons_append] at hdigits ⊢
    unfold whole?
    split
    · next heq => exact absurd (List.cons.inj heq).1 hc
    · rw [hdigits]
      rfl
  · rfl

/-- There is no fraction where a value ends. -/
theorem fraction_of_follows {rest : List Char} (hrest : Follows rest) :
    fraction rest = ([], rest) := by
  unfold fraction
  split
  · rcases hrest '.' rfl with h | h <;> cases h
  · rfl

/-- There is no exponent where a value ends. -/
theorem exponent_of_follows {rest : List Char} (hrest : Follows rest) :
    exponent rest = (none, rest) := by
  cases rest with
  | nil => rfl
  | cons c rest => rcases hrest c rfl with rfl | rfl <;> rfl

/-- The numeral of a number that may be read is read back. -/
theorem number?_write {s rest : List Char} {n : Nat} (hs : IsNumeral s n)
    (hn : n < 10 ^ Text.maxDigits) (hrest : Follows rest) (negative : Bool) :
    number? negative (s ++ rest) = some (.int (if negative then -(n : Int) else n), rest) := by
  have hlength : (s.map Text.Radix.valueOf).length ≤ Text.maxDigits := by
    rw [List.length_map]
    exact hs.length_le _ (by decide) hn
  unfold number?
  rw [whole?_append (isWhole_of_isNumeral hs) hrest.stopsDigits]
  simp only [Option.bind_eq_bind, Option.bind_some, fraction_of_follows hrest,
    exponent_of_follows hrest, List.isEmpty_nil, Option.isNone_none, Bool.and_self, if_true]
  rw [if_neg (by omega), hs.value]
  rfl

/-- A digit is no other mark. -/
theorem ne_of_isDigit {c mark : Char} (h : c.isDigit = true) (hmark : mark.isDigit = false) :
    c ≠ mark := by
  rintro rfl
  exact absurd (h.symm.trans hmark) (by decide)

/-- What starts with a digit is a number. -/
theorem scalar?_of_isDigit {c : Char} (h : c.isDigit = true) (s : List Char) :
    scalar? (c :: s) = number? false (c :: s) := by
  unfold scalar?
  split
  case h_8 => rfl
  all_goals
    next heq => exact absurd (List.cons.inj heq).1 (ne_of_isDigit h rfl)

/-- A minus in front of a digit is a sign. -/
theorem scalar?_minus {c : Char} (h : c.isDigit = true) (s : List Char) :
    scalar? ('-' :: c :: s) = number? true (c :: s) := by
  unfold scalar?
  split
  case h_6 heq => exact absurd (List.cons.inj (List.cons.inj heq).2).1 (ne_of_isDigit h rfl)
  case h_7 heq =>
    cases heq
    rfl
  case h_8 hother => exact absurd rfl (hother _)
  all_goals
    next heq => cases heq

/-- An integer starts with a minus or a digit. -/
theorem exists_first_int (n : Int) :
    ∃ c s, Text.Radix.writeInt 10 n = c :: s ∧ (c = '-' ∨ c.isDigit = true) := by
  obtain ⟨c, s, hfirst, hdigit⟩ := (isNumeral_write n.natAbs).exists_cons
  unfold Text.Radix.writeInt
  split
  · exact ⟨'-', _, rfl, Or.inl rfl⟩
  · exact ⟨c, s, hfirst, Or.inr hdigit⟩

/-- An integer that is written is read back. -/
theorem scalar?_writeInt {n : Int} (hn : n.natAbs < 10 ^ Text.maxDigits) {rest : List Char}
    (hrest : Follows rest) :
    scalar? (Text.Radix.writeInt 10 n ++ rest) = some (.int n, rest) := by
  have hnumeral := isNumeral_write n.natAbs
  have hread := number?_write hnumeral hn hrest
  obtain ⟨c, others, hcons, hdigit⟩ := hnumeral.exists_cons
  unfold Text.Radix.writeInt
  rw [hcons, List.cons_append] at hread
  split
  · have hvalue : -(n.natAbs : Int) = n := by omega
    rw [hcons, List.cons_append, List.cons_append, scalar?_minus hdigit, hread, if_pos rfl, hvalue]
  · have hvalue : (n.natAbs : Int) = n := by omega
    rw [hcons, List.cons_append, scalar?_of_isDigit hdigit, hread, if_neg Bool.false_ne_true,
      hvalue]

end LayerBlend.Json.Reader
