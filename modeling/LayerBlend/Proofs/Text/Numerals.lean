import LayerBlend.Text.Radix
import LayerBlend.Text.Whole
import Mathlib.Data.Nat.Digits.Lemmas

/-!
# Decimal numerals

* `Radix.write_eq` — the numeral of a positive number is its digits, the most significant first.
* `Radix.IsNumeral s n` — `s` is the decimal numeral of `n`: digits that say `n`, no zero in front
  of others, and no more of them than `n` needs. `Radix.isNumeral_write` says so of what is written.
-/

namespace LayerBlend.Text.Radix

/-- The characters of a numeral are the digits of the number in front of what is there already. -/
theorem writeOnto_eq {base : Nat} (hbase : 1 < base) (fuel : Nat) :
    ∀ {n : Nat} {tail : List Char}, 0 < n → n < fuel →
      writeOnto base fuel n tail = (Nat.digits base n).reverse.map digit ++ tail := by
  induction fuel with
  | zero => exact fun _ h => absurd h (Nat.not_lt_zero _)
  | succ fuel ih =>
    intro n tail hn hfuel
    rw [writeOnto]
    split
    · next hlt =>
      rw [Nat.digits_of_lt base n (by omega) hlt]
      rfl
    · next hle =>
      have hquotient : 0 < n / base := Nat.div_pos (by omega) (by omega)
      have hsmaller : n / base < n := Nat.div_lt_self hn hbase
      rw [ih hquotient (by omega), Nat.digits_def' hbase hn]
      simp

/-- The numeral of a positive number is its digits, the most significant first. -/
theorem write_eq {base n : Nat} (hbase : 1 < base) (hn : 0 < n) :
    write base n = (Nat.digits base n).reverse.map digit := by
  rw [write, writeOnto_eq hbase (n + 1) hn (by omega), List.append_nil]

/-- The value of a decimal digit. -/
def valueOf (c : Char) : Nat :=
  c.toNat - '0'.toNat

theorem digit_decimal {d : Nat} (h : d < 10) :
    (digit d).isDigit = true ∧ valueOf (digit d) = d ∧ (digit d = '0' → d = 0) := by
  revert d
  decide

/-- Digits with the most significant first say the number that they are the digits of. -/
theorem ofDigits_reverse (digits : List Nat) :
    Text.ofDigits digits.reverse = Nat.ofDigits 10 digits := by
  rw [Nat.ofDigits_eq_foldr, Text.ofDigits, List.foldl_reverse]
  congr 1
  funext d n
  simp only [Nat.cast_id]
  omega

/-- The characters are the decimal numeral of a number. -/
structure IsNumeral (s : List Char) (n : Nat) : Prop where
  /-- They are digits. -/
  digits : ∀ c ∈ s, c.isDigit = true
  /-- The digits say the number. -/
  value : Text.ofDigits (s.map valueOf) = n
  /-- There is a digit, and none stands behind a zero in front. -/
  first : (∃ c rest, s = c :: rest ∧ c ≠ '0') ∨ s = ['0']
  /-- There are no more digits than the number needs. -/
  length_le : ∀ k, 0 < k → n < 10 ^ k → s.length ≤ k

/-- A numeral starts with a digit. -/
theorem IsNumeral.exists_cons {s : List Char} {n : Nat} (h : IsNumeral s n) :
    ∃ c rest, s = c :: rest ∧ c.isDigit = true := by
  rcases h.first with ⟨c, rest, hs, _⟩ | hs
  · exact ⟨c, rest, hs, h.digits c (by rw [hs]; exact List.mem_cons_self)⟩
  · exact ⟨'0', [], hs, rfl⟩

/-- The numeral that is written is that of the number. -/
theorem isNumeral_write (n : Nat) : IsNumeral (write 10 n) n := by
  rcases Nat.eq_zero_or_pos n with rfl | hn
  · exact ⟨List.all_eq_true.mp rfl, rfl, Or.inr rfl, fun k hk _ => hk⟩
  · have hdigit : ∀ d ∈ Nat.digits 10 n, d < 10 := fun d => Nat.digits_lt_base (by decide)
    rw [write_eq (by decide) hn]
    refine ⟨?_, ?_, Or.inl ?_, fun k _ hlt => ?_⟩
    · intro c hc
      obtain ⟨d, hd, rfl⟩ := List.mem_map.mp hc
      exact (digit_decimal (hdigit d (List.mem_reverse.mp hd))).1
    · have hvalues : ((Nat.digits 10 n).reverse.map digit).map valueOf =
          (Nat.digits 10 n).reverse := by
        rw [List.map_map]
        conv => rhs; rw [← List.map_id (Nat.digits 10 n).reverse]
        refine List.map_congr_left fun d hd => ?_
        exact (digit_decimal (hdigit d (List.mem_reverse.mp hd))).2.1
      rw [hvalues, ofDigits_reverse, Nat.ofDigits_digits]
    · have hne : Nat.digits 10 n ≠ [] := Nat.digits_ne_nil_iff_ne_zero.mpr (by omega)
      have hlast := Nat.getLast_digit_ne_zero 10 (by omega : n ≠ 0)
      refine ⟨digit ((Nat.digits 10 n).getLast hne), (Nat.digits 10 n).dropLast.reverse.map digit,
        ?_, fun hzero => hlast ?_⟩
      · conv => lhs; rw [← List.dropLast_append_getLast hne]
        simp
      · exact (digit_decimal (hdigit _ (List.getLast_mem hne))).2.2 hzero
    · rw [List.length_map, List.length_reverse]
      exact (Nat.digits_length_le_iff (by decide) n).mpr hlt

end LayerBlend.Text.Radix
