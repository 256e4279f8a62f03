import LayerBlend.Proofs.Formula.Grammar

/-!
# Longest lexemes

* `Token.IsLongest t text` — the text of `t` is a lexeme of its class at the front of `text`, and no
  longer lexeme of that class stands there.
* `Token.IsAllowed t` — if `t` is a name, then it is that of a channel, a layer's shorthand or a
  function.
* `Lexer.lexeme?_sound`, `Lexer.lexeme?_complete` — what `lexeme?` finds is a lexeme, and no lexeme
  that stands there is of another class or longer.
* `Lexer.isLongest_of_lexeme?`, `Lexer.lexeme?_of_isLongest` — so `lexeme?` finds exactly the
  longest lexemes.
* `Lexer.lexeme?_eq_none_iff` — and it finds none exactly where a character starts no lexeme.
-/

namespace LayerBlend

namespace Token

/-- The token is the longest lexeme of its class at the front of a text. -/
structure IsLongest (t : Token) (text : List Char) : Prop where
  /-- It is a lexeme of its class. -/
  isLexeme : t.IsLexeme
  /-- It stands at the front. -/
  isPrefix : t.text.toList <+: text
  /-- No other lexeme of the class that stands there is longer. -/
  length_le : ∀ u : Token, u.kind = t.kind → u.IsLexeme → u.text.toList <+: text →
    u.text.length ≤ t.text.length

/-- A name is that of a channel, a layer's shorthand or a function. -/
def IsAllowed (t : Token) : Prop :=
  t.kind = .identifier →
    (∃ c : Channel, t.text = c.name) ∨ (∃ side : Side, t.text = side.shorthand) ∨
      ∃ f : Builtin, t.text = f.name

/-- The character at the front is that of no lexeme. -/
def NoneStartsWith (c : Char) : Prop :=
  ∀ t : Token, t.IsLexeme → t.text.toList.head? ≠ some c

end Token

/-! ## The whitelist -/

/-- The layer of a shorthand has that shorthand. -/
theorem Side.eq_shorthand_of_ofShorthand? {name : String} {side : Side}
    (h : ofShorthand? name = some side) : name = side.shorthand := by
  have := List.find?_some h
  rw [beq_iff_eq] at this
  exact this.symm

/-- A layer is the layer of its shorthand. -/
@[simp] theorem Side.ofShorthand?_shorthand (side : Side) :
    ofShorthand? side.shorthand = some side := by
  cases side <;> rfl

/-- The whitelist holds the names of channels, the shorthands of layers and the names of
functions. -/
theorem isAllowed_iff {name : String} :
    isAllowed name = true ↔ (∃ c : Channel, name = c.name) ∨
      (∃ side : Side, name = side.shorthand) ∨ ∃ f : Builtin, name = f.name := by
  simp only [isAllowed, Bool.or_eq_true, Option.isSome_iff_exists, or_assoc]
  constructor
  · rintro (⟨c, hc⟩ | ⟨side, hside⟩ | ⟨f, hf⟩)
    · exact Or.inl ⟨c, Channel.eq_name_of_ofName? hc⟩
    · exact Or.inr (Or.inl ⟨side, Side.eq_shorthand_of_ofShorthand? hside⟩)
    · exact Or.inr (Or.inr ⟨f, Builtin.eq_name_of_ofName? hf⟩)
  · rintro (⟨c, rfl⟩ | ⟨side, rfl⟩ | ⟨f, rfl⟩)
    · exact Or.inl ⟨c, Channel.ofName?_name c⟩
    · exact Or.inr (Or.inl ⟨side, Side.ofShorthand?_shorthand side⟩)
    · exact Or.inr (Or.inr ⟨f, Builtin.ofName?_name f⟩)

namespace Lexer

/-! ## Classes of characters -/

/-- The digits are the ten characters from `0` to `9`. -/
theorem isDigit_iff {c : Char} : c.isDigit = true ↔ 0x30 ≤ c.toNat ∧ c.toNat ≤ 0x39 := by
  simp only [Char.isDigit, ge_iff_le, UInt32.le_iff_toNat_le, Bool.and_eq_true, decide_eq_true_eq]
  exact Iff.rfl

/-- Words start with the ASCII letters and the underscore. -/
theorem isWordStart_iff {c : Char} : isWordStart c = true ↔
    (0x41 ≤ c.toNat ∧ c.toNat ≤ 0x5a) ∨ (0x61 ≤ c.toNat ∧ c.toNat ≤ 0x7a) ∨ c = '_' := by
  delta isWordStart Char.isAlpha Char.isUpper Char.isLower
  simp only [ge_iff_le, UInt32.le_iff_toNat_le, Bool.or_eq_true, Bool.and_eq_true,
    decide_eq_true_eq, beq_iff_eq, or_assoc]
  exact Iff.rfl

/-- The blanks below `0` end with the space, and those above are beyond ASCII. -/
theorem toNat_of_isBlank {c : Char} (h : Text.isBlank c = true) :
    c.toNat ≤ 0x20 ∨ 0x80 ≤ c.toNat := by
  simp only [Text.isBlank, Bool.or_eq_true, Bool.and_eq_true, decide_eq_true_eq, beq_iff_eq] at h
  omega

/-- What starts a word is no digit. -/
theorem isDigit_eq_false_of_isWordStart {c : Char} (h : isWordStart c = true) :
    c.isDigit = false := by
  rw [← Bool.not_eq_true, isDigit_iff]
  rcases isWordStart_iff.mp h with h | h | rfl
  · omega
  · omega
  · decide

/-- No lexeme starts with a blank. -/
theorem lexeme?_of_isBlank {c : Char} (h : Text.isBlank c = true) (rest : List Char) :
    lexeme? c rest = none := by
  have hrange := toNat_of_isBlank h
  have hdigit : ¬ c.isDigit = true := by
    rw [isDigit_iff]
    omega
  have hword : ¬ isWordStart c = true := by
    rw [isWordStart_iff]
    rintro (hupper | hlower | rfl)
    · omega
    · omega
    · exact absurd h (by decide)
  unfold lexeme?
  rw [if_neg hdigit, if_neg hword]
  split
  all_goals first | rfl | exact absurd h (by decide)

/-- Whether a lexeme starts with a character does not depend on what follows. -/
theorem lexeme?_eq_none_congr {c : Char} {rest : List Char} (h : lexeme? c rest = none)
    (other : List Char) : lexeme? c other = none := by
  unfold lexeme? at h ⊢
  split at h
  · cases h
  · next hdigit =>
    split at h
    · cases h
    · next hword =>
      rw [if_neg hdigit, if_neg hword]
      split at h
      all_goals first | rfl | cases h

/-! ## Lengths of runs -/

/-- A run of characters of a class at the front of a text is no longer than the longest one. -/
theorem length_le_takeWhile {p : Char → Bool} {run text : List Char} (hrun : ∀ c ∈ run, p c = true)
    (h : run <+: text) : run.length ≤ (text.takeWhile p).length := by
  obtain ⟨rest, rfl⟩ := h
  rw [List.takeWhile_append_of_pos hrun, List.length_append]
  exact Nat.le_add_right _ _

/-- A numeral behind its first digit is no longer than `numeralTail`. -/
theorem length_le_numeralTail {digits tail rest : List Char}
    (hdigits : ∀ c ∈ digits, c.isDigit = true)
    (htail : tail = [] ∨ ∃ fraction, tail = '.' :: fraction ∧ fraction ≠ [] ∧
      ∀ c ∈ fraction, c.isDigit = true) (h : digits ++ tail <+: rest) :
    (digits ++ tail).length ≤ numeralTail rest := by
  obtain ⟨behind, rfl⟩ := h
  rcases htail with rfl | ⟨fraction, rfl, hne, hfraction⟩
  · have hwhole := length_le_takeWhile hdigits (List.prefix_append digits behind)
    rw [List.append_nil]
    unfold numeralTail
    dsimp only
    split
    · split <;> omega
    · exact hwhole
  · -- the whole part ends at the point, so that the fraction behind it is looked at
    have htake : ((digits ++ '.' :: fraction) ++ behind).takeWhile Char.isDigit = digits := by
      rw [List.append_assoc, List.takeWhile_append_of_pos hdigits]
      simp
    have hdrop : ((digits ++ '.' :: fraction) ++ behind).dropWhile Char.isDigit =
        '.' :: (fraction ++ behind) := by
      rw [List.append_assoc, List.dropWhile_append_of_pos hdigits]
      simp
    have hlength := length_le_takeWhile hfraction (List.prefix_append fraction behind)
    have hpos : 0 < fraction.length := List.length_pos_iff.mpr hne
    unfold numeralTail
    rw [htake, hdrop]
    show _ ≤ if _ = 0 then _ else _
    rw [if_neg (by omega), List.length_append, List.length_cons]
    omega

/-- The tail of a numeral is digits, and a fraction behind a point or none. -/
theorem numeralTail_spec (rest : List Char) :
    ∃ digits tail, rest.take (numeralTail rest) = digits ++ tail ∧
      numeralTail rest ≤ rest.length ∧ (∀ c ∈ digits, c.isDigit = true) ∧
      (tail = [] ∨ ∃ fraction, tail = '.' :: fraction ∧ fraction ≠ [] ∧
        ∀ c ∈ fraction, c.isDigit = true) := by
  have hsplit : rest.takeWhile Char.isDigit ++ rest.dropWhile Char.isDigit = rest :=
    List.takeWhile_append_dropWhile
  have hdigits : ∀ c ∈ rest.takeWhile Char.isDigit, c.isDigit = true := fun c hc =>
    List.all_eq_true.mp List.all_takeWhile c hc
  have hplain : ∃ digits tail, rest.take (rest.takeWhile Char.isDigit).length = digits ++ tail ∧
      (rest.takeWhile Char.isDigit).length ≤ rest.length ∧ (∀ c ∈ digits, c.isDigit = true) ∧
      (tail = [] ∨ ∃ fraction, tail = '.' :: fraction ∧ fraction ≠ [] ∧
        ∀ c ∈ fraction, c.isDigit = true) := by
    refine ⟨rest.takeWhile Char.isDigit, [], ?_, (List.takeWhile_prefix _).length_le, hdigits,
      Or.inl rfl⟩
    rw [List.append_nil]
    exact (List.prefix_iff_eq_take.mp (List.takeWhile_prefix _)).symm
  unfold numeralTail
  dsimp only
  split
  · next after hafter =>
    split
    · exact hplain
    · next hne =>
      have hfront :
          rest.takeWhile Char.isDigit ++ '.' :: after.takeWhile Char.isDigit <+: rest := by
        conv => rhs; rw [← hsplit, hafter]
        rw [List.prefix_append_right_inj, List.cons_prefix_cons]
        exact ⟨rfl, List.takeWhile_prefix _⟩
      have hlength : (rest.takeWhile Char.isDigit).length + 1 +
          (after.takeWhile Char.isDigit).length =
          (rest.takeWhile Char.isDigit ++ '.' :: after.takeWhile Char.isDigit).length := by
        rw [List.length_append, List.length_cons]
        omega
      refine ⟨rest.takeWhile Char.isDigit, '.' :: after.takeWhile Char.isDigit, ?_, ?_, hdigits,
        Or.inr ⟨_, rfl, ?_, fun c hc => List.all_eq_true.mp List.all_takeWhile c hc⟩⟩
      · rw [hlength]
        exact (List.prefix_iff_eq_take.mp hfront).symm
      · rw [hlength]
        exact hfront.length_le
      · exact fun hnil => hne (by rw [hnil, List.length_nil])
  · exact hplain

/-! ## Lexemes that are found -/

/-- What is found is a lexeme of the class. -/
theorem lexeme?_sound {c : Char} {rest : List Char} {kind : TokenKind} {extra : Nat}
    (h : lexeme? c rest = some (kind, extra)) (position : Int) :
    extra ≤ rest.length ∧
      (Token.mk kind (String.ofList (c :: rest.take extra)) position).IsLexeme := by
  unfold lexeme? at h
  split at h
  · next hdigit =>
    cases h
    obtain ⟨digits, tail, htake, hle, hdigits, htail⟩ := numeralTail_spec rest
    refine ⟨hle, c :: digits, tail, ?_, List.cons_ne_nil _ _, ?_, htail⟩
    · rw [String.toList_ofList, htake, List.cons_append]
    · intro d hd
      rcases List.mem_cons.mp hd with rfl | hd
      · exact hdigit
      · exact hdigits d hd
  split at h
  · next hword =>
    cases h
    refine ⟨(List.takeWhile_prefix _).length_le, c, rest.takeWhile isWordPart, ?_, hword, ?_⟩
    · rw [String.toList_ofList, ← List.prefix_iff_eq_take.mp (List.takeWhile_prefix _)]
    · exact fun d hd => List.all_eq_true.mp List.all_takeWhile d hd
  · split at h
    case h_1 | h_2 =>
      split at h
      · next hequals =>
        cases h
        obtain ⟨rest, rfl⟩ : ∃ more, rest = '=' :: more := by
          cases rest with
          | nil => cases hequals
          | cons d rest =>
            cases hequals
            exact ⟨rest, rfl⟩
        refine ⟨Nat.succ_le_succ (Nat.zero_le _), ?_⟩
        first | exact ⟨.lessEq, rfl⟩ | exact ⟨.greaterEq, rfl⟩
      · cases h
        refine ⟨Nat.zero_le _, ?_⟩
        first | exact ⟨.less, rfl⟩ | exact ⟨.greater, rfl⟩
    case h_3 => cases h; exact ⟨Nat.zero_le _, .add, rfl⟩
    case h_4 => cases h; exact ⟨Nat.zero_le _, .sub, rfl⟩
    case h_5 => cases h; exact ⟨Nat.zero_le _, .mul, rfl⟩
    case h_6 => cases h; exact ⟨Nat.zero_le _, .div, rfl⟩
    case h_7 => cases h; exact ⟨Nat.zero_le _, .rem, rfl⟩
    case h_15 => cases h
    all_goals
      cases h
      exact ⟨Nat.zero_le _, rfl⟩

/-- A numeral at the front of a text is found, or a longer one. -/
theorem lexeme?_of_number {whole tail rest : List Char} {c : Char} (hne : whole ≠ [])
    (hwhole : ∀ d ∈ whole, d.isDigit = true)
    (htail : tail = [] ∨ ∃ fraction, tail = '.' :: fraction ∧ fraction ≠ [] ∧
      ∀ d ∈ fraction, d.isDigit = true) (h : whole ++ tail <+: c :: rest) :
    ∃ extra, lexeme? c rest = some (.number, extra) ∧ (whole ++ tail).length ≤ extra + 1 := by
  obtain ⟨first, digits, rfl⟩ := List.exists_cons_of_ne_nil hne
  rw [List.cons_append, List.cons_prefix_cons] at h
  obtain ⟨rfl, hrest⟩ := h
  refine ⟨numeralTail rest, ?_, ?_⟩
  · unfold lexeme?
    rw [if_pos (hwhole first List.mem_cons_self)]
  · have := length_le_numeralTail (fun d hd => hwhole d (List.mem_cons_of_mem _ hd)) htail hrest
    rw [List.cons_append, List.length_cons]
    omega

/-- A word at the front of a text is found, or a longer one. -/
theorem lexeme?_of_word {first c : Char} {others rest : List Char} (hfirst : isWordStart first)
    (hothers : ∀ d ∈ others, isWordPart d = true) (h : first :: others <+: c :: rest) :
    ∃ extra, lexeme? c rest = some (.identifier, extra) ∧
      (first :: others).length ≤ extra + 1 := by
  rw [List.cons_prefix_cons] at h
  obtain ⟨rfl, hrest⟩ := h
  refine ⟨(rest.takeWhile isWordPart).length, ?_, ?_⟩
  · unfold lexeme?
    rw [isDigit_eq_false_of_isWordStart hfirst, if_neg Bool.false_ne_true, if_pos hfirst]
  · have := length_le_takeWhile hothers hrest
    rw [List.length_cons]
    omega

/-- An operator at the front of a text is found, or a longer one. -/
theorem lexeme?_of_operator (op : BinaryOperator) {c : Char} {rest : List Char}
    (h : op.symbol.toList <+: c :: rest) :
    ∃ extra, lexeme? c rest = some (.operator, extra) ∧ op.symbol.toList.length ≤ extra + 1 := by
  cases op with
  | add | sub | mul | div | rem | less | greater =>
    obtain ⟨rfl, _⟩ := List.cons_prefix_cons.mp h
    exact ⟨_, rfl, Nat.succ_le_succ (Nat.zero_le _)⟩
  | lessEq | greaterEq =>
    obtain ⟨rfl, hrest⟩ := List.cons_prefix_cons.mp h
    obtain ⟨behind, rfl⟩ := hrest
    exact ⟨1, rfl, Nat.le_refl 2⟩

/-- A lexeme at the front of a text is found, or a longer one of its class. -/
theorem lexeme?_complete {t : Token} (h : t.IsLexeme) {c : Char} {rest : List Char}
    (hfront : t.text.toList <+: c :: rest) :
    ∃ extra, lexeme? c rest = some (t.kind, extra) ∧ t.text.length ≤ extra + 1 := by
  rw [← String.length_toList]
  unfold Token.IsLexeme at h
  split at h
  case h_1 hkind =>
    obtain ⟨whole, tail, htext, hne, hwhole, htail⟩ := h
    rw [htext] at hfront ⊢
    rw [hkind]
    exact lexeme?_of_number hne hwhole htail hfront
  case h_2 hkind =>
    obtain ⟨first, others, htext, hfirst, hothers⟩ := h
    rw [htext] at hfront ⊢
    rw [hkind]
    exact lexeme?_of_word hfirst hothers hfront
  case h_3 hkind =>
    obtain ⟨op, htext⟩ := h
    rw [htext] at hfront ⊢
    rw [hkind]
    exact lexeme?_of_operator op hfront
  all_goals
    next hkind =>
      rw [h] at hfront ⊢
      obtain ⟨rfl, _⟩ := List.cons_prefix_cons.mp hfront
      rw [hkind]
      exact ⟨0, rfl, Nat.le_refl 1⟩

/-- What is found is the longest lexeme of its class. -/
theorem isLongest_of_lexeme? {c : Char} {rest : List Char} {kind : TokenKind} {extra : Nat}
    (h : lexeme? c rest = some (kind, extra)) (position : Int) :
    (Token.mk kind (String.ofList (c :: rest.take extra)) position).IsLongest (c :: rest) := by
  obtain ⟨hle, hlexeme⟩ := lexeme?_sound h position
  refine ⟨hlexeme, ?_, fun u hkind hu hfront => ?_⟩
  · rw [String.toList_ofList, List.cons_prefix_cons]
    exact ⟨rfl, List.take_prefix extra rest⟩
  · obtain ⟨other, hother, hlength⟩ := lexeme?_complete hu hfront
    rw [h, hkind] at hother
    cases hother
    rw [String.length_ofList, List.length_cons, List.length_take]
    omega

/-- The longest lexeme of a class is found. -/
theorem lexeme?_of_isLongest {t : Token} {c : Char} {rest : List Char}
    (h : t.IsLongest (c :: rest)) :
    ∃ extra, lexeme? c rest = some (t.kind, extra) ∧ t.text.toList = c :: rest.take extra := by
  obtain ⟨extra, hextra, hlength⟩ := lexeme?_complete h.isLexeme h.isPrefix
  refine ⟨extra, hextra, ?_⟩
  have hfound := isLongest_of_lexeme? hextra t.position
  have hle := h.length_le ⟨t.kind, String.ofList (c :: rest.take extra), t.position⟩ rfl
    hfound.isLexeme hfound.isPrefix
  have hsame : t.text.toList.length = (c :: rest.take extra).length := by
    rw [String.length_toList]
    rw [String.length_ofList] at hle
    refine Nat.le_antisymm ?_ hle
    rw [List.length_cons, List.length_take]
    have := (lexeme?_sound hextra t.position).1
    omega
  -- both stand at the front of the text and have one length
  have hfront : c :: rest.take extra <+: c :: rest := by
    rw [List.cons_prefix_cons]
    exact ⟨rfl, List.take_prefix extra rest⟩
  rw [List.prefix_iff_eq_take.mp h.isPrefix, hsame]
  exact (List.prefix_iff_eq_take.mp hfront).symm

/-- No lexeme is found exactly where the character is the first of none. -/
theorem lexeme?_eq_none_iff {c : Char} {rest : List Char} :
    lexeme? c rest = none ↔ Token.NoneStartsWith c := by
  constructor
  · intro h t ht hhead
    obtain ⟨others, hothers⟩ := List.head?_eq_some_iff.mp hhead
    obtain ⟨extra, hextra, _⟩ := lexeme?_complete ht ⟨[], by rw [hothers, List.append_nil]⟩
    rw [lexeme?_eq_none_congr h others] at hextra
    cases hextra
  · intro h
    cases hfound : lexeme? c rest with
    | none => rfl
    | some found =>
      obtain ⟨kind, extra⟩ := found
      refine absurd ?_ (h _ (lexeme?_sound hfound 0).2)
      rw [String.toList_ofList]
      rfl

/-- A lexeme does not start with a blank. -/
theorem isBlank_eq_false_of_isLongest {t : Token} {c : Char} {rest : List Char}
    (h : t.IsLongest (c :: rest)) : Text.isBlank c = false := by
  obtain ⟨extra, hextra, _⟩ := lexeme?_of_isLongest h
  cases hblank : Text.isBlank c with
  | false => rfl
  | true =>
    rw [lexeme?_of_isBlank hblank] at hextra
    cases hextra

end Lexer

end LayerBlend
