import LayerBlend.Proofs.Formula.Lexemes

/-!
# Texts as blanks and tokens

* `Lexer.Lexes behind position front tokens` — the text `front`, which starts at `position` and is
  followed by `behind`, consists of the given tokens with blanks around them; each token is the
  longest lexeme of its class at its place, and is on the whitelist.
* `Lexer.Refused rest piece` — no token can be made of `piece` in front of `rest`: it is a character
  that starts no lexeme, or a whole name that is not on the whitelist.
* `Lexer.scan_of_lexes` — scanning goes over a text that consists of tokens and gives them.
* `Lexer.lexes_or_refused` — every text consists of tokens, or does up to a piece that is refused.
* `Lexer.tokenize_decides` — so `tokenize` is an exact boundary: it gives the tokens that a text
  consists of, and otherwise names the first piece that is refused.
-/

namespace LayerBlend

/-! ## Lexemes and their surroundings -/

namespace Token

/-- A lexeme is not empty. -/
theorem IsLexeme.ne_nil {t : Token} (h : t.IsLexeme) : t.text.toList ≠ [] := by
  unfold IsLexeme at h
  split at h
  case h_1 =>
    obtain ⟨whole, tail, htext, hne, _⟩ := h
    rw [htext]
    exact List.append_ne_nil_of_left_ne_nil hne tail
  case h_2 =>
    obtain ⟨first, others, htext, _⟩ := h
    rw [htext]
    exact List.cons_ne_nil first others
  case h_3 =>
    obtain ⟨op, htext⟩ := h
    rw [htext]
    cases op <;> exact List.cons_ne_nil _ _
  all_goals
    rw [h]
    exact List.cons_ne_nil _ _

/-- The longest lexeme in front of a text is the longest one in front of a part of it. -/
theorem IsLongest.of_append {t : Token} {s behind : List Char}
    (h : t.IsLongest (t.text.toList ++ (s ++ behind))) : t.IsLongest (t.text.toList ++ s) := by
  refine ⟨h.isLexeme, List.prefix_append _ _, fun u hkind hu hfront => ?_⟩
  refine h.length_le u hkind hu (hfront.trans ?_)
  rw [← List.append_assoc]
  exact List.prefix_append _ _

end Token

namespace Lexer

/-! ## Texts -/

/-- A text that is followed by `behind` consists of tokens with blanks around them. -/
inductive Lexes (behind : List Char) : Nat → List Char → List Token → Prop
  /-- Nothing but blanks. -/
  | blanks {position : Nat} {w : List Char} : (∀ c ∈ w, Text.isBlank c = true) →
      Lexes behind position w []
  /-- Blanks, a token and what follows. -/
  | token {position : Nat} {w rest : List Char} {t : Token} {tokens : List Token} :
      (∀ c ∈ w, Text.isBlank c = true) → t.IsLongest (t.text.toList ++ (rest ++ behind)) →
      t.IsAllowed → t.position = (position + w.length : Nat) →
      Lexes behind (position + w.length + t.text.length) rest tokens →
      Lexes behind position (w ++ (t.text.toList ++ rest)) (t :: tokens)

/-- No token can be made of a piece of text in front of `rest`. -/
inductive Refused (rest : List Char) : String → Prop
  /-- A character that is no blank and starts no lexeme. -/
  | character {c : Char} : Text.isBlank c = false → Token.NoneStartsWith c →
      Refused rest (String.singleton c)
  /-- A whole name that is not on the whitelist. -/
  | name {t : Token} : t.kind = .identifier → t.IsLongest (t.text.toList ++ rest) →
      ¬ t.IsAllowed → Refused rest t.text

/-- A text consists of tokens up to a position, where a piece is refused. -/
def RefusedAt (text : List Char) (piece : String) (position : Nat) : Prop :=
  ∃ before rest tokens, text = before ++ (piece.toList ++ rest) ∧ before.length = position ∧
    Lexes (piece.toList ++ rest) 0 before tokens ∧ Refused rest piece

/-- A blank in front of a text changes nothing. -/
theorem Lexes.cons_blank {behind front : List Char} {position : Nat} {tokens : List Token}
    {c : Char} (hc : Text.isBlank c = true) (h : Lexes behind (position + 1) front tokens) :
    Lexes behind position (c :: front) tokens := by
  cases h with
  | blanks hw => exact .blanks (List.forall_mem_cons.mpr ⟨hc, hw⟩)
  | @token _ w rest t tokens hw hlongest hallowed hposition hrest =>
    have hshift : position + 1 + w.length = position + (c :: w).length := by
      rw [List.length_cons]
      omega
    rw [hshift] at hposition hrest
    exact .token (w := c :: w) (List.forall_mem_cons.mpr ⟨hc, hw⟩) hlongest hallowed hposition hrest

/-- A token without blanks in front of it. -/
theorem Lexes.cons_token {behind rest : List Char} {position : Nat} {t : Token}
    {tokens : List Token} (hlongest : t.IsLongest (t.text.toList ++ (rest ++ behind)))
    (hallowed : t.IsAllowed) (hposition : t.position = position)
    (h : Lexes behind (position + t.text.length) rest tokens) :
    Lexes behind position (t.text.toList ++ rest) (t :: tokens) := by
  have hnone : ∀ c ∈ ([] : List Char), Text.isBlank c = true := by simp
  exact .token hnone hlongest hallowed hposition h

/-- What consists of tokens in front of a text does so by itself. -/
theorem Lexes.alone {behind front : List Char} {position : Nat} {tokens : List Token}
    (h : Lexes behind position front tokens) : Lexes [] position front tokens := by
  induction h with
  | blanks hw => exact .blanks hw
  | token hw hlongest hallowed hposition _ ih =>
    refine .token hw ?_ hallowed hposition ih
    rw [List.append_nil]
    exact hlongest.of_append

/-! ## Steps of scanning -/

/-- Blanks are skipped. -/
theorem scan_blanks {w : List Char} (hw : ∀ c ∈ w, Text.isBlank c = true) (s : List Char) :
    ∀ position, scan position (w ++ s) = scan (position + w.length) s := by
  induction w with
  | nil => exact fun position => rfl
  | cons c w ih =>
    intro position
    rw [List.forall_mem_cons] at hw
    rw [List.cons_append, scan, if_pos hw.1, ih hw.2, List.length_cons]
    congr 1
    omega

/-- What is found at the front of a text that starts with a longest lexeme. -/
theorem lexeme?_append {t : Token} {s : List Char} (h : t.IsLongest (t.text.toList ++ s)) :
    ∃ c v, t.text.toList = c :: v ∧ lexeme? c (v ++ s) = some (t.kind, v.length) := by
  obtain ⟨c, v, hcv⟩ := List.exists_cons_of_ne_nil h.isLexeme.ne_nil
  refine ⟨c, v, hcv, ?_⟩
  rw [hcv, List.cons_append] at h
  obtain ⟨extra, hextra, htext⟩ := lexeme?_of_isLongest h
  have hle := (lexeme?_sound hextra 0).1
  have hlength : v.length = extra := by
    have := congrArg List.length (htext.symm.trans hcv)
    rw [List.length_cons, List.length_cons, List.length_take] at this
    omega
  rw [hextra, hlength]

/-- A token is taken. -/
theorem scan_token {t : Token} {s : List Char} (h : t.IsLongest (t.text.toList ++ s))
    (hallowed : t.IsAllowed) (position : Nat) :
    scan position (t.text.toList ++ s) =
      (scan (position + t.text.length) s).map ({ t with position := position } :: ·) := by
  obtain ⟨c, v, hcv, hfound⟩ := lexeme?_append h
  have htext : String.ofList (c :: v) = t.text := by
    rw [← hcv, String.ofList_toList]
  have hcheck : (decide (t.kind = .identifier) && !isAllowed t.text) = false := by
    cases hkind : decide (t.kind = .identifier) with
    | false => rfl
    | true => rw [isAllowed_iff.mpr (hallowed (of_decide_eq_true hkind))]; rfl
  have hlength : position + 1 + v.length = position + t.text.length := by
    rw [← String.length_toList, hcv, List.length_cons]
    omega
  rw [hcv, List.cons_append] at h
  rw [hcv, List.cons_append, scan, isBlank_eq_false_of_isLongest h, if_neg Bool.false_ne_true,
    hfound]
  simp only [List.take_left, List.drop_left, htext, hcheck, hlength]
  rfl

/-- A piece that is refused is named with its position. -/
theorem scan_refused {rest : List Char} {piece : String} (h : Refused rest piece)
    (position : Nat) :
    scan position (piece.toList ++ rest) = .error (.disallowed piece position) := by
  cases h with
  | @character c hblank hnone =>
    rw [String.toList_singleton, List.singleton_append, scan, hblank, if_neg Bool.false_ne_true,
      lexeme?_eq_none_iff.mpr hnone]
  | @name t hkind hlongest hallowed =>
    obtain ⟨c, v, hcv, hfound⟩ := lexeme?_append hlongest
    have htext : String.ofList (c :: v) = t.text := by
      rw [← hcv, String.ofList_toList]
    have hcheck : isAllowed t.text = false := by
      rw [← Bool.not_eq_true, isAllowed_iff]
      exact fun hname => hallowed fun _ => hname
    rw [hcv, List.cons_append] at hlongest
    rw [hcv, List.cons_append, scan, isBlank_eq_false_of_isLongest hlongest,
      if_neg Bool.false_ne_true, hfound]
    simp only [List.take_left, htext, hcheck, hkind]
    rfl

/-! ## Runs of scanning -/

/-- Scanning goes over what consists of tokens, gives them, and goes on behind it. -/
theorem scan_of_lexes {behind front : List Char} {position : Nat} {tokens : List Token}
    (h : Lexes behind position front tokens) :
    scan position (front ++ behind) =
      (scan (position + front.length) behind).map (tokens ++ ·) := by
  induction h with
  | blanks hw =>
    rw [scan_blanks hw]
    cases scan _ behind <;> rfl
  | @token position w rest t tokens hw hlongest hallowed hposition _ ih =>
    have hself : { t with position := ((position + w.length : Nat) : Int) } = t := by
      rw [← hposition]
    have hlength : position + (w ++ (t.text.toList ++ rest)).length =
        position + w.length + t.text.length + rest.length := by
      rw [List.length_append, List.length_append, String.length_toList]
      omega
    rw [List.append_assoc, List.append_assoc, scan_blanks hw, scan_token hlongest hallowed, ih,
      hself, hlength]
    cases scan _ behind <;> rfl

/-- A text that consists of tokens is scanned to them. -/
theorem scan_eq_ok {front : List Char} {position : Nat} {tokens : List Token}
    (h : Lexes [] position front tokens) : scan position front = .ok tokens := by
  have hscan := scan_of_lexes h
  rw [List.append_nil, scan] at hscan
  rw [hscan]
  exact congrArg Except.ok (List.append_nil tokens)

/-- What is found cuts a text in two, and is the longest lexeme in front of the second part. -/
theorem split_of_lexeme? {c : Char} {rest : List Char} {kind : TokenKind} {extra : Nat}
    (h : lexeme? c rest = some (kind, extra)) (position : Int) :
    c :: rest = (String.ofList (c :: rest.take extra)).toList ++ rest.drop extra ∧
      (Token.mk kind (String.ofList (c :: rest.take extra)) position).IsLongest
        ((String.ofList (c :: rest.take extra)).toList ++ rest.drop extra) ∧
      (String.ofList (c :: rest.take extra)).length = extra + 1 := by
  have hsplit : c :: rest = (String.ofList (c :: rest.take extra)).toList ++ rest.drop extra := by
    rw [String.toList_ofList, List.cons_append, List.take_append_drop]
  refine ⟨hsplit, ?_, ?_⟩
  · rw [← hsplit]
    exact isLongest_of_lexeme? h position
  · rw [String.length_ofList, List.length_cons, List.length_take]
    have := (lexeme?_sound h position).1
    omega

/-- A text consists of tokens, or does up to a piece that is refused. -/
theorem lexes_or_refused (position : Nat) (text : List Char) :
    (∃ tokens, Lexes [] position text tokens) ∨
      ∃ before piece rest tokens, text = before ++ (piece.toList ++ rest) ∧
        Lexes (piece.toList ++ rest) position before tokens ∧ Refused rest piece := by
  fun_induction scan position text with
  | case1 position => exact Or.inl ⟨[], .blanks (by simp)⟩
  | case2 position c rest hblank ih =>
    rcases ih with ⟨tokens, h⟩ | ⟨before, piece, behind, tokens, rfl, h, hrefused⟩
    · exact Or.inl ⟨tokens, h.cons_blank hblank⟩
    · exact Or.inr ⟨c :: before, piece, behind, tokens, rfl, h.cons_blank hblank, hrefused⟩
  | case3 position c rest hblank hnone =>
    refine Or.inr ⟨[], String.singleton c, rest, [], ?_, .blanks (by simp), ?_⟩
    · rw [String.toList_singleton]
      rfl
    · exact .character (Bool.not_eq_true _ ▸ hblank) (lexeme?_eq_none_iff.mp hnone)
  | case4 position c rest hblank kind extra hfound text hcheck =>
    obtain ⟨hsplit, hlongest, _⟩ := split_of_lexeme? hfound position
    obtain ⟨hkind, hallowed⟩ := Bool.and_eq_true_iff.mp hcheck
    refine Or.inr ⟨[], text, rest.drop extra, [], hsplit, .blanks (by simp), ?_⟩
    refine .name (t := ⟨kind, text, position⟩) (of_decide_eq_true hkind) hlongest fun h => ?_
    rw [isAllowed_iff.mpr (h (of_decide_eq_true hkind))] at hallowed
    cases hallowed
  | case5 position c rest hblank kind extra hfound text hcheck ih =>
    obtain ⟨hsplit, hlongest, hlength⟩ := split_of_lexeme? hfound position
    have htext : String.ofList (c :: rest.take extra) = text := rfl
    rw [htext] at hsplit hlongest hlength
    clear_value text
    have hallowed : (Token.mk kind text position).IsAllowed := by
      intro hkind
      rw [Bool.and_eq_true, not_and, decide_eq_true_iff] at hcheck
      exact isAllowed_iff.mp (by simpa using hcheck hkind)
    have hnext : position + 1 + extra = position + text.length := by omega
    rw [hsplit]
    rw [hnext] at ih
    rcases ih with ⟨tokens, h⟩ | ⟨before, piece, behind, tokens, hrest, h, hrefused⟩
    · refine Or.inl ⟨⟨kind, text, position⟩ :: tokens, ?_⟩
      rw [← List.append_nil (rest.drop extra)] at hlongest
      exact .cons_token hlongest hallowed rfl h
    · refine Or.inr ⟨text.toList ++ before, piece, behind, ⟨kind, text, position⟩ :: tokens, ?_,
        ?_, hrefused⟩
      · rw [hrest, List.append_assoc]
      · rw [hrest] at hlongest
        exact .cons_token hlongest hallowed rfl h

/-! ## The boundary -/

/-- A text that consists of tokens up to a refused piece is refused there. -/
theorem scan_of_refusedAt {text : List Char} {piece : String} {position : Nat}
    (h : RefusedAt text piece position) : scan 0 text = .error (.disallowed piece position) := by
  obtain ⟨before, rest, tokens, rfl, rfl, hbefore, hrefused⟩ := h
  rw [scan_of_lexes hbefore, scan_refused hrefused, Nat.zero_add]
  rfl

/-- Scanning finds no token exactly in blank texts. -/
theorem scan_eq_nil_iff {text : List Char} : scan 0 text = .ok [] ↔ Text.blank text = true := by
  constructor
  · intro h
    rcases lexes_or_refused 0 text with ⟨tokens, hlexes⟩ | ⟨before, piece, rest, tokens, rfl, hmore⟩
    · rw [scan_eq_ok hlexes] at h
      cases h
      cases hlexes with
      | blanks hw => exact List.all_eq_true.mpr hw
    · rw [scan_of_refusedAt ⟨before, rest, tokens, rfl, rfl, hmore⟩] at h
      cases h
  · intro h
    exact scan_eq_ok (.blanks (List.all_eq_true.mp h))

/-- A text is blank, consists of one or more tokens, or has a refused piece. -/
theorem tokenize_cases (text : String) :
    (Text.blank text.toList = true ∧ tokenize text = .error .blank) ∨
      (∃ tokens, tokens ≠ [] ∧ Lexes [] 0 text.toList tokens ∧ tokenize text = .ok tokens) ∨
      ∃ piece position, RefusedAt text.toList piece position ∧
        tokenize text = .error (.disallowed piece position) := by
  unfold tokenize
  split
  · next hblank => exact Or.inl ⟨hblank, rfl⟩
  · next hblank =>
    refine Or.inr ?_
    rcases lexes_or_refused 0 text.toList with
      ⟨tokens, h⟩ | ⟨before, piece, rest, tokens, hsplit, hmore⟩
    · refine Or.inl ⟨tokens, ?_, h, scan_eq_ok h⟩
      rintro rfl
      exact hblank (scan_eq_nil_iff.mp (scan_eq_ok h))
    · have hrefused : RefusedAt text.toList piece before.length :=
        ⟨before, rest, tokens, hsplit, rfl, hmore⟩
      exact Or.inr ⟨piece, before.length, hrefused, scan_of_refusedAt hrefused⟩

/-- A text consists of its tokens. -/
theorem lexes_of_tokenize {text : String} {tokens : List Token} (h : tokenize text = .ok tokens) :
    tokens ≠ [] ∧ Lexes [] 0 text.toList tokens := by
  rcases tokenize_cases text with ⟨_, hblank⟩ | ⟨others, hne, hlexes, hok⟩ | ⟨_, _, _, hrefused⟩
  · cases h.symm.trans hblank
  · cases h.symm.trans hok
    exact ⟨hne, hlexes⟩
  · cases h.symm.trans hrefused

/-- A text that consists of one or more tokens is tokenized to them. -/
theorem tokenize_eq_ok {text : String} {tokens : List Token} (hne : tokens ≠ [])
    (h : Lexes [] 0 text.toList tokens) : tokenize text = .ok tokens := by
  have hblank : ¬ Text.blank text.toList = true := by
    intro hblank
    have := (scan_eq_ok h).symm.trans (scan_eq_nil_iff.mpr hblank)
    cases this
    exact hne rfl
  unfold tokenize
  rw [if_neg hblank, scan_eq_ok h]

/-- A text with a refused piece is refused there. -/
theorem tokenize_of_refusedAt {text : String} {piece : String} {position : Nat}
    (h : RefusedAt text.toList piece position) :
    tokenize text = .error (.disallowed piece position) := by
  have hblank : ¬ Text.blank text.toList = true := by
    intro hblank
    have := (scan_of_refusedAt h).symm.trans (scan_eq_nil_iff.mpr hblank)
    cases this
  unfold tokenize
  rw [if_neg hblank, scan_of_refusedAt h]

/-- The tokenizer is an exact boundary. A text is blank exactly when it is refused as blank; its
tokens are those that it consists of; a piece is refused exactly where no token can be made of it
and the text in front of it consists of tokens, also by itself; and there is no other outcome. -/
theorem tokenize_decides (text : String) :
    (tokenize text = .error .blank ↔ ∀ c ∈ text.toList, Text.isBlank c = true) ∧
    (∀ tokens, tokenize text = .ok tokens ↔ tokens ≠ [] ∧ Lexes [] 0 text.toList tokens) ∧
    (∀ piece position, tokenize text = .error (.disallowed piece position) ↔
      RefusedAt text.toList piece position) ∧
    (∀ piece position, RefusedAt text.toList piece position →
      ∃ tokens, scan 0 (text.toList.take position) = .ok tokens) ∧
    (tokenize text = .error .blank ∨ (∃ tokens, tokenize text = .ok tokens) ∨
      ∃ piece position, tokenize text = .error (.disallowed piece position)) := by
  have hcases := tokenize_cases text
  refine ⟨⟨fun h => ?_, fun h => ?_⟩, fun tokens => ⟨fun h => ?_, fun h => tokenize_eq_ok h.1 h.2⟩,
    fun piece position => ⟨fun h => ?_, tokenize_of_refusedAt⟩, ?_, ?_⟩
  · rcases hcases with ⟨hblank, _⟩ | ⟨_, _, _, hok⟩ | ⟨_, _, _, hrefused⟩
    · exact List.all_eq_true.mp hblank
    · cases h.symm.trans hok
    · cases h.symm.trans hrefused
  · exact if_pos (List.all_eq_true.mpr h)
  · rcases hcases with ⟨_, hblank⟩ | ⟨_, hne, hlexes, hok⟩ | ⟨_, _, _, hrefused⟩
    · cases h.symm.trans hblank
    · cases h.symm.trans hok
      exact ⟨hne, hlexes⟩
    · cases h.symm.trans hrefused
  · rcases hcases with ⟨_, hblank⟩ | ⟨_, _, _, hok⟩ | ⟨_, _, hat, hrefused⟩
    · cases h.symm.trans hblank
    · cases h.symm.trans hok
    · cases h.symm.trans hrefused
      exact hat
  · rintro piece position ⟨before, rest, tokens, hsplit, rfl, hbefore, _⟩
    refine ⟨tokens, ?_⟩
    rw [hsplit, List.take_left]
    exact scan_eq_ok hbefore.alone
  · rcases hcases with ⟨_, hblank⟩ | ⟨tokens, _, _, hok⟩ | ⟨piece, position, _, hrefused⟩
    · exact Or.inl hblank
    · exact Or.inr (Or.inl ⟨tokens, hok⟩)
    · exact Or.inr (Or.inr ⟨piece, position, hrefused⟩)

end Lexer

end LayerBlend
