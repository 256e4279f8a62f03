import LayerBlend.Proofs.Formula.NormalForm

/-!
# Which tokens survive being written

`tokenize_render` reads tokens back that stay apart. No others are read back: a name or a numeral
that is followed by what it can go on with is written without a blank behind it.

* `Token.exists_append_isLexeme` — a token that does not stay apart from the next one can go on with
  its first character (`Token.IsLongest.apart`: so it is not the longest lexeme in front of it).
* `Lexer.Lexes.of_spaced` — a text that consists of tokens goes on behind a text of the first ones
  with the others, since blanks are no part of lexemes.
* `Rendering.exists_render_append` — two tokens that do not stay apart stand in the rendering with
  nothing between them.
* `tokenize_render_iff` — so whitelisted lexemes are read back from their rendering exactly when
  they stay apart.
-/

namespace LayerBlend

namespace Token

/-- The class and the characters of a token. -/
def content (t : Token) : TokenKind × String :=
  (t.kind, t.text)

/-! ## Tokens that go on with the next one -/

/-- Two tokens that do not stay apart are a name in front of a name or a numeral, or two
numerals. -/
theorem not_apart_iff {u v : Token} : ¬ u.Apart v ↔
    (u.kind = .identifier ∧ (v.kind = .identifier ∨ v.kind = .number)) ∨
      (u.kind = .number ∧ v.kind = .number) := by
  constructor
  · intro h
    by_contra hnone
    rw [not_or, not_and, not_and, not_or] at hnone
    exact h ⟨hnone.1, hnone.2⟩
  · rintro (⟨hu, hv⟩ | ⟨hu, hv⟩) h
    · exact hv.elim (h.word hu).1 (h.word hu).2
    · exact h.number hu hv

/-- A name or a numeral starts with a character that may stand inside a name. -/
theorem IsLexeme.exists_cons {t : Token} (h : t.IsLexeme)
    (hkind : t.kind = .identifier ∨ t.kind = .number) :
    ∃ c s, t.text.toList = c :: s ∧ Lexer.isWordPart c = true ∧
      (t.kind = .number → c.isDigit = true) := by
  unfold IsLexeme at h
  rcases hkind with hkind | hkind
  · rw [hkind] at h
    obtain ⟨c, s, htext, hc, _⟩ := h
    refine ⟨c, s, htext, Lexer.isWordPart_of_isWordStart hc, fun hnumber => ?_⟩
    rw [hkind] at hnumber
    cases hnumber
  · rw [hkind] at h
    obtain ⟨whole, tail, htext, hne, hwhole, _⟩ := h
    obtain ⟨c, s, rfl⟩ := List.exists_cons_of_ne_nil hne
    have hc := hwhole c List.mem_cons_self
    refine ⟨c, s ++ tail, htext, ?_, fun _ => hc⟩
    rw [Lexer.isWordPart, Char.isAlphanum, hc, Bool.or_true, Bool.true_or]

/-- A token goes on with the first character of one that it does not stay apart from. -/
theorem exists_append_isLexeme {u v : Token} (hu : u.IsLexeme) (hv : v.IsLexeme)
    (h : ¬ u.Apart v) : ∃ c s, v.text.toList = c :: s ∧
      (Token.mk u.kind (String.ofList (u.text.toList ++ [c])) u.position).IsLexeme := by
  rcases not_apart_iff.mp h with ⟨hkind, hvkind⟩ | ⟨hkind, hvkind⟩
  · obtain ⟨c, s, hcs, hc, _⟩ := hv.exists_cons hvkind
    refine ⟨c, s, hcs, ?_⟩
    rw [IsLexeme, hkind] at hu
    obtain ⟨first, others, htext, hfirst, hothers⟩ := hu
    rw [IsLexeme, hkind]
    refine ⟨first, others ++ [c], ?_, hfirst, ?_⟩
    · rw [String.toList_ofList, htext, List.cons_append]
    · rw [List.forall_mem_append, List.forall_mem_singleton]
      exact ⟨hothers, hc⟩
  · obtain ⟨c, s, hcs, _, hdigit⟩ := hv.exists_cons (Or.inr hvkind)
    have hc := hdigit hvkind
    refine ⟨c, s, hcs, ?_⟩
    rw [IsLexeme, hkind] at hu
    obtain ⟨whole, tail, htext, hne, hwhole, htail⟩ := hu
    rw [IsLexeme, hkind, String.toList_ofList, htext]
    -- the digit belongs to the fraction if there is one, and to the whole part otherwise
    rcases htail with rfl | ⟨fraction, rfl, hfne, hfraction⟩
    · refine ⟨whole ++ [c], [], by simp, by simp, ?_, Or.inl rfl⟩
      rw [List.forall_mem_append, List.forall_mem_singleton]
      exact ⟨hwhole, hc⟩
    · refine ⟨whole, '.' :: (fraction ++ [c]), by simp, hne, hwhole,
        Or.inr ⟨fraction ++ [c], rfl, by simp, ?_⟩⟩
      rw [List.forall_mem_append, List.forall_mem_singleton]
      exact ⟨hfraction, hc⟩

/-- A longest lexeme that stands right in front of a lexeme stays apart from it. -/
theorem IsLongest.apart {u v : Token} {rest : List Char}
    (h : u.IsLongest (u.text.toList ++ (v.text.toList ++ rest))) (hv : v.IsLexeme) :
    u.Apart v := by
  by_contra hnot
  obtain ⟨c, s, hcs, hlonger⟩ := exists_append_isLexeme h.isLexeme hv hnot
  have hfront : (String.ofList (u.text.toList ++ [c])).toList <+:
      u.text.toList ++ (v.text.toList ++ rest) := by
    rw [String.toList_ofList, hcs]
    exact ⟨s ++ rest, by simp⟩
  have hle := h.length_le (.mk u.kind (String.ofList (u.text.toList ++ [c])) u.position) rfl
    hlonger hfront
  rw [String.length_ofList, List.length_append, String.length_toList, List.length_singleton] at hle
  omega

end Token

/-! ## Texts that are read as given tokens -/

namespace Lexer

/-- Blanks in front of another character are told apart from it. -/
theorem append_cons_inj {w w' s s' : List Char} {c : Char}
    (hw : ∀ d ∈ w, Text.isBlank d = true) (hw' : ∀ d ∈ w', Text.isBlank d = true)
    (hc : Text.isBlank c = false) (h : w ++ c :: s = w' ++ c :: s') : w = w' ∧ s = s' := by
  have hstop : ∀ s : List Char, ∀ d ∈ (c :: s).head?, Text.isBlank d = false := by
    rintro s d ⟨⟩
    exact hc
  obtain ⟨htake, hdrop⟩ := span_run hw (hstop s)
  obtain ⟨htake', hdrop'⟩ := span_run hw' (hstop s')
  rw [h] at htake hdrop
  exact ⟨htake.symm.trans htake', (List.cons.inj (hdrop.symm.trans hdrop')).2⟩

/-- The text of a token in front of which there are blanks is told apart from them. -/
theorem append_text_inj {w w' s s' : List Char} {t u : Token} (ht : t.IsLexeme)
    (hw : ∀ d ∈ w, Text.isBlank d = true) (hw' : ∀ d ∈ w', Text.isBlank d = true)
    (hsame : u.text = t.text)
    (h : w ++ (t.text.toList ++ s) = w' ++ (u.text.toList ++ s')) : w = w' ∧ s = s' := by
  obtain ⟨c, v, hcv⟩ := List.exists_cons_of_ne_nil ht.ne_nil
  have hc := ht.isBlank_eq_false c (hcv ▸ List.mem_cons_self)
  rw [hsame, hcv] at h
  obtain ⟨hblanks, hrest⟩ := append_cons_inj hw hw' hc h
  exact ⟨hblanks, List.append_cancel_left hrest⟩

/-- A text of one or more tokens is blanks, the first token and a text of the others. -/
theorem Lexes.exists_of_cons {behind text : List Char} {position : Nat} {t : Token}
    {tokens : List Token} (h : Lexes behind position text (t :: tokens)) :
    ∃ w rest, text = w ++ (t.text.toList ++ rest) ∧ (∀ c ∈ w, Text.isBlank c = true) ∧
      t.IsLongest (t.text.toList ++ (rest ++ behind)) ∧
      Lexes behind (position + w.length) (t.text.toList ++ rest) (t :: tokens) ∧
      Lexes behind (position + w.length + t.text.length) rest tokens := by
  cases h with
  | @token _ w rest _ _ hw hlongest hallowed hposition hrest =>
    exact ⟨w, rest, rfl, hw, hlongest, .cons_token hlongest hallowed hposition hrest, hrest⟩

/-- Tokens with the content of one or more are one or more. -/
theorem exists_of_content_cons {t : Token} {tokens others : List Token}
    (h : others.map Token.content = (t :: tokens).map Token.content) :
    ∃ u more, others = u :: more ∧ u.kind = t.kind ∧ u.text = t.text ∧
      more.map Token.content = tokens.map Token.content := by
  obtain ⟨u, more, rfl, hu, hmore⟩ := List.map_eq_cons_iff.mp h
  obtain ⟨hkind, htext⟩ := Prod.mk.inj hu
  exact ⟨u, more, rfl, hkind, htext, hmore⟩

/-- A text that is read as given tokens goes on, behind a text of the first ones, with what is read
as the others. -/
theorem Lexes.of_spaced {x : List Char} {front : List Token} (hx : Spaced x front)
    (hfront : ∀ t ∈ front, t.IsLexeme) {v : Token} (hv : v.IsLexeme) {rest : List Char}
    {more others : List Token} {position : Nat}
    (h : Lexes [] position (x ++ (v.text.toList ++ rest)) others)
    (hsame : others.map Token.content = (front ++ v :: more).map Token.content) :
    ∃ position others, Lexes [] position (v.text.toList ++ rest) others ∧
      others.map Token.content = (v :: more).map Token.content := by
  induction hx generalizing position others with
  | @blanks w hw =>
    obtain ⟨u, others, rfl, _, htext, _⟩ := exists_of_content_cons hsame
    obtain ⟨w', rest', heq, hw', _, hread, _⟩ := h.exists_of_cons
    obtain ⟨_, rfl⟩ := append_text_inj hv hw hw' htext heq
    rw [htext] at hread
    exact ⟨_, _, hread, hsame⟩
  | @token w s t tokens hw _ ih =>
    rw [List.forall_mem_cons] at hfront
    obtain ⟨u, others, rfl, _, htext, hothers⟩ := exists_of_content_cons hsame
    obtain ⟨w', rest', heq, hw', _, _, hrest⟩ := h.exists_of_cons
    rw [List.append_assoc, List.append_assoc] at heq
    obtain ⟨_, rfl⟩ := append_text_inj hfront.1 hw hw' htext heq
    exact ih hfront.2 hrest hothers

/-- A token and the one right behind it are read as two only if they stay apart. -/
theorem Lexes.apart {u v : Token} (hu : u.IsLexeme) (hv : v.IsLexeme) {rest : List Char}
    {more others : List Token} {position : Nat}
    (h : Lexes [] position (u.text.toList ++ (v.text.toList ++ rest)) others)
    (hsame : others.map Token.content = (u :: v :: more).map Token.content) : u.Apart v := by
  obtain ⟨t, others, rfl, hkind, htext, _⟩ := exists_of_content_cons hsame
  obtain ⟨w, rest', heq, hw, hlongest, _⟩ := h.exists_of_cons
  obtain ⟨_, rfl⟩ := append_text_inj (w := []) hu (by simp) hw htext heq
  rw [List.append_nil] at hlongest
  have hapart := hlongest.apart hv
  exact ⟨hkind ▸ hapart.word, hkind ▸ hapart.number⟩

end Lexer

/-! ## What stands in a rendering -/

namespace Rendering

/-- A rendering is the spellings of the tokens without some of the blanks. -/
theorem thins_render (tokens : List Token) :
    Thins (tokens.flatMap spell) (render tokens).toList := by
  unfold render
  rw [String.toList_ofList]
  exact (thins_joinSpaces _).trans <| (thins_tightenOpening _ false).trans <|
    (thins_tightenClosing _).trans (thins_trim _)

/-- A name or a numeral is spelled without blanks. -/
theorem spell_eq_text {t : Token} (h : t.kind = .identifier ∨ t.kind = .number) :
    spell t = t.text.toList := by
  unfold spell
  rcases h with h | h <;> rw [h]

/-- Two tokens that do not stay apart have nothing between them in a rendering. -/
theorem exists_render_append {front : List Token} {u v : Token} (back : List Token)
    (hfront : ∀ t ∈ front, t.IsLexeme) (hu : u.IsLexeme) (hv : v.IsLexeme) (h : ¬ u.Apart v) :
    ∃ x y, (render (front ++ u :: v :: back)).toList =
      x ++ (u.text.toList ++ (v.text.toList ++ y)) ∧ Spaced x front := by
  have hkinds := Token.not_apart_iff.mp h
  have hthins := thins_render (front ++ u :: v :: back)
  rw [List.flatMap_append, List.flatMap_cons, List.flatMap_cons,
    spell_eq_text (t := u) (by tauto), spell_eq_text (t := v) (by tauto)] at hthins
  obtain ⟨x, behind, heq, hx, hbehind⟩ := hthins.exists_append
  obtain ⟨first, behind, rfl, hfirst, hbehind⟩ := hbehind.exists_append
  obtain ⟨second, y, rfl, hsecond, _⟩ := hbehind.exists_append
  rw [hfirst.eq_of_no_blank hu.isBlank_eq_false, hsecond.eq_of_no_blank hv.isBlank_eq_false] at heq
  exact ⟨x, y, heq, (spaced_spell hfront).thin hfront hx⟩

end Rendering

/-- Lexemes with the same terminals have the same content. -/
theorem content_congr {tokens others : List Token} (htokens : ∀ t ∈ tokens, t.IsLexeme)
    (hothers : ∀ t ∈ others, t.IsLexeme)
    (h : tokens.map Token.terminal = others.map Token.terminal) :
    tokens.map Token.content = others.map Token.content := by
  induction tokens generalizing others with
  | nil =>
    obtain rfl : others = [] := List.map_eq_nil_iff.mp h.symm
    rfl
  | cons t tokens ih =>
    obtain ⟨u, others, rfl, hu, hrest⟩ := List.map_eq_cons_iff.mp h.symm
    rw [List.forall_mem_cons] at htokens hothers
    obtain ⟨hkind, htext⟩ := htokens.1.eq_of_terminal hothers.1 hu.symm
    rw [List.map_cons, List.map_cons, ih htokens.2 hothers.2 hrest.symm, Token.content,
      Token.content, hkind, htext]

/-- Whitelisted lexemes are read back from their rendering exactly when no name is followed by a
name or a numeral and no numeral by a numeral. -/
theorem tokenize_render_iff {tokens : List Token} (hne : tokens ≠ [])
    (hwhole : ∀ t ∈ tokens, t.IsWhole) :
    (∃ others, tokenize (render tokens) = .ok others ∧
      others.map Token.content = tokens.map Token.content) ↔ tokens.IsChain Token.Apart := by
  have hlexemes : ∀ t ∈ tokens, t.IsLexeme := fun t ht => (hwhole t ht).isLexeme
  constructor
  · rintro ⟨others, hothers, hsame⟩
    obtain ⟨_, hread⟩ := Lexer.lexes_of_tokenize hothers
    refine List.isChain_iff_forall_rel_of_append_cons_cons.mpr fun u v front back heq => ?_
    subst heq
    rw [List.forall_mem_append, List.forall_mem_cons, List.forall_mem_cons] at hlexemes
    obtain ⟨hfront, hu, hv, _⟩ := hlexemes
    by_contra hnot
    -- nothing stands between the two, so that they are read as two only if they stay apart
    obtain ⟨x, y, hrender, hx⟩ := Rendering.exists_render_append back hfront hu hv hnot
    rw [hrender] at hread
    obtain ⟨_, others, hread, hsame⟩ := hread.of_spaced hx hfront hu hsame
    exact hnot (hread.apart hu hv hsame)
  · intro hapart
    obtain ⟨others, hothers, hterminals⟩ := tokenize_render hne hlexemes
      (fun t ht => (hwhole t ht).isAllowed) hapart
    exact ⟨others, hothers, content_congr
      (fun t ht => (isWhole_of_tokenize hothers t ht).isLexeme) hlexemes hterminals⟩

/-- A numeral in front of a name and an operator in front of an operator are read back; a name in
front of a numeral is not. -/
theorem tokenize_render_iff_touching :
    ∃ apart fused, tokenize "1.5rb< <=gb" = .ok apart ∧ tokenize "rb 1" = .ok fused ∧
      (∃ others, tokenize (render apart) = .ok others ∧
        others.map Token.content = apart.map Token.content) ∧
      ¬ ∃ others, tokenize (render fused) = .ok others ∧
        others.map Token.content = fused.map Token.content := by
  have hapart : tokenize "1.5rb< <=gb" = .ok [⟨.number, "1.5", 0⟩, ⟨.identifier, "rb", 3⟩,
      ⟨.operator, "<", 5⟩, ⟨.operator, "<=", 7⟩, ⟨.identifier, "gb", 9⟩] := by decide +kernel
  have hfused : tokenize "rb 1" = .ok [⟨.identifier, "rb", 0⟩, ⟨.number, "1", 3⟩] := by
    decide +kernel
  refine ⟨_, _, hapart, hfused, (tokenize_render_iff (by simp) (isWhole_of_tokenize hapart)).mpr ?_,
    fun h => ?_⟩
  · simp only [List.isChain_cons_cons, List.isChain_singleton, and_true]
    refine ⟨⟨?_, ?_⟩, ⟨?_, ?_⟩, ⟨?_, ?_⟩, ?_, ?_⟩
    all_goals simp
  · have hchain := (tokenize_render_iff (by simp) (isWhole_of_tokenize hfused)).mp h
    exact (List.isChain_cons_cons.mp hchain).1.word rfl |>.2 rfl

end LayerBlend
