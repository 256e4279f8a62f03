import LayerBlend.Proofs.Formula.Compilation
import LayerBlend.Proofs.Formula.Spacing

/-!
# The expanded text of a formula is its normal form

* `Grammar.Derives.isChain` — no literal and no name of a phrase is followed by another, so the
  tokens of a formula stay apart when they are written (`Grammar.IsFormula.isChain_apart`).
* `Token.IsWhole` — a token is a lexeme of its class and on the whitelist, as every token of a text
  is and every token of an expansion (`isWhole_of_mem_expandShorthand`).
* `usesShorthand_expandShorthand` — nothing is left to expand in an expansion.
* `render_congr` — the rendering of lexemes depends on their terminals only.
* `compile_expanded` — so the expanded text of a compiled formula compiles to the same tree, and is
  its own expanded text.
-/

namespace LayerBlend

/-! ## Neighbours in a phrase -/

/-- A literal or a name. -/
def Terminal.isOperand : Terminal → Bool
  | .number _ | .word _ => true
  | _ => false

/-- Not both of two terminals are literals or names. -/
def Terminal.Apart (x y : Terminal) : Prop :=
  x.isOperand = true → y.isOperand = false

/-- Literals and names are the terminals of these two classes. -/
theorem Token.isOperand_terminal {t : Token} :
    t.terminal.isOperand = true ↔ t.kind = .number ∨ t.kind = .identifier := by
  rw [Token.kind_eq (t := t) rfl]
  cases t.terminal <;> simp [Terminal.isOperand, Terminal.kind]

namespace Grammar

/-- A terminal of another class keeps what is in front of it apart from what is behind it. -/
theorem isChain_append_cons {s u : List Terminal} {x : Terminal} (hx : x.isOperand = false)
    (hs : s.IsChain Terminal.Apart) (hu : u.IsChain Terminal.Apart) :
    (s ++ x :: u).IsChain Terminal.Apart := by
  have hnext : ∀ y ∈ u.head?, x.Apart y := by
    intro y _ hoperand
    rw [hx] at hoperand
    cases hoperand
  refine List.isChain_append.mpr ⟨hs, List.isChain_cons.mpr ⟨hnext, hu⟩, ?_⟩
  intro y _ z hz _
  cases hz
  exact hx

/-- Pieces with a comma in front of each are kept apart. -/
theorem isChain_flatMap {parts : List (List Terminal)}
    (h : ∀ s ∈ parts, s.IsChain Terminal.Apart) {s : List Terminal}
    (hs : s.IsChain Terminal.Apart) :
    (s ++ parts.flatMap (Terminal.comma :: ·)).IsChain Terminal.Apart := by
  induction parts generalizing s with
  | nil => simpa using hs
  | cons u parts ih =>
    rw [List.forall_mem_cons] at h
    rw [List.flatMap_cons, List.cons_append]
    exact isChain_append_cons rfl hs (ih h.2 h.1)

/-- Pieces with commas between them and a mark on either side are kept apart. -/
theorem isChain_list {parts : List (List Terminal)} (h : ∀ s ∈ parts, s.IsChain Terminal.Apart)
    {x y : Terminal} (hx : x.isOperand = false) (hy : y.isOperand = false) :
    (x :: (List.intercalate [.comma] parts ++ [y])).IsChain Terminal.Apart := by
  have hinner : (List.intercalate [.comma] parts).IsChain Terminal.Apart := by
    cases parts with
    | nil => exact .nil
    | cons s parts =>
      rw [List.forall_mem_cons] at h
      rw [intercalate_comma_cons]
      exact isChain_flatMap h.2 h.1
  exact isChain_append_cons hx .nil (isChain_append_cons hy hinner .nil)

/-- No literal and no name of a phrase is followed by another. -/
theorem Derives.isChain {level : Level} {s : List Terminal} {tree : Node}
    (h : Derives level s tree) : s.IsChain Terminal.Apart := by
  have hlist : ∀ {parts : List (List Terminal × Node)},
      (∀ part ∈ parts, part.1.IsChain Terminal.Apart) →
      ∀ s ∈ parts.map Prod.fst, s.IsChain Terminal.Apart := by
    intro parts hparts s hs
    obtain ⟨part, hpart, rfl⟩ := List.mem_map.mp hs
    exact hparts part hpart
  induction h with
  | tighter _ _ ih => exact ih
  | binary _ _ _ ihl ihr =>
    exact isChain_append_cons rfl ihl ihr
  | conditional _ _ _ ihc ihp ihn =>
    exact isChain_append_cons rfl ihc (isChain_append_cons rfl ihp ihn)
  | minus _ ih | plus _ ih => exact isChain_append_cons rfl .nil ih
  | number _ => exact .singleton _
  | channel c => exact .singleton _
  | call f _ ih =>
    have hargs := isChain_list (x := .leftParen) (y := .rightParen) (hlist ih) rfl rfl
    exact isChain_append_cons (s := [.word f.name]) rfl (.singleton _) hargs.tail
  | parentheses _ ih => exact isChain_append_cons rfl .nil (isChain_append_cons rfl ih .nil)
  | array _ _ ih => exact isChain_list (hlist ih) rfl rfl

/-- The tokens of a formula stay apart. -/
theorem IsFormula.isChain_apart {tokens : List Token} {tree : Node}
    (h : IsFormula (tokens.map Token.terminal) tree) : tokens.IsChain Token.Apart := by
  refine ((List.isChain_map _).mp h.1.isChain).imp fun t u hapart => ?_
  have hnot : t.kind = .number ∨ t.kind = .identifier →
      ¬ (u.kind = .number ∨ u.kind = .identifier) := by
    intro ht hu
    have := hapart (Token.isOperand_terminal.mpr ht)
    rw [Token.isOperand_terminal.mpr hu] at this
    cases this
  refine ⟨fun ht => ⟨fun hu => ?_, fun hu => ?_⟩, fun ht hu => ?_⟩
  · exact hnot (Or.inr ht) (Or.inr hu)
  · exact hnot (Or.inr ht) (Or.inl hu)
  · exact hnot (Or.inl ht) (Or.inl hu)

end Grammar

/-! ## Whole tokens -/

namespace Token

/-- A lexeme of its class that is on the whitelist. -/
structure IsWhole (t : Token) : Prop where
  /-- It is a lexeme of its class. -/
  isLexeme : t.IsLexeme
  /-- It is on the whitelist. -/
  isAllowed : t.IsAllowed

/-- A name that starts with a letter is a lexeme. -/
theorem isLexeme_channel (c : Channel) (position : Int) :
    (Token.mk .identifier c.name position).IsLexeme := by
  obtain ⟨component, side⟩ := c
  refine ⟨component.letter, [side.letter], by rw [Channel.name, String.toList_ofList], ?_, ?_⟩
  · cases component <;> rfl
  · cases side <;> simp [Side.letter, Lexer.isWordPart, Char.isAlphanum]

/-- The shorthand of a layer is a name. -/
theorem kind_of_side? {t : Token} {side : Side} (h : t.side? = some side) :
    t.kind = .identifier := by
  unfold side? at h
  split at h
  · assumption
  · cases h

/-- Copies of whole tokens are whole. -/
theorem IsWhole.select {t : Token} (h : t.IsWhole) (c : Component) : (t.select c).IsWhole := by
  unfold Token.select
  split
  · exact h
  · next side hside =>
    have hkind := kind_of_side? hside
    have heq : { t with text := (Channel.mk c side).name } =
        Token.mk .identifier (Channel.mk c side).name t.position := by
      rw [hkind]
    rw [heq]
    exact ⟨isLexeme_channel _ _, fun _ => Or.inl ⟨_, rfl⟩⟩

/-- No copy of a token is a shorthand. -/
theorem side?_select (c : Component) (t : Token) : (t.select c).side? = none := by
  unfold Token.select
  split
  · assumption
  · next side hside =>
    unfold side?
    rw [if_pos (kind_of_side? hside)]
    cases c <;> cases side <;> rfl

end Token

/-- A text consists of whole tokens. -/
theorem Lexer.Lexes.isWhole {behind front : List Char} {position : Nat} {tokens : List Token}
    (h : Lexes behind position front tokens) : ∀ t ∈ tokens, t.IsWhole := by
  induction h with
  | blanks _ => simp
  | token _ hlongest hallowed _ _ ih =>
    exact List.forall_mem_cons.mpr ⟨⟨hlongest.isLexeme, hallowed⟩, ih⟩

/-- Every token of a text is whole. -/
theorem isWhole_of_tokenize {text : String} {tokens : List Token}
    (h : tokenize text = .ok tokens) : ∀ t ∈ tokens, t.IsWhole :=
  (Lexer.lexes_of_tokenize h).2.isWhole

/-! ## Tokens of an expansion -/

/-- What stands in a list of pieces with a separator between them stands in the separator or in a
piece. -/
theorem mem_intercalate {α : Type} {sep : List α} {x : α} :
    ∀ {parts : List (List α)}, x ∈ List.intercalate sep parts → x ∈ sep ∨ ∃ s ∈ parts, x ∈ s
  | [], h => by simp [List.intercalate] at h
  | [s], h => by
    rw [List.intercalate_singleton] at h
    exact Or.inr ⟨s, List.mem_singleton_self s, h⟩
  | s :: s' :: parts, h => by
    rw [List.intercalate_cons_cons, List.mem_append, List.mem_append] at h
    rcases h with (h | h) | h
    · exact Or.inr ⟨s, List.mem_cons_self, h⟩
    · exact Or.inl h
    · rcases mem_intercalate h with h | ⟨u, hu, h⟩
      · exact Or.inl h
      · exact Or.inr ⟨u, List.mem_cons_of_mem s hu, h⟩

/-- An expansion is an opening bracket, and then commas, the closing bracket and copies of the
tokens. -/
theorem exists_expandShorthand {tokens : List Token} (h : usesShorthand tokens = true) :
    ∃ rest, expandShorthand tokens = Token.openingBracket :: rest ∧
      ∀ t ∈ rest, (t = Token.separator ∨ t = Token.closingBracket) ∨
        ∃ u ∈ tokens, ∃ c, t = u.select c := by
  unfold expandShorthand
  rw [if_pos h]
  refine ⟨_, rfl, fun t ht => ?_⟩
  rcases List.mem_append.mp ht with ht | ht
  · rcases mem_intercalate ht with ht | ⟨s, hs, ht⟩
    · exact Or.inl (Or.inl (List.mem_singleton.mp ht))
    · obtain ⟨c, _, rfl⟩ := List.mem_map.mp hs
      obtain ⟨u, hu, rfl⟩ := List.mem_map.mp ht
      exact Or.inr ⟨u, hu, c, rfl⟩
  · exact Or.inl (Or.inr (List.mem_singleton.mp ht))

/-- The tokens of an expansion are brackets, commas and copies of the tokens. -/
theorem mem_expandShorthand {tokens : List Token} (hshorthand : usesShorthand tokens = true)
    {t : Token} (h : t ∈ expandShorthand tokens) :
    t ∈ [Token.openingBracket, Token.separator, Token.closingBracket] ∨
      ∃ u ∈ tokens, ∃ c, t = u.select c := by
  obtain ⟨rest, heq, hrest⟩ := exists_expandShorthand hshorthand
  rw [heq] at h
  rcases List.mem_cons.mp h with rfl | h
  · exact Or.inl (by simp)
  · refine (hrest t h).imp_left ?_
    rintro (rfl | rfl)
    all_goals simp

/-- The tokens of an expansion are whole when the tokens are. -/
theorem isWhole_of_mem_expandShorthand {tokens : List Token} (h : ∀ t ∈ tokens, t.IsWhole) :
    ∀ t ∈ expandShorthand tokens, t.IsWhole := by
  cases hshorthand : usesShorthand tokens with
  | false =>
    rw [expandShorthand_of_not_usesShorthand hshorthand]
    exact h
  | true =>
    intro t ht
    rcases mem_expandShorthand hshorthand ht with hmark | ⟨u, hu, c, rfl⟩
    · simp only [List.mem_cons, List.not_mem_nil, or_false] at hmark
      rcases hmark with rfl | rfl | rfl
      all_goals
        refine ⟨rfl, fun hkind => ?_⟩
        cases hkind
    · exact (h u hu).select c

/-- No shorthand is left in an expansion. -/
theorem usesShorthand_expandShorthand (tokens : List Token) :
    usesShorthand (expandShorthand tokens) = false := by
  cases hshorthand : usesShorthand tokens with
  | false => rwa [expandShorthand_of_not_usesShorthand hshorthand]
  | true =>
    refine List.any_eq_false.mpr fun t ht => ?_
    rcases mem_expandShorthand hshorthand ht with hmark | ⟨u, _, c, rfl⟩
    · simp only [List.mem_cons, List.not_mem_nil, or_false] at hmark
      rcases hmark with rfl | rfl | rfl
      all_goals exact Bool.false_ne_true
    · rw [Token.side?_select]
      exact Bool.false_ne_true

/-! ## What depends on terminals only -/

namespace Token

/-- Lexemes with the same terminal have the same class and the same text. -/
theorem IsLexeme.eq_of_terminal {t u : Token} (ht : t.IsLexeme) (hu : u.IsLexeme)
    (h : t.terminal = u.terminal) : t.kind = u.kind ∧ t.text = u.text := by
  have hkind : t.kind = u.kind := by rw [kind_eq (t := t) rfl, h, kind_eq (t := u) rfl]
  refine ⟨hkind, ?_⟩
  unfold IsLexeme at ht hu
  unfold terminal at h
  rw [← hkind] at hu h
  split at h
  case h_1 => exact Terminal.number.inj h
  case h_2 => exact Terminal.word.inj h
  case h_3 => exact Terminal.operator.inj h
  all_goals
    next heq =>
      simp only [heq] at ht hu
      rw [ht, hu]

/-- Tokens with the same terminal are shorthands of the same layer. -/
theorem side?_congr {t u : Token} (h : t.terminal = u.terminal) : t.side? = u.side? := by
  have hkind : t.kind = u.kind := by rw [kind_eq (t := t) rfl, h, kind_eq (t := u) rfl]
  unfold side?
  rw [hkind]
  split
  · next hidentifier =>
    have hu : u.terminal = .word u.text := by rw [terminal, hidentifier]
    rw [text_eq_word (h.trans hu)]
  · rfl

end Token

/-- Whether shorthands are used depends on terminals only. -/
theorem usesShorthand_congr {tokens others : List Token}
    (h : tokens.map Token.terminal = others.map Token.terminal) :
    usesShorthand tokens = usesShorthand others := by
  induction tokens generalizing others with
  | nil =>
    obtain rfl : others = [] := List.map_eq_nil_iff.mp h.symm
    rfl
  | cons t tokens ih =>
    obtain ⟨u, others, rfl, hu, hothers⟩ := List.map_eq_cons_iff.mp h.symm
    have hmore := ih hothers.symm
    unfold usesShorthand at hmore ⊢
    rw [List.any_cons, List.any_cons, Token.side?_congr hu, hmore]

/-- The rendering of lexemes depends on their terminals only. -/
theorem render_congr {tokens others : List Token} (htokens : ∀ t ∈ tokens, t.IsLexeme)
    (hothers : ∀ t ∈ others, t.IsLexeme)
    (h : tokens.map Token.terminal = others.map Token.terminal) :
    render tokens = render others := by
  have hspell : tokens.flatMap Rendering.spell = others.flatMap Rendering.spell := by
    induction tokens generalizing others with
    | nil =>
      obtain rfl : others = [] := List.map_eq_nil_iff.mp h.symm
      rfl
    | cons t tokens ih =>
      obtain ⟨u, others, rfl, hu, hrest⟩ := List.map_eq_cons_iff.mp h.symm
      rw [List.forall_mem_cons] at htokens hothers
      obtain ⟨hkind, htext⟩ := htokens.1.eq_of_terminal hothers.1 hu.symm
      rw [List.flatMap_cons, List.flatMap_cons, ih htokens.2 hothers.2 hrest.symm]
      unfold Rendering.spell
      rw [hkind, htext]
  unfold render
  rw [hspell]

/-! ## Compiling the expanded text -/

open Grammar in
/-- The expanded text of a formula that compiles is a normal form. It compiles to the same tree with
the same arity, is its own expanded text, and has the same values on all channels. -/
theorem compile_expanded {text : String} {engine : Engine} (h : compile text = .ok engine) :
    expandText engine.expanded = .ok engine.expanded ∧
    ∃ again, compile engine.expanded = .ok again ∧ again.tree = engine.tree ∧
      again.arity = engine.arity ∧ again.expanded = engine.expanded ∧
      ∀ {α : Type} [Arithmetic α] (channels : Channels α),
        again.call channels = engine.call channels := by
  obtain ⟨tokens, htokens, htree, harity, hprobe, _, hexpanded⟩ := compile_eq_ok_iff.mp h
  have hparse := Engine.parseTree_eq_ok_iff.mp htree
  have hformula := isFormula_of_parseWithin hparse
  have hwhole := isWhole_of_mem_expandShorthand (isWhole_of_tokenize htokens)
  have hne : expandShorthand tokens ≠ [] := by
    intro hnil
    rw [hnil] at hparse
    cases hparse
  -- the expanded text is read as the tokens of the expansion, at other positions
  obtain ⟨others, hothers, hterminals⟩ := tokenize_render hne (fun t ht => (hwhole t ht).isLexeme)
    (fun t ht => (hwhole t ht).isAllowed) hformula.isChain_apart
  rw [← hexpanded] at hothers
  have hsame : expandShorthand others = others := by
    refine expandShorthand_of_not_usesShorthand ?_
    rw [usesShorthand_congr hterminals, usesShorthand_expandShorthand]
  have hrender : render others = engine.expanded := by
    rw [hexpanded]
    exact render_congr (fun t ht => (isWhole_of_tokenize hothers t ht).isLexeme)
      (fun t ht => (hwhole t ht).isLexeme) hterminals
  refine ⟨?_, { engine with text := engine.expanded }, compile_eq_ok_iff.mpr ?_, rfl, rfl, rfl,
    fun channels => rfl⟩
  · unfold expandText
    rw [hothers]
    show Except.ok (render (expandShorthand others)) = _
    rw [hsame, hrender]
  · refine ⟨others, hothers, ?_, harity, hprobe, rfl, ?_⟩
    · rw [hsame]
      exact Engine.parseTree_eq_ok_iff.mpr (parseWithin_of_terminals hterminals.symm hparse)
    · rw [hsame]
      exact hrender.symm

/-- A formula with shorthands, signs, a comparison, a call and blanks where none are written. -/
theorem compile_expanded_conditional :
    ∃ engine again, compile "B<=0.5 ?T: +max( B,-T )" = .ok engine ∧
      compile engine.expanded = .ok again ∧ again.tree = engine.tree ∧
      expandText engine.expanded = .ok engine.expanded := by
  obtain ⟨engine, hengine⟩ : ∃ engine, compile "B<=0.5 ?T: +max( B,-T )" = .ok engine :=
    exists_eq_ok (by decide +kernel)
  obtain ⟨hexpand, again, hagain, htree, _⟩ := compile_expanded hengine
  exact ⟨engine, again, hengine, hagain, htree, hexpand⟩

end LayerBlend
