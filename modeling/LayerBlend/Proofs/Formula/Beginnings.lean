import LayerBlend.Proofs.Formula.ParserSteps

/-!
# Beginnings of phrases

* `Grammar.Begins level front` — some phrase of `level` starts with the tokens `front`.
* `Grammar.IsItems s`, `Grammar.BeginsItems front` — the same of one or more expressions with commas
  between them.
* `Grammar.begins_nil`, `Grammar.Derives.begins` — nothing begins a phrase of any level, and so does
  a phrase.
* `Grammar.Derives.begins_operand`, `Grammar.Derives.begins_positive`, `Grammar.begins_call`, … —
  what begins a part of a phrase begins the phrase, behind what the grammar has in front of the
  part.
-/

namespace LayerBlend

namespace Grammar

open LayerBlend.Parser

/-- The tokens begin some phrase of a level. -/
def Begins (level : Level) (front : List Token) : Prop :=
  ∃ rest tree, Derives level (front.map Token.terminal ++ rest) tree

/-- The terminals are one or more expressions with commas between them. -/
def IsItems (s : List Terminal) : Prop :=
  ∃ parts : List (List Terminal × Node), parts ≠ [] ∧
    s = List.intercalate [.comma] (parts.map Prod.fst) ∧
    ∀ part ∈ parts, Derives .expression part.1 part.2

/-- The tokens begin some list of expressions. -/
def BeginsItems (front : List Token) : Prop :=
  ∃ rest, IsItems (front.map Token.terminal ++ rest)

/-! ## Any level -/

/-- A primary is a phrase of each level. -/
theorem Derives.of_primary {s : List Terminal} {tree : Node} (h : Derives .primary s tree)
    (level : Level) : Derives level s tree := by
  have hunary : Derives .unary s tree := .tighter (by decide) h
  have hmultiplicative : Derives .multiplicative s tree := .tighter (by decide) hunary
  have hadditive : Derives .additive s tree := .tighter (by decide) hmultiplicative
  have hcomparison : Derives .comparison s tree := .tighter (by decide) hadditive
  cases level with
  | expression => exact .tighter (by decide) hcomparison
  | comparison => exact hcomparison
  | additive => exact hadditive
  | multiplicative => exact hmultiplicative
  | unary => exact hunary
  | primary => exact h

/-- No tokens begin a phrase of each level. -/
theorem begins_nil (level : Level) : Begins level [] :=
  ⟨_, _, (Derives.channel ⟨.red, .base⟩).of_primary level⟩

/-- A phrase begins a phrase. -/
theorem Derives.begins {level : Level} {s : List Token} {tree : Node}
    (h : Derives level (s.map Token.terminal) tree) : Begins level s :=
  ⟨[], tree, by rwa [List.append_nil]⟩

/-- The front of what begins a phrase begins it. -/
theorem Begins.of_append {level : Level} {u v : List Token} (h : Begins level (u ++ v)) :
    Begins level u := by
  obtain ⟨rest, tree, htree⟩ := h
  exact ⟨v.map Token.terminal ++ rest, tree, by simpa using htree⟩

/-- What begins a phrase of a tighter level begins one of the level. -/
theorem Begins.of_tighter {level : Level} (hlevel : level ≠ .primary) {front : List Token}
    (h : Begins level.tighter front) : Begins level front := by
  obtain ⟨rest, tree, hderives⟩ := h
  exact ⟨rest, tree, .tighter hlevel hderives⟩

/-! ## Expressions and operands -/

/-- A condition, a question mark and what begins an expression begin a conditional. -/
theorem Derives.begins_positive {s u : List Token} {condition : Node} {question : Token}
    (hs : Derives .comparison (s.map Token.terminal) condition)
    (hquestion : question.kind = .question) (hu : Begins .expression u) :
    Begins .expression (s ++ [question] ++ u) := by
  obtain ⟨rest, positive, hpositive⟩ := hu
  have hterminal : question.terminal = .question := by rw [Token.terminal, hquestion]
  obtain ⟨more, negative, hnegative⟩ := begins_nil .expression
  have hderives := Derives.conditional hs hpositive hnegative
  exact ⟨rest ++ .colon :: more, .choose condition positive negative,
    by simpa [hterminal] using hderives⟩

/-- A conditional up to its colon and what begins an expression begin a conditional. -/
theorem Derives.begins_negative {s u v : List Token} {condition positive : Node}
    {question colon : Token} (hs : Derives .comparison (s.map Token.terminal) condition)
    (hquestion : question.kind = .question)
    (hu : Derives .expression (u.map Token.terminal) positive) (hcolon : colon.kind = .colon)
    (hv : Begins .expression v) : Begins .expression (s ++ [question] ++ u ++ [colon] ++ v) := by
  obtain ⟨rest, negative, hnegative⟩ := hv
  have hterminal : question.terminal = .question := by rw [Token.terminal, hquestion]
  have hmiddle : colon.terminal = .colon := by rw [Token.terminal, hcolon]
  have hderives := Derives.conditional hs hu hnegative
  exact ⟨rest, .choose condition positive negative,
    by simpa [hterminal, hmiddle] using hderives⟩

/-- An operator and an operand extend a phrase of their level. -/
theorem Derives.operand {level : Level} {front : List Token} {u : List Terminal}
    {left right : Node} {t : Token} {op : BinaryOperator}
    (hleft : Derives level (front.map Token.terminal) left)
    (ht : operator? level.operators t = some op) (hright : Derives level.tighter u right) :
    Derives level ((front ++ [t]).map Token.terminal ++ u) (.binary op left right) := by
  obtain ⟨hmem, hterminal⟩ := operator?_eq_some ht
  simpa [hterminal] using Derives.binary hmem hleft hright

/-- An operator and what begins an operand begin a phrase behind one of their level. -/
theorem Derives.begins_operand {level : Level} {front u : List Token} {left : Node} {t : Token}
    {op : BinaryOperator} (hleft : Derives level (front.map Token.terminal) left)
    (ht : operator? level.operators t = some op) (hu : Begins level.tighter u) :
    Begins level (front ++ [t] ++ u) := by
  obtain ⟨rest, right, hright⟩ := hu
  exact ⟨rest, .binary op left right, by simpa using hleft.operand ht hright⟩

/-- A sign and what begins an operand begin an operand. -/
theorem Begins.sign {t : Token} {sign : BinaryOperator} (h : sign? t = some sign) {u : List Token}
    (hu : Begins .unary u) : Begins .unary ([t] ++ u) := by
  obtain ⟨rest, operand, hoperand⟩ := hu
  obtain ⟨hmem, hterminal⟩ := operator?_eq_some h
  rcases List.mem_cons.mp hmem with rfl | hmem
  · exact ⟨rest, operand, by simpa [hterminal, BinaryOperator.symbol] using Derives.plus hoperand⟩
  · obtain rfl := List.mem_singleton.mp hmem
    exact ⟨rest, _, by simpa [hterminal, BinaryOperator.symbol] using Derives.minus hoperand⟩

/-! ## Primaries -/

/-- An opening parenthesis and what begins an expression begin a primary. -/
theorem Begins.parentheses {t : Token} (hkind : t.kind = .leftParen) {u : List Token}
    (hu : Begins .expression u) : Begins .primary ([t] ++ u) := by
  obtain ⟨rest, tree, htree⟩ := hu
  have hterminal : t.terminal = .leftParen := by rw [Token.terminal, hkind]
  exact ⟨rest ++ [.rightParen], tree, by simpa [hterminal] using Derives.parentheses htree⟩

/-- An expression is a list of one. -/
theorem Derives.isItems {s : List Terminal} {tree : Node} (h : Derives .expression s tree) :
    IsItems s := by
  refine ⟨[(s, tree)], List.cons_ne_nil _ _, (List.intercalate_singleton ..).symm, ?_⟩
  rw [List.forall_mem_singleton]
  exact h

/-- A list goes on with a comma and an expression. -/
theorem IsItems.append {s u : List Terminal} {tree : Node} (h : IsItems s)
    (hu : Derives .expression u tree) : IsItems (s ++ .comma :: u) := by
  obtain ⟨parts, hne, rfl, hparts⟩ := h
  obtain ⟨first, others, rfl⟩ := List.exists_cons_of_ne_nil hne
  refine ⟨first :: (others ++ [(u, tree)]), List.cons_ne_nil _ _, ?_, ?_⟩
  · rw [List.map_cons, List.map_cons, intercalate_comma_cons, intercalate_comma_cons,
      List.map_append, List.flatMap_append]
    simp
  · rw [← List.cons_append, List.forall_mem_append, List.forall_mem_singleton]
    exact ⟨hparts, hu⟩

/-- A comma and what begins an expression begin a list behind one. -/
theorem IsItems.begins_item {front u : List Token} {t : Token}
    (h : IsItems (front.map Token.terminal)) (hkind : t.kind = .comma)
    (hu : Begins .expression u) : BeginsItems (front ++ [t] ++ u) := by
  obtain ⟨rest, tree, htree⟩ := hu
  have hterminal : t.terminal = .comma := by rw [Token.terminal, hkind]
  exact ⟨rest, by simpa [hterminal] using h.append htree⟩

/-- What is read as the items of a list is one. -/
theorem items_begin {item : Reader} (hsound : Sound .expression item) {s rest : List Token}
    {nodes : List Node} (hread : items item (s ++ rest) = .ok (nodes, rest)) : BeginsItems s := by
  obtain ⟨u, parts, heq, hs, _, hne, hparts⟩ := items_sound hsound hread
  obtain rfl := List.append_cancel_right heq
  refine ⟨[], parts, hne, ?_, fun part hpart => (hparts part hpart).1⟩
  rw [List.append_nil, hs]

/-- An opening bracket and what begins a list of expressions begin a primary. -/
theorem BeginsItems.array {t : Token} (hkind : t.kind = .leftBracket) {u : List Token}
    (hu : BeginsItems u) : Begins .primary ([t] ++ u) := by
  obtain ⟨rest, parts, hne, heq, hparts⟩ := hu
  have hterminal : t.terminal = .leftBracket := by rw [Token.terminal, hkind]
  refine ⟨rest ++ [.rightBracket], .array (parts.map Prod.snd), ?_⟩
  simpa [hterminal, ← heq] using Derives.array hne hparts

/-- The name of a function, an opening parenthesis and what begins a list of arguments begin a
call. -/
theorem begins_call {f : Builtin} {name paren : Token} (hname : name.terminal = .word f.name)
    (hparen : paren.kind = .leftParen) {u : List Token} (hu : BeginsItems u) :
    Begins .primary ([name] ++ [paren] ++ u) := by
  obtain ⟨rest, parts, _, heq, hparts⟩ := hu
  refine ⟨rest ++ [.rightParen], .call f (parts.map Prod.snd), ?_⟩
  have hterminal : paren.terminal = .leftParen := by rw [Token.terminal, hparen]
  simpa [hname, hterminal, ← heq] using Derives.call f hparts

/-- The name of a function begins a call. -/
theorem begins_name {f : Builtin} {name : Token} (hname : name.terminal = .word f.name) :
    Begins .primary [name] := by
  have hcall := @Derives.call f [] (by simp)
  refine ⟨[.leftParen, .rightParen], .call f [], ?_⟩
  simpa [hname, List.intercalate] using hcall

end Grammar

end LayerBlend
