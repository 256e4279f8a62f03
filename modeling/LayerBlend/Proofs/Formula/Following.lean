import LayerBlend.Proofs.Formula.ParserSoundness

/-!
# What may follow a phrase

* `Token.kind_eq`, `Token.text_eq_number`, … — the class and the text of a token from its terminal.
* `Grammar.operator?_of_terminal` — a token that is written like an operator is read as it.
* `Grammar.Stops level rest` — the first token of `rest` does not extend a phrase of `level`: it is
  no operator of the level or of a tighter one, and no question mark behind an expression.
* `Grammar.Stops.tighter`, `Grammar.stops_operator` — operands stop where their phrase does, and at
  the operators of their level.
-/

namespace LayerBlend

/-! ## Tokens and terminals -/

/-- The class of a terminal. -/
def Terminal.kind : Terminal → TokenKind
  | .number _ => .number
  | .word _ => .identifier
  | .operator _ => .operator
  | .leftParen => .leftParen
  | .rightParen => .rightParen
  | .leftBracket => .leftBracket
  | .rightBracket => .rightBracket
  | .comma => .comma
  | .question => .question
  | .colon => .colon

/-- A token has the class of its terminal. -/
theorem Token.kind_eq {t : Token} {x : Terminal} (h : t.terminal = x) : t.kind = x.kind := by
  subst h
  unfold terminal
  cases t.kind <;> rfl

/-- The text of a numeral is that of its terminal. -/
theorem Token.text_eq_number {t : Token} {text : String} (h : t.terminal = .number text) :
    t.text = text := by
  have hkind : t.kind = .number := kind_eq h
  rw [terminal, hkind] at h
  cases h
  rfl

/-- The text of a name is that of its terminal. -/
theorem Token.text_eq_word {t : Token} {text : String} (h : t.terminal = .word text) :
    t.text = text := by
  have hkind : t.kind = .identifier := kind_eq h
  rw [terminal, hkind] at h
  cases h
  rfl

/-- The text of an operator is that of its terminal. -/
theorem Token.text_eq_operator {t : Token} {text : String} (h : t.terminal = .operator text) :
    t.text = text := by
  have hkind : t.kind = .operator := kind_eq h
  rw [terminal, hkind] at h
  cases h
  rfl

/-- Operators are told apart by how they are written. -/
theorem BinaryOperator.symbol_injective {a b : BinaryOperator} (h : a.symbol = b.symbol) :
    a = b := by
  revert h
  cases a <;> cases b <;> decide

namespace Grammar

open LayerBlend.Parser

/-- A token that is written like an operator of a list is read as that operator. -/
theorem operator?_of_terminal {operators : List BinaryOperator} {t : Token} {op : BinaryOperator}
    (h : t.terminal = .operator op.symbol) (hop : op ∈ operators) :
    operator? operators t = some op := by
  have hkind : t.kind = .operator := Token.kind_eq h
  unfold operator?
  rw [if_pos hkind, Token.text_eq_operator h]
  cases hfind : operators.find? fun other => other.symbol == op.symbol with
  | none => exact absurd (List.find?_eq_none.mp hfind op hop) (by simp)
  | some other =>
    have hsymbol := List.find?_some hfind
    rw [beq_iff_eq] at hsymbol
    rw [BinaryOperator.symbol_injective hsymbol]

/-- A token of another class is no operator. -/
theorem operator?_of_kind {operators : List BinaryOperator} {t : Token}
    (h : t.kind ≠ .operator) : operator? operators t = none := by
  unfold operator?
  rw [if_neg h]

/-- A token that is no operator of a list is none of a shorter one. -/
theorem operator?_eq_none_of_subset {operators more : List BinaryOperator} {t : Token}
    (hsub : ∀ op ∈ operators, op ∈ more) (h : operator? more t = none) :
    operator? operators t = none := by
  cases hfound : operator? operators t with
  | none => rfl
  | some op =>
    obtain ⟨hmem, hterminal⟩ := operator?_eq_some hfound
    rw [operator?_of_terminal hterminal (hsub op hmem)] at h
    cases h

/-! ## Where phrases stop -/

namespace Level

/-- The operators that extend a phrase of a level. -/
def extenders : Level → List BinaryOperator
  | .expression | .comparison =>
    BinaryOperator.comparisons ++ (BinaryOperator.additions ++ BinaryOperator.multiplications)
  | .additive => BinaryOperator.additions ++ BinaryOperator.multiplications
  | .multiplicative => BinaryOperator.multiplications
  | .unary | .primary => []

/-- The operators of a level extend its phrases. -/
theorem mem_extenders {level : Level} {op : BinaryOperator} (h : op ∈ level.operators) :
    op ∈ level.extenders := by
  revert h
  cases level <;> cases op <;> decide

/-- What extends the operands of a level extends its phrases. -/
theorem mem_extenders_of_tighter {level : Level} {op : BinaryOperator}
    (h : op ∈ level.tighter.extenders) : op ∈ level.extenders := by
  revert h
  cases level <;> cases op <;> decide

/-- An operator of a level does not extend the operands of that level. -/
theorem not_mem_extenders_tighter {level : Level} {op : BinaryOperator}
    (h : op ∈ level.operators) : op ∉ level.tighter.extenders := by
  revert h
  cases level <;> cases op <;> decide

theorem tighter_ne_expression (level : Level) : level.tighter ≠ .expression := by
  cases level <;> decide

end Level

/-- The first token, if there is one, does not extend a phrase of a level. -/
def Stops (level : Level) (rest : List Token) : Prop :=
  ∀ t ∈ rest.head?, operator? level.extenders t = none ∧
    (level = .expression → t.kind ≠ .question)

theorem stops_nil (level : Level) : Stops level [] := by
  intro t h
  cases h

/-- Every phrase stops at a token of a class other than operators and question marks. -/
theorem stops_of_kind {level : Level} {t : Token} {rest : List Token} {kind : TokenKind}
    (h : t.kind = kind) (hop : kind ≠ .operator) (hquestion : kind ≠ .question) :
    Stops level (t :: rest) := by
  subst h
  intro u hu
  cases hu
  exact ⟨operator?_of_kind hop, fun _ => hquestion⟩

/-- A comparison chain stops at a question mark. -/
theorem stops_question {t : Token} {rest : List Token} (h : t.kind = .question) :
    Stops .comparison (t :: rest) := by
  intro u hu
  cases hu
  refine ⟨operator?_of_kind (by rw [h]; decide), fun hlevel => ?_⟩
  cases hlevel

/-- An operand stops at an operator of the level. -/
theorem stops_operator {level : Level} {t : Token} {rest : List Token} {op : BinaryOperator}
    (h : t.terminal = .operator op.symbol) (hop : op ∈ level.operators) :
    Stops level.tighter (t :: rest) := by
  intro u hu
  cases hu
  refine ⟨?_, fun hlevel => absurd hlevel level.tighter_ne_expression⟩
  cases hfound : operator? level.tighter.extenders t with
  | none => rfl
  | some other =>
    obtain ⟨hmem, hother⟩ := operator?_eq_some hfound
    have hsymbol : op.symbol = other.symbol := Terminal.operator.inj (h.symm.trans hother)
    rw [← BinaryOperator.symbol_injective hsymbol] at hmem
    exact absurd hmem (Level.not_mem_extenders_tighter hop)

/-- Where a phrase stops, an operand of its level stops. -/
theorem Stops.tighter {level : Level} {rest : List Token} (h : Stops level rest) :
    Stops level.tighter rest := by
  intro t ht
  refine ⟨?_, fun hlevel => absurd hlevel level.tighter_ne_expression⟩
  exact operator?_eq_none_of_subset (fun _ => Level.mem_extenders_of_tighter) (h t ht).1

/-- Where a phrase stops, there is no operator of its level. -/
theorem Stops.operator?_eq_none {level : Level} {t : Token} {rest : List Token}
    (h : Stops level (t :: rest)) : operator? level.operators t = none :=
  operator?_eq_none_of_subset (fun _ => Level.mem_extenders) (h t rfl).1

end Grammar

end LayerBlend
