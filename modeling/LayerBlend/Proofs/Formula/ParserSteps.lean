import LayerBlend.Proofs.Formula.ParserSoundness

/-!
# Steps of the parser

What each function of the parser does at the first token of a list. A chain and a list of items take
as much fuel as there are tokens, which is always enough, so that they go on with what their operand
or item leaves.

* `Grammar.Sound.derives`, `Grammar.Sound.length_le` — what a sound reader takes is a phrase, and it
  leaves no more than it is given.
* `Grammar.chain_cons`, `Grammar.moreItems_cons` — a step of a chain and of a list, without fuel.
* `Grammar.chain_of_none`, `Grammar.moreItems_of_ne`, `Grammar.arguments_of_ne`, … — what happens at
  a token that does not go on with what is read.
* `Grammar.branches`, `Grammar.expression_succ` — an expression is a comparison chain and what is
  read behind it.
-/

namespace LayerBlend

namespace Grammar

open LayerBlend.Parser

/-- A list begins with a token of a class, or with none. -/
theorem head_cases (kind : TokenKind) (tokens : List Token) :
    (∃ t rest, tokens = t :: rest ∧ t.kind = kind) ∨ ∀ t ∈ tokens.head?, t.kind ≠ kind := by
  cases tokens with
  | nil => exact Or.inr (by simp)
  | cons t rest =>
    by_cases hkind : t.kind = kind
    · exact Or.inl ⟨t, rest, rfl, hkind⟩
    · exact Or.inr (by simpa using hkind)

/-! ## Sound readers -/

/-- What is read is a phrase. -/
theorem Sound.derives {level : Level} {read : Reader} (h : Sound level read)
    {s rest : List Token} {tree : Node} (hread : read (s ++ rest) = .ok (tree, rest)) :
    Derives level (s.map Token.terminal) tree := by
  obtain ⟨u, heq, hu, _⟩ := h hread
  rwa [List.append_cancel_right heq]

/-- A reader leaves no more than it is given. -/
theorem Sound.length_le {level : Level} {reader : Reader} (h : Sound level reader)
    {tokens : List Token} {read : Node × List Token} (hread : reader tokens = .ok read) :
    read.2.length ≤ tokens.length := by
  obtain ⟨tree, rest⟩ := read
  obtain ⟨s, rfl, _⟩ := h hread
  show rest.length ≤ (s ++ rest).length
  rw [List.length_append]
  omega

/-! ## Chains of operators -/

/-- A chain needs no more fuel than there are tokens. -/
theorem chain_fuel {operators : List BinaryOperator} {level : Level} {operand : Reader}
    (hop : Sound level operand) {fuel : Nat} :
    ∀ {more : Nat} {left : Node} {tokens : List Token}, tokens.length ≤ fuel → fuel ≤ more →
      chain operators operand more left tokens = chain operators operand fuel left tokens := by
  induction fuel with
  | zero =>
    intro more left tokens htokens _
    obtain rfl : tokens = [] := List.length_eq_zero_iff.mp (Nat.le_zero.mp htokens)
    cases more <;> simp [chain]
  | succ fuel ih =>
    intro more left tokens htokens hmore
    obtain ⟨more, rfl⟩ : ∃ m, more = m + 1 := ⟨more - 1, by omega⟩
    cases tokens with
    | nil => simp [chain]
    | cons t rest =>
      rw [List.length_cons] at htokens
      rw [chain, chain]
      split
      · rfl
      · cases hread : operand rest with
        | error e => rfl
        | ok read =>
          have := hop.length_le hread
          exact ih (by omega) (by omega)

/-- A chain goes on behind an operator and an operand. -/
theorem chain_cons {operators : List BinaryOperator} {level : Level} {operand : Reader}
    (hop : Sound level operand) {t : Token} {op : BinaryOperator}
    (h : operator? operators t = some op) (left : Node) (rest : List Token) :
    chain operators operand (t :: rest).length left (t :: rest) =
      operand rest >>= fun read =>
        chain operators operand read.2.length (.binary op left read.1) read.2 := by
  rw [List.length_cons, chain, h]
  cases hread : operand rest with
  | error e => rfl
  | ok read => exact chain_fuel hop (Nat.le_refl _) (hop.length_le hread)

/-- A chain ends in front of what is no operator of its list. -/
theorem chain_of_none {operators : List BinaryOperator} {operand : Reader} {tokens : List Token}
    (h : ∀ t ∈ tokens.head?, operator? operators t = none) (fuel : Nat) (left : Node) :
    chain operators operand fuel left tokens = .ok (left, tokens) := by
  cases fuel with
  | zero => simp [chain]
  | succ fuel =>
    cases tokens with
    | nil => simp [chain]
    | cons t rest => rw [chain, h t rfl]

/-! ## Lists of items -/

/-- The items of a list need no more fuel than there are tokens. -/
theorem moreItems_fuel {item : Reader} (hsound : Sound .expression item) {fuel : Nat} :
    ∀ {more : Nat} {tokens : List Token}, tokens.length ≤ fuel → fuel ≤ more →
      moreItems item more tokens = moreItems item fuel tokens := by
  induction fuel with
  | zero =>
    intro more tokens htokens _
    obtain rfl : tokens = [] := List.length_eq_zero_iff.mp (Nat.le_zero.mp htokens)
    cases more <;> simp [moreItems]
  | succ fuel ih =>
    intro more tokens htokens hmore
    obtain ⟨more, rfl⟩ : ∃ m, more = m + 1 := ⟨more - 1, by omega⟩
    cases tokens with
    | nil => simp [moreItems]
    | cons t rest =>
      rw [List.length_cons] at htokens
      rw [moreItems, moreItems]
      split
      · cases hread : item rest with
        | error e => rfl
        | ok read =>
          have := hsound.length_le hread
          show (moreItems item more read.2 >>= _) = (moreItems item fuel read.2 >>= _)
          rw [ih (by omega) (by omega)]
      · rfl

/-- A list goes on behind a comma and an item. -/
theorem moreItems_cons {item : Reader} (hsound : Sound .expression item) {t : Token}
    (h : t.kind = .comma) (rest : List Token) :
    moreItems item (t :: rest).length (t :: rest) =
      item rest >>= fun read => moreItems item read.2.length read.2 >>= fun others =>
        .ok (read.1 :: others.1, others.2) := by
  rw [List.length_cons, moreItems, if_pos h]
  cases hread : item rest with
  | error e => rfl
  | ok read =>
    show (moreItems item rest.length read.2 >>= _) = (moreItems item read.2.length read.2 >>= _)
    rw [moreItems_fuel hsound (Nat.le_refl _) (hsound.length_le hread)]
    rfl

/-- A list ends in front of what is no comma. -/
theorem moreItems_of_ne {item : Reader} {tokens : List Token}
    (h : ∀ t ∈ tokens.head?, t.kind ≠ .comma) (fuel : Nat) :
    moreItems item fuel tokens = .ok ([], tokens) := by
  cases fuel with
  | zero => simp [moreItems]
  | succ fuel =>
    cases tokens with
    | nil => simp [moreItems]
    | cons t rest => rw [moreItems, if_neg (h t rfl)]

/-- Arguments that are closed at once are none. -/
theorem arguments_of_rightParen {item : Reader} {t : Token} (h : t.kind = .rightParen)
    (rest : List Token) : arguments item (t :: rest) = .ok ([], rest) := by
  unfold arguments
  rw [if_pos (by simpa using h)]
  rfl

/-- Arguments that are not closed at once are the items of a list. -/
theorem arguments_of_ne {item : Reader} {tokens : List Token}
    (h : ∀ t ∈ tokens.head?, t.kind ≠ .rightParen) :
    arguments item tokens = items item tokens >>= fun read =>
      expect .rightParen .rightParen read.2 >>= fun rest => .ok (read.1, rest) := by
  unfold arguments
  rw [if_neg]
  · rfl
  · cases tokens with
    | nil => simp
    | cons t rest => simpa using h t rfl

/-! ## Levels -/

/-- What is read behind the condition of an expression. -/
def branches (budget : Nat) (condition : Node) : Reader
  | t :: rest =>
    if t.kind = .question then
      expression budget rest >>= fun positive => expect .colon .colon positive.2 >>= fun rest =>
        expression budget rest >>= fun negative =>
          .ok (.choose condition positive.1 negative.1, negative.2)
    else .ok (condition, t :: rest)
  | [] => .ok (condition, [])

/-- An expression is a comparison chain and what is read behind it. -/
theorem expression_succ (budget : Nat) (tokens : List Token) :
    expression (budget + 1) tokens =
      comparison budget tokens >>= fun read => branches budget read.1 read.2 := by
  rw [expression]
  cases comparison budget tokens with
  | error e => rfl
  | ok read =>
    obtain ⟨condition, rest⟩ := read
    cases rest <;> rfl

/-- Behind a question mark both branches are read. -/
theorem branches_of_question {budget : Nat} {t : Token} (h : t.kind = .question) (condition : Node)
    (rest : List Token) : branches budget condition (t :: rest) =
      expression budget rest >>= fun positive => expect .colon .colon positive.2 >>= fun rest =>
        expression budget rest >>= fun negative =>
          .ok (.choose condition positive.1 negative.1, negative.2) :=
  if_pos h

/-- Nothing is read behind a condition that no question mark follows. -/
theorem branches_of_ne {budget : Nat} {tokens : List Token}
    (h : ∀ t ∈ tokens.head?, t.kind ≠ .question) (condition : Node) :
    branches budget condition tokens = .ok (condition, tokens) := by
  cases tokens with
  | nil => rfl
  | cons t rest => exact if_neg (h t rfl)

/-- An operand without a sign is a primary. -/
theorem unary_of_none {budget : Nat} {tokens : List Token}
    (h : ∀ t ∈ tokens.head?, sign? t = none) :
    unary (budget + 1) tokens = primary budget tokens := by
  cases tokens with
  | nil => rw [unary]
  | cons t rest => rw [unary, h t rfl]

/-- An operand with a sign is read behind it. -/
theorem unary_of_sign {budget : Nat} {t : Token} {sign : BinaryOperator} (h : sign? t = some sign)
    (rest : List Token) : unary (budget + 1) (t :: rest) =
      unary budget rest >>= fun read => .ok (applySign sign read.1, read.2) := by
  rw [unary, h]
  rfl

/-- Behind an opening parenthesis an expression is read, and then a closing one. -/
theorem primary_of_leftParen {budget : Nat} {t : Token} (hkind : t.kind = .leftParen)
    (rest : List Token) : primary (budget + 1) (t :: rest) =
      expression budget rest >>= fun read =>
        expect .rightParen .rightParen read.2 >>= fun rest => .ok (read.1, rest) := by
  rw [primary, hkind]
  rfl

/-- Behind an opening bracket items are read, and then a closing one. -/
theorem primary_of_leftBracket {budget : Nat} {t : Token} (hkind : t.kind = .leftBracket)
    (rest : List Token) : primary (budget + 1) (t :: rest) =
      items (expression budget) rest >>= fun read =>
        expect .rightBracket .rightBracket read.2 >>= fun rest => .ok (.array read.1, rest) := by
  rw [primary, hkind]
  rfl

end Grammar

end LayerBlend
