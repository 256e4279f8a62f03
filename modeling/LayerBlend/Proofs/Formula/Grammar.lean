import LayerBlend.Formula.Engine
import LayerBlend.Proofs.Formula.Subtrees

/-!
# The grammar of formulas

* `Terminal` — what the grammar sees of a token (`Token.terminal`): its class, and the text of a
  numeral, a word or an operator. Positions are not part of it.
* `Derives level s tree` — the terminals `s` are a phrase of `level` with the tree `tree`. Binary
  levels group to the left and conditionals to the right, `-x` is `0 - x`, and `+x` and `(x)` are
  `x`.
* `IsFormula s tree` — `s` is an expression whose calls have numbers of arguments that their
  functions take, and whose arrays stand at the result position.
* `Token.IsLexeme` — the text of a token is a lexeme of its class.
* `Derives.depth_le` — a tree has no more levels than its phrase has terminals.
-/

namespace LayerBlend

/-! ## Terminals -/

/-- What the grammar sees of a token. -/
inductive Terminal where
  /-- A numeral. -/
  | number (text : String)
  /-- A name. -/
  | word (text : String)
  /-- An operator. -/
  | operator (text : String)
  /-- An opening parenthesis. -/
  | leftParen
  /-- A closing parenthesis. -/
  | rightParen
  /-- An opening bracket. -/
  | leftBracket
  /-- A closing bracket. -/
  | rightBracket
  /-- A comma. -/
  | comma
  /-- A question mark. -/
  | question
  /-- A colon. -/
  | colon
  deriving DecidableEq, Repr

namespace Token

/-- What the grammar sees of a token. -/
def terminal (t : Token) : Terminal :=
  match t.kind with
  | .number => .number t.text
  | .identifier => .word t.text
  | .operator => .operator t.text
  | .leftParen => .leftParen
  | .rightParen => .rightParen
  | .leftBracket => .leftBracket
  | .rightBracket => .rightBracket
  | .comma => .comma
  | .question => .question
  | .colon => .colon

/-- The text of a token is a lexeme of its class. -/
def IsLexeme (t : Token) : Prop :=
  match t.kind with
  | .number => ∃ whole tail, t.text.toList = whole ++ tail ∧ whole ≠ [] ∧
      (∀ c ∈ whole, c.isDigit) ∧
      (tail = [] ∨ ∃ fraction, tail = '.' :: fraction ∧ fraction ≠ [] ∧
        ∀ c ∈ fraction, c.isDigit)
  | .identifier => ∃ first others, t.text.toList = first :: others ∧ Lexer.isWordStart first ∧
      ∀ c ∈ others, Lexer.isWordPart c
  | .operator => ∃ op : BinaryOperator, t.text = op.symbol
  | .leftParen => t.text = "("
  | .rightParen => t.text = ")"
  | .leftBracket => t.text = "["
  | .rightBracket => t.text = "]"
  | .comma => t.text = ","
  | .question => t.text = "?"
  | .colon => t.text = ":"

end Token

/-! ## Names -/

/-- The channel of a name has that name. -/
theorem Channel.eq_name_of_ofName? {name : String} {c : Channel} (h : ofName? name = some c) :
    name = c.name := by
  have := List.find?_some h
  rw [beq_iff_eq] at this
  exact this.symm

/-- A channel is the channel of its name. -/
@[simp] theorem Channel.ofName?_name (c : Channel) : ofName? c.name = some c := by
  obtain ⟨component, side⟩ := c
  cases component <;> cases side <;> rfl

/-- The function of a name has that name. -/
theorem Builtin.eq_name_of_ofName? {name : String} {f : Builtin} (h : ofName? name = some f) :
    name = f.name := by
  have := List.find?_some h
  rw [beq_iff_eq] at this
  exact this.symm

/-- A function is the function of its name. -/
@[simp] theorem Builtin.ofName?_name (f : Builtin) : ofName? f.name = some f := by
  cases f <;> rfl

/-- No function has the name of a channel. -/
@[simp] theorem Builtin.channel_ofName?_name (f : Builtin) : Channel.ofName? f.name = none := by
  cases f <;> rfl

/-! ## Phrases -/

namespace Grammar

/-- The nonterminals of the grammar, the weakest binding first. -/
inductive Level where
  /-- A comparison chain, with a conditional behind it or none. -/
  | expression
  /-- Sums with comparisons between them. -/
  | comparison
  /-- Products with plus and minus between them. -/
  | additive
  /-- Signed operands with product operators between them. -/
  | multiplicative
  /-- An operand with any number of signs. -/
  | unary
  /-- A literal, a channel, a call, a parenthesis or an array. -/
  | primary
  deriving DecidableEq, Repr

namespace Level

/-- The level of the operands of a level. -/
def tighter : Level → Level
  | .expression => .comparison
  | .comparison => .additive
  | .additive => .multiplicative
  | .multiplicative => .unary
  | .unary | .primary => .primary

/-- The operators between the operands of a level. -/
def operators : Level → List BinaryOperator
  | .comparison => BinaryOperator.comparisons
  | .additive => BinaryOperator.additions
  | .multiplicative => BinaryOperator.multiplications
  | .expression | .unary | .primary => []

end Level

/-- The terminals are a phrase of a level, with a tree. -/
inductive Derives : Level → List Terminal → Node → Prop
  /-- A phrase of a tighter level. -/
  | tighter {level : Level} {s : List Terminal} {tree : Node} : level ≠ .primary →
      Derives level.tighter s tree → Derives level s tree
  /-- An operator; what stands to its left may hold operators of the same level. -/
  | binary {level : Level} {op : BinaryOperator} {s u : List Terminal} {left right : Node} :
      op ∈ level.operators → Derives level s left → Derives level.tighter u right →
      Derives level (s ++ .operator op.symbol :: u) (.binary op left right)
  /-- A conditional. -/
  | conditional {s u v : List Terminal} {condition positive negative : Node} :
      Derives .comparison s condition → Derives .expression u positive →
      Derives .expression v negative →
      Derives .expression (s ++ .question :: (u ++ .colon :: v))
        (.choose condition positive negative)
  /-- A minus sign subtracts from zero. -/
  | minus {s : List Terminal} {tree : Node} : Derives .unary s tree →
      Derives .unary (.operator "-" :: s) (.binary .sub (.number Decimal.zero) tree)
  /-- A plus sign changes nothing. -/
  | plus {s : List Terminal} {tree : Node} : Derives .unary s tree →
      Derives .unary (.operator "+" :: s) tree
  /-- A literal. -/
  | number {text : String} {value : Decimal} : Decimal.ofChars? text.toList = some value →
      Derives .primary [.number text] (.number value)
  /-- A channel. -/
  | channel (c : Channel) : Derives .primary [.word c.name] (.channel c)
  /-- A call, with any number of arguments. -/
  | call (f : Builtin) {args : List (List Terminal × Node)} :
      (∀ arg ∈ args, Derives .expression arg.1 arg.2) →
      Derives .primary
        (.word f.name :: .leftParen ::
          (List.intercalate [.comma] (args.map Prod.fst) ++ [.rightParen]))
        (.call f (args.map Prod.snd))
  /-- An expression between parentheses. -/
  | parentheses {s : List Terminal} {tree : Node} : Derives .expression s tree →
      Derives .primary (.leftParen :: (s ++ [.rightParen])) tree
  /-- An array of one or more items. -/
  | array {items : List (List Terminal × Node)} : items ≠ [] →
      (∀ item ∈ items, Derives .expression item.1 item.2) →
      Derives .primary
        (.leftBracket :: (List.intercalate [.comma] (items.map Prod.fst) ++ [.rightBracket]))
        (.array (items.map Prod.snd))

/-- The terminals are a formula with a tree. -/
def IsFormula (s : List Terminal) (tree : Node) : Prop :=
  Derives .expression s tree ∧ tree.CallsFit ∧ tree.ArraysPlaced

/-! ## Lists of phrases -/

/-- Several phrases with commas between them are the first one and the others with a comma in front
of each. -/
theorem intercalate_comma_cons (s : List Terminal) (others : List (List Terminal)) :
    List.intercalate [Terminal.comma] (s :: others) =
      s ++ others.flatMap (Terminal.comma :: ·) := by
  induction others generalizing s with
  | nil => simp [List.intercalate]
  | cons u others ih =>
    rw [List.intercalate_cons_cons, ih]
    simp

/-! ## Levels of a tree -/

/-- Several trees have no more levels than a bound of each. -/
theorem depthOf_le {nodes : List Node} {n : Nat} (h : ∀ node ∈ nodes, node.depth ≤ n) :
    Node.depthOf nodes ≤ n := by
  induction nodes with
  | nil => simp [Node.depthOf]
  | cons node nodes ih =>
    have := h node List.mem_cons_self
    have := ih fun other hother => h other (List.mem_cons_of_mem _ hother)
    simp only [Node.depthOf]
    omega

/-- A phrase is no longer than the list of phrases that it stands in. -/
theorem length_le_intercalate {parts : List (List Terminal)} {s : List Terminal}
    (h : s ∈ parts) : s.length ≤ (List.intercalate [Terminal.comma] parts).length := by
  cases parts with
  | nil => exact absurd h List.not_mem_nil
  | cons first others =>
    rw [intercalate_comma_cons, List.length_append]
    rcases List.mem_cons.mp h with rfl | h
    · omega
    · have hsub : (Terminal.comma :: s).Sublist (others.map (Terminal.comma :: ·)).flatten :=
        List.sublist_flatten_of_mem (List.mem_map_of_mem h)
      have := hsub.length_le
      rw [List.flatMap]
      rw [List.length_cons] at this
      omega

/-- Several trees have no more levels than the list of their phrases has terminals. -/
theorem depthOf_le_intercalate {parts : List (List Terminal × Node)}
    (h : ∀ part ∈ parts, part.2.depth ≤ part.1.length) :
    Node.depthOf (parts.map Prod.snd) ≤
      (List.intercalate [Terminal.comma] (parts.map Prod.fst)).length := by
  refine depthOf_le fun node hnode => ?_
  obtain ⟨part, hpart, rfl⟩ := List.mem_map.mp hnode
  exact Nat.le_trans (h part hpart) (length_le_intercalate (List.mem_map_of_mem hpart))

/-- A tree has no more levels than its phrase has terminals. -/
theorem Derives.depth_le {level : Level} {s : List Terminal} {tree : Node}
    (h : Derives level s tree) : tree.depth ≤ s.length := by
  induction h with
  | tighter _ _ ih => exact ih
  | binary _ _ _ ihl ihr =>
    simp only [Node.depth, List.length_append, List.length_cons]
    omega
  | conditional _ _ _ ihc ihp ihn =>
    simp only [Node.depth, List.length_append, List.length_cons]
    omega
  | @minus s tree _ ih =>
    have : 1 ≤ tree.depth := by cases tree <;> simp [Node.depth]
    simp only [Node.depth, List.length_cons]
    omega
  | plus _ ih =>
    rw [List.length_cons]
    omega
  | number _ => simp [Node.depth]
  | channel c => simp [Node.depth]
  | call _ _ ih =>
    have := depthOf_le_intercalate ih
    simp only [Node.depth, List.length_append, List.length_cons]
    omega
  | parentheses _ ih =>
    simp only [List.length_append, List.length_cons]
    omega
  | array _ _ ih =>
    have := depthOf_le_intercalate ih
    simp only [Node.depth, List.length_append, List.length_cons]
    omega

end Grammar

end LayerBlend
