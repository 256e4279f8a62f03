import LayerBlend.Proofs.Formula.Following

/-!
# What is in the grammar is accepted by the parser

* `Grammar.need level count` — the nesting levels that a phrase of `count` terminals needs.
* `Grammar.Accepts level read s tree` — `read` takes any tokens with the terminals `s` off the front
  of a list where a phrase of `level` stops behind them, and gives `tree`.
* `Grammar.Resumes level s tree` — behind such tokens, the chain of a binary level goes on with
  `tree` as its left operand. This carries the induction over left-recursive phrases, whose left
  part is followed by an operator and so does not stop there.
* `Grammar.reads_of_derives` — a phrase whose calls fit is accepted with any sufficient budget.
* `Grammar.checkArrays_eq_ok` — trees with their arrays at the result position pass the check.
* `Grammar.parse_of_isFormula` — so `parse` gives a formula the tree that the grammar gives it.
-/

namespace LayerBlend

namespace Grammar

open LayerBlend.Parser

/-! ## Budgets -/

/-- The nesting levels that a phrase needs: ten for each terminal, and those of its own level. -/
def need (level : Level) (count : Nat) : Nat :=
  10 * count +
    match level with
    | .expression => 9
    | .comparison => 8
    | .additive => 6
    | .multiplicative => 4
    | .unary => 2
    | .primary => 1

/-- A reader takes the terminals off the front of a list and gives the tree. -/
def Accepts (level : Level) (read : Reader) (s : List Terminal) (tree : Node) : Prop :=
  ∀ ⦃tokens rest⦄, tokens.map Token.terminal = s → Stops level rest →
    read (tokens ++ rest) = .ok (tree, rest)

/-- Behind a phrase of a binary level the chain goes on with the tree as its left operand. -/
def Resumes (level : Level) (s : List Terminal) (tree : Node) : Prop :=
  ∀ ⦃budget⦄, need level s.length ≤ budget + 2 → ∀ ⦃tokens rest⦄, tokens.map Token.terminal = s →
    Stops level.tighter rest → ∀ ⦃result⦄,
      (∀ fuel, rest.length ≤ fuel →
        chain level.operators (reader level.tighter budget) fuel tree rest = result) →
      reader level (budget + 2) (tokens ++ rest) = result

/-- A phrase is accepted with any sufficient budget. -/
def Reads (level : Level) (s : List Terminal) (tree : Node) : Prop :=
  ∀ ⦃budget⦄, need level s.length ≤ budget → Accepts level (reader level budget) s tree

/-! ## Tokens of a phrase -/

/-- The tokens of two phrases with a terminal between them. -/
theorem exists_tokens {tokens : List Token} {s u : List Terminal} {x : Terminal}
    (h : tokens.map Token.terminal = s ++ x :: u) :
    ∃ left t right, tokens = left ++ t :: right ∧ left.map Token.terminal = s ∧
      t.terminal = x ∧ right.map Token.terminal = u := by
  obtain ⟨left, others, rfl, hleft, hothers⟩ := List.map_eq_append_iff.mp h
  obtain ⟨t, right, rfl, ht, hright⟩ := List.map_eq_cons_iff.mp hothers
  exact ⟨left, t, right, rfl, hleft, ht, hright⟩

/-- The tokens of a phrase and a terminal behind it. -/
theorem exists_closed {tokens : List Token} {s : List Terminal} {x : Terminal}
    (h : tokens.map Token.terminal = s ++ [x]) :
    ∃ inner close, tokens = inner ++ [close] ∧ inner.map Token.terminal = s ∧
      close.terminal = x := by
  obtain ⟨inner, close, tail, rfl, hinner, hclose, htail⟩ := exists_tokens h
  obtain rfl : tail = [] := List.map_eq_nil_iff.mp htail
  exact ⟨inner, close, rfl, hinner, hclose⟩

/-- A phrase starts with a terminal that is no closing parenthesis, and a primary does not start
with an operator. -/
theorem Derives.exists_first {level : Level} {s : List Terminal} {tree : Node}
    (h : Derives level s tree) : ∃ x u, s = x :: u ∧ x.kind ≠ .rightParen ∧
      (level = .primary → x.kind ≠ .operator) := by
  induction h with
  | tighter hlevel _ ih =>
    obtain ⟨x, u, rfl, hx, _⟩ := ih
    exact ⟨x, u, rfl, hx, fun h => absurd h hlevel⟩
  | binary hop _ _ ihl _ =>
    obtain ⟨x, u, rfl, hx, _⟩ := ihl
    refine ⟨x, _, rfl, hx, ?_⟩
    rintro rfl
    cases hop
  | conditional _ _ _ ihc _ _ =>
    obtain ⟨x, u, rfl, hx, _⟩ := ihc
    refine ⟨x, _, rfl, hx, fun h => ?_⟩
    cases h
  | minus _ _ => exact ⟨_, _, rfl, by decide, fun h => by cases h⟩
  | plus _ _ => exact ⟨_, _, rfl, by decide, fun h => by cases h⟩
  | number _ => exact ⟨_, _, rfl, by simp [Terminal.kind], fun _ => by simp [Terminal.kind]⟩
  | channel c => exact ⟨_, _, rfl, by simp [Terminal.kind], fun _ => by simp [Terminal.kind]⟩
  | call f _ _ => exact ⟨_, _, rfl, by simp [Terminal.kind], fun _ => by simp [Terminal.kind]⟩
  | parentheses _ _ => exact ⟨_, _, rfl, by decide, fun _ => by decide⟩
  | array _ _ _ => exact ⟨_, _, rfl, by decide, fun _ => by decide⟩

/-! ## Steps of the parser -/

/-- A token of the expected class is taken. -/
theorem expect_of_kind {kind : TokenKind} {wanted : Wanted} {t : Token} {rest : List Token}
    (h : t.kind = kind) : expect kind wanted (t :: rest) = .ok rest := by
  rw [expect, if_pos h]

/-- A chain ends where its level stops. -/
theorem chain_of_stops {level : Level} {operand : Reader} {tree : Node} {rest : List Token}
    (h : Stops level rest) (fuel : Nat) :
    chain level.operators operand fuel tree rest = .ok (tree, rest) := by
  cases fuel with
  | zero => rw [chain]; simp
  | succ fuel =>
    cases rest with
    | nil => rw [chain]; simp
    | cons t rest => rw [chain, h.operator?_eq_none]

/-- The reader of a binary level reads a first operand and goes on with the chain. -/
theorem reader_binary {level : Level} (h : level.operators ≠ []) (budget : Nat) :
    reader level (budget + 2) = operands level.operators (reader level.tighter budget) := by
  cases level with
  | comparison => funext tokens; rw [reader, comparison]; rfl
  | additive => funext tokens; rw [reader, additive]; rfl
  | multiplicative => funext tokens; rw [reader, multiplicative]; rfl
  | expression | unary | primary => exact absurd rfl h

/-- Every budget that a phrase of a binary level needs is two more than one that its operands can
be read with. -/
theorem need_binary {level : Level} (h : level.operators ≠ []) {count budget : Nat}
    (hneed : need level count ≤ budget) :
    ∃ operandBudget, budget = operandBudget + 2 ∧ need level.tighter count ≤ operandBudget := by
  refine ⟨budget - 2, ?_⟩
  cases level with
  | comparison | additive | multiplicative =>
    simp only [need, Level.tighter] at hneed ⊢
    omega
  | expression | unary | primary => exact absurd rfl h

/-- A budget that a phrase needs is not zero. -/
theorem exists_budget {level : Level} {count budget : Nat} (h : need level count ≤ budget) :
    ∃ smaller, budget = smaller + 1 := by
  refine ⟨budget - 1, ?_⟩
  cases level <;> simp only [need] at h <;> omega

/-- A phrase that is resumed is accepted. -/
theorem Resumes.reads {level : Level} {s : List Terminal} {tree : Node}
    (hlevel : level.operators ≠ []) (h : Resumes level s tree) : Reads level s tree := by
  intro budget hbudget tokens rest htokens hstops
  obtain ⟨operandBudget, rfl, _⟩ := need_binary hlevel hbudget
  exact h hbudget htokens hstops.tighter fun fuel _ => chain_of_stops hstops fuel

/-! ## Levels -/

/-- A comparison chain that is accepted is accepted as an expression. -/
theorem reads_expression {s : List Terminal} {tree : Node} (h : Reads .comparison s tree) :
    Reads .expression s tree := by
  intro budget hbudget tokens rest htokens hstops
  obtain ⟨budget, rfl⟩ := exists_budget hbudget
  have hcomparison : comparison budget (tokens ++ rest) = .ok (tree, rest) :=
    h (by simp only [need] at hbudget ⊢; omega) htokens hstops.tighter
  show expression (budget + 1) (tokens ++ rest) = _
  rw [expression, hcomparison]
  cases rest with
  | nil => rfl
  | cons t rest =>
    obtain ⟨_, hquestion⟩ := hstops t rfl
    show (if t.kind = .question then _ else _) = _
    rw [if_neg (hquestion rfl)]
    rfl

/-- A conditional is accepted when its parts are. -/
theorem reads_conditional {s u v : List Terminal} {condition positive negative : Node}
    (hc : Reads .comparison s condition) (hp : Reads .expression u positive)
    (hn : Reads .expression v negative) :
    Reads .expression (s ++ .question :: (u ++ .colon :: v))
      (.choose condition positive negative) := by
  intro budget hbudget tokens rest htokens hstops
  obtain ⟨budget, rfl⟩ := exists_budget hbudget
  simp only [need, List.length_append, List.length_cons] at hbudget
  obtain ⟨first, question, others, rfl, hfirst, hquestion, hothers⟩ := exists_tokens htokens
  obtain ⟨second, colon, third, rfl, hsecond, hcolon, hthird⟩ := exists_tokens hothers
  have hqkind : question.kind = .question := Token.kind_eq hquestion
  have hckind : colon.kind = .colon := Token.kind_eq hcolon
  have hcondition : comparison budget (first ++ question :: (second ++ colon :: (third ++ rest))) =
      .ok (condition, question :: (second ++ colon :: (third ++ rest))) :=
    hc (by simp only [need]; omega) hfirst (stops_question hqkind)
  have hpositive : expression budget (second ++ colon :: (third ++ rest)) =
      .ok (positive, colon :: (third ++ rest)) :=
    hp (by simp only [need]; omega) hsecond
      (stops_of_kind hckind (by decide) (by decide))
  have hnegative : expression budget (third ++ rest) = .ok (negative, rest) :=
    hn (by simp only [need]; omega) hthird hstops
  show expression (budget + 1) _ = _
  rw [List.append_assoc, List.cons_append, List.append_assoc, List.cons_append, expression,
    hcondition]
  show (if question.kind = .question then _ else _) = _
  rw [if_pos hqkind, hpositive]
  show (expect .colon .colon (colon :: (third ++ rest)) >>= _) = _
  rw [expect_of_kind hckind]
  show (expression budget (third ++ rest) >>= _) = _
  rw [hnegative]
  rfl

/-- An operand that is accepted is resumed by the chain of its level. -/
theorem resumes_operand {level : Level} (hlevel : level.operators ≠ []) {s : List Terminal}
    {tree : Node} (h : Reads level.tighter s tree) : Resumes level s tree := by
  intro budget hbudget tokens rest htokens hstops result hresult
  obtain ⟨operandBudget, heq, hneed⟩ := need_binary hlevel hbudget
  obtain rfl : budget = operandBudget := by omega
  rw [reader_binary hlevel]
  unfold operands
  rw [h hneed htokens hstops]
  exact hresult rest.length (Nat.le_refl _)

/-- A chain goes on behind an operator and an operand. -/
theorem resumes_binary {level : Level} {op : BinaryOperator} (hop : op ∈ level.operators)
    {s u : List Terminal} {left right : Node} (hleft : Resumes level s left)
    (hright : Reads level.tighter u right) :
    Resumes level (s ++ .operator op.symbol :: u) (.binary op left right) := by
  intro budget hbudget tokens rest htokens hstops result hresult
  have hlevel : level.operators ≠ [] := List.ne_nil_of_mem hop
  obtain ⟨front, t, others, rfl, hfront, ht, hothers⟩ := exists_tokens htokens
  rw [List.append_assoc, List.cons_append]
  refine hleft ?_ hfront (stops_operator ht hop) fun fuel hfuel => ?_
  · simp only [need, List.length_append, List.length_cons] at hbudget ⊢
    omega
  · have hoperand : reader level.tighter budget (others ++ rest) = .ok (right, rest) := by
      refine hright ?_ hothers hstops
      obtain ⟨operandBudget, heq, hneed⟩ := need_binary hlevel hbudget
      simp only [need, List.length_append, List.length_cons] at hneed ⊢
      omega
    simp only [List.length_cons, List.length_append] at hfuel
    obtain ⟨fuel, rfl⟩ : ∃ f, fuel = f + 1 := ⟨fuel - 1, by omega⟩
    rw [chain, operator?_of_terminal ht hop]
    show (reader level.tighter budget (others ++ rest) >>= _) = _
    rw [hoperand]
    exact hresult fuel (by omega)

/-- A primary that is accepted is accepted as an operand without signs. -/
theorem reads_unary {s : List Terminal} {tree : Node} (hderives : Derives .primary s tree)
    (h : Reads .primary s tree) : Reads .unary s tree := by
  intro budget hbudget tokens rest htokens hstops
  obtain ⟨budget, rfl⟩ := exists_budget hbudget
  have hprimary : primary budget (tokens ++ rest) = .ok (tree, rest) :=
    h (by simp only [need] at hbudget ⊢; omega) htokens hstops.tighter
  obtain ⟨x, u, rfl, _, hx⟩ := hderives.exists_first
  obtain ⟨t, others, rfl, ht, _⟩ := List.map_eq_cons_iff.mp htokens
  have hsign : sign? t = none := operator?_of_kind (by rw [Token.kind_eq ht]; exact hx rfl)
  show unary (budget + 1) (t :: (others ++ rest)) = _
  rw [unary, hsign]
  exact hprimary

/-- An operand with a sign is accepted when the operand is. -/
theorem reads_sign {s : List Terminal} {tree : Node} (sign : BinaryOperator)
    (hsign : sign ∈ BinaryOperator.additions) (h : Reads .unary s tree) :
    Reads .unary (.operator sign.symbol :: s) (applySign sign tree) := by
  intro budget hbudget tokens rest htokens hstops
  obtain ⟨budget, rfl⟩ := exists_budget hbudget
  simp only [need, List.length_cons] at hbudget
  obtain ⟨t, others, rfl, ht, hothers⟩ := List.map_eq_cons_iff.mp htokens
  have hoperand : unary budget (others ++ rest) = .ok (tree, rest) :=
    h (by simp only [need]; omega) hothers hstops
  show unary (budget + 1) (t :: (others ++ rest)) = _
  rw [unary, sign?, operator?_of_terminal ht hsign]
  show (unary budget (others ++ rest) >>= _) = _
  rw [hoperand]
  rfl

/-! ## Lists of items -/

/-- An item stops at the comma of the next one, or at the end of the list. -/
theorem stops_moreItems {parts : List (List Terminal)} {more rest : List Token} {close : Token}
    (h : more.map Token.terminal = parts.flatMap (Terminal.comma :: ·))
    (hstops : Stops .expression (close :: rest)) : Stops .expression (more ++ close :: rest) := by
  cases more with
  | nil => exact hstops
  | cons next more =>
    cases parts with
    | nil => cases h
    | cons part parts =>
      have hkind : next.kind = .comma := Token.kind_eq (List.cons.inj h).1
      exact stops_of_kind hkind (by decide) (by decide)

/-- Phrases with a comma in front of each are accepted as further items of a list. -/
theorem moreItems_eq_ok {item : Reader} {parts : List (List Terminal × Node)}
    (hparts : ∀ part ∈ parts, Accepts .expression item part.1 part.2) :
    ∀ {tokens rest : List Token} {close : Token} {fuel : Nat},
      tokens.map Token.terminal = (parts.map Prod.fst).flatMap (Terminal.comma :: ·) →
      close.kind ≠ .comma → Stops .expression (close :: rest) →
      (tokens ++ close :: rest).length ≤ fuel →
      moreItems item fuel (tokens ++ close :: rest) = .ok (parts.map Prod.snd, close :: rest) := by
  induction parts with
  | nil =>
    intro tokens rest close fuel htokens hclose _ hfuel
    obtain rfl : tokens = [] := List.map_eq_nil_iff.mp htokens
    obtain ⟨fuel, rfl⟩ : ∃ f, fuel = f + 1 :=
      ⟨fuel - 1, by simp only [List.nil_append, List.length_cons] at hfuel; omega⟩
    rw [List.nil_append, moreItems, if_neg hclose]
    rfl
  | cons part parts ih =>
    intro tokens rest close fuel htokens hclose hstops hfuel
    obtain ⟨comma, others, rfl, hcomma, hothers⟩ := List.map_eq_cons_iff.mp htokens
    obtain ⟨first, more, rfl, hfirst, hmore⟩ := List.map_eq_append_iff.mp hothers
    have hkind : comma.kind = .comma := Token.kind_eq hcomma
    have hitem : item (first ++ (more ++ close :: rest)) = .ok (part.2, more ++ close :: rest) :=
      hparts part List.mem_cons_self hfirst (stops_moreItems hmore hstops)
    simp only [List.cons_append, List.append_assoc, List.length_cons, List.length_append] at hfuel
    obtain ⟨fuel, rfl⟩ : ∃ f, fuel = f + 1 := ⟨fuel - 1, by omega⟩
    rw [List.cons_append, List.append_assoc, moreItems, if_pos hkind, hitem]
    show (moreItems item fuel (more ++ close :: rest) >>= _) = _
    rw [ih (fun p hp => hparts p (List.mem_cons_of_mem _ hp)) hmore hclose hstops
      (by simp only [List.length_append, List.length_cons]; omega)]
    rfl

/-- Phrases with commas between them are accepted as the items of a list. -/
theorem items_eq_ok {item : Reader} {parts : List (List Terminal × Node)} (hne : parts ≠ [])
    (hparts : ∀ part ∈ parts, Accepts .expression item part.1 part.2) {tokens rest : List Token}
    {close : Token}
    (htokens : tokens.map Token.terminal = List.intercalate [.comma] (parts.map Prod.fst))
    (hclose : close.kind ≠ .comma) (hstops : Stops .expression (close :: rest)) :
    items item (tokens ++ close :: rest) = .ok (parts.map Prod.snd, close :: rest) := by
  cases parts with
  | nil => exact absurd rfl hne
  | cons part parts =>
    rw [List.map_cons, intercalate_comma_cons] at htokens
    obtain ⟨first, more, rfl, hfirst, hmore⟩ := List.map_eq_append_iff.mp htokens
    have hitem : item (first ++ (more ++ close :: rest)) = .ok (part.2, more ++ close :: rest) :=
      hparts part List.mem_cons_self hfirst (stops_moreItems hmore hstops)
    unfold items
    rw [List.append_assoc, hitem]
    show (moreItems item (more ++ close :: rest).length (more ++ close :: rest) >>= _) = _
    rw [moreItems_eq_ok (fun p hp => hparts p (List.mem_cons_of_mem _ hp)) hmore hclose hstops
      (Nat.le_refl _)]
    rfl

/-- Phrases with commas between them and a closing parenthesis are accepted as arguments. -/
theorem arguments_eq_ok {item : Reader} {parts : List (List Terminal × Node)}
    (hderives : ∀ part ∈ parts, Derives .expression part.1 part.2)
    (hparts : ∀ part ∈ parts, Accepts .expression item part.1 part.2) {tokens rest : List Token}
    {close : Token}
    (htokens : tokens.map Token.terminal = List.intercalate [.comma] (parts.map Prod.fst))
    (hclose : close.kind = .rightParen) :
    arguments item (tokens ++ close :: rest) = .ok (parts.map Prod.snd, rest) := by
  cases parts with
  | nil =>
    obtain rfl : tokens = [] := List.map_eq_nil_iff.mp htokens
    unfold arguments
    rw [if_pos (by simpa using hclose)]
    rfl
  | cons part parts =>
    have hitems : items item (tokens ++ close :: rest) =
        .ok ((part :: parts).map Prod.snd, close :: rest) :=
      items_eq_ok (List.cons_ne_nil part parts) hparts htokens (by rw [hclose]; decide)
        (stops_of_kind hclose (by decide) (by decide))
    -- the first argument does not start with a closing parenthesis
    obtain ⟨x, u, hx, hkind, _⟩ := (hderives part List.mem_cons_self).exists_first
    rw [List.map_cons, intercalate_comma_cons, hx] at htokens
    obtain ⟨t, others, rfl, ht, _⟩ := List.map_eq_cons_iff.mp htokens
    have hfirst : t.kind ≠ .rightParen := by
      rw [Token.kind_eq ht]
      exact hkind
    unfold arguments
    rw [if_neg (by simpa using hfirst), hitems]
    show (expect .rightParen .rightParen (close :: rest) >>= _) = _
    rw [expect_of_kind hclose]
    rfl

/-! ## Primaries -/

/-- An expression between parentheses is accepted. -/
theorem reads_parentheses {s : List Terminal} {tree : Node} (h : Reads .expression s tree) :
    Reads .primary (.leftParen :: (s ++ [.rightParen])) tree := by
  intro budget hbudget tokens rest htokens _
  obtain ⟨budget, rfl⟩ := exists_budget hbudget
  simp only [need, List.length_cons, List.length_append] at hbudget
  obtain ⟨t, others, rfl, ht, hothers⟩ := List.map_eq_cons_iff.mp htokens
  obtain ⟨inner, close, rfl, hinner, hclose⟩ := exists_closed hothers
  have hkind : t.kind = .leftParen := Token.kind_eq ht
  have hckind : close.kind = .rightParen := Token.kind_eq hclose
  have hexpression : expression budget (inner ++ close :: rest) = .ok (tree, close :: rest) :=
    h (by simp only [need]; omega) hinner
      (stops_of_kind hckind (by decide) (by decide))
  show primary (budget + 1) (t :: (inner ++ [close] ++ rest)) = _
  rw [List.append_assoc, List.singleton_append, primary, hkind]
  show (expression budget (inner ++ close :: rest) >>= _) = _
  rw [hexpression]
  show (expect .rightParen .rightParen (close :: rest) >>= _) = _
  rw [expect_of_kind hckind]
  rfl

/-- Every item of a list can be read with what is left of a budget that the list can be read
with. -/
theorem accepts_of_reads {parts : List (List Terminal × Node)}
    (h : ∀ part ∈ parts, Reads .expression part.1 part.2) {budget : Nat}
    (hbudget : need .expression (List.intercalate [Terminal.comma] (parts.map Prod.fst)).length ≤
      budget) :
    ∀ part ∈ parts, Accepts .expression (expression budget) part.1 part.2 := by
  intro part hpart
  have hlength := length_le_intercalate (List.mem_map_of_mem (f := Prod.fst) hpart)
  refine h part hpart (Nat.le_trans ?_ hbudget)
  simp only [need]
  omega

/-- An array of items is accepted. -/
theorem reads_array {parts : List (List Terminal × Node)} (hne : parts ≠ [])
    (h : ∀ part ∈ parts, Reads .expression part.1 part.2) :
    Reads .primary
      (.leftBracket :: (List.intercalate [.comma] (parts.map Prod.fst) ++ [.rightBracket]))
      (.array (parts.map Prod.snd)) := by
  intro budget hbudget tokens rest htokens _
  obtain ⟨budget, rfl⟩ := exists_budget hbudget
  simp only [need, List.length_cons, List.length_append] at hbudget
  obtain ⟨t, others, rfl, ht, hothers⟩ := List.map_eq_cons_iff.mp htokens
  obtain ⟨inner, close, rfl, hinner, hclose⟩ := exists_closed hothers
  have hkind : t.kind = .leftBracket := Token.kind_eq ht
  have hckind : close.kind = .rightBracket := Token.kind_eq hclose
  have haccepts : ∀ part ∈ parts, Accepts .expression (expression budget) part.1 part.2 :=
    accepts_of_reads h (by simp only [need]; omega)
  have hitems : items (expression budget) (inner ++ close :: rest) =
      .ok (parts.map Prod.snd, close :: rest) :=
    items_eq_ok hne haccepts hinner (by rw [hckind]; decide)
      (stops_of_kind hckind (by decide) (by decide))
  show primary (budget + 1) (t :: (inner ++ [close] ++ rest)) = _
  rw [List.append_assoc, List.singleton_append, primary, hkind]
  show (items (expression budget) (inner ++ close :: rest) >>= _) = _
  rw [hitems]
  show (expect .rightBracket .rightBracket (close :: rest) >>= _) = _
  rw [expect_of_kind hckind]
  rfl

/-- A call with a number of arguments that its function takes is accepted. -/
theorem reads_call {f : Builtin} {parts : List (List Terminal × Node)}
    (hcount : f.accepts parts.length)
    (hderives : ∀ part ∈ parts, Derives .expression part.1 part.2)
    (h : ∀ part ∈ parts, Reads .expression part.1 part.2) :
    Reads .primary
      (.word f.name :: .leftParen ::
        (List.intercalate [.comma] (parts.map Prod.fst) ++ [.rightParen]))
      (.call f (parts.map Prod.snd)) := by
  intro budget hbudget tokens rest htokens _
  simp only [need, List.length_cons, List.length_append] at hbudget
  obtain ⟨budget, rfl⟩ : ∃ b, budget = b + 2 := ⟨budget - 2, by omega⟩
  obtain ⟨name, others, rfl, hname, hothers⟩ := List.map_eq_cons_iff.mp htokens
  obtain ⟨paren, more, rfl, hparen, hmore⟩ := List.map_eq_cons_iff.mp hothers
  obtain ⟨inner, close, rfl, hinner, hclose⟩ := exists_closed hmore
  have hkind : name.kind = .identifier := Token.kind_eq hname
  have hpkind : paren.kind = .leftParen := Token.kind_eq hparen
  have haccepts : ∀ part ∈ parts, Accepts .expression (expression budget) part.1 part.2 :=
    accepts_of_reads h (by simp only [need]; omega)
  have harguments : arguments (expression budget) (inner ++ close :: rest) =
      .ok (parts.map Prod.snd, rest) :=
    arguments_eq_ok hderives haccepts hinner (Token.kind_eq hclose)
  show primary (budget + 2) (name :: paren :: (inner ++ [close] ++ rest)) = _
  rw [List.append_assoc, List.singleton_append, primary, hkind]
  simp only [Token.text_eq_word hname, Builtin.channel_ofName?_name, Builtin.ofName?_name]
  rw [functionCall, Parser.call, expect_of_kind hpkind]
  show (arguments (expression budget) (inner ++ close :: rest) >>= _) = _
  rw [harguments]
  show (if f.accepts (parts.map Prod.snd).length then _ else _) = _
  rw [List.length_map, if_pos hcount]
  rfl

/-- A literal is accepted. -/
theorem reads_number {text : String} {value : Decimal}
    (h : Decimal.ofChars? text.toList = some value) :
    Reads .primary [.number text] (.number value) := by
  intro budget hbudget tokens rest htokens _
  obtain ⟨budget, rfl⟩ := exists_budget hbudget
  obtain ⟨t, others, rfl, ht, hothers⟩ := List.map_eq_cons_iff.mp htokens
  obtain rfl : others = [] := List.map_eq_nil_iff.mp hothers
  have hkind : t.kind = .number := Token.kind_eq ht
  show primary (budget + 1) (t :: rest) = _
  rw [primary, hkind]
  simp only [Token.text_eq_number ht, h]

/-- A channel is accepted. -/
theorem reads_channel (c : Channel) : Reads .primary [.word c.name] (.channel c) := by
  intro budget hbudget tokens rest htokens _
  obtain ⟨budget, rfl⟩ := exists_budget hbudget
  obtain ⟨t, others, rfl, ht, hothers⟩ := List.map_eq_cons_iff.mp htokens
  obtain rfl : others = [] := List.map_eq_nil_iff.mp hothers
  have hkind : t.kind = .identifier := Token.kind_eq ht
  show primary (budget + 1) (t :: rest) = _
  rw [primary, hkind]
  simp only [Token.text_eq_word ht, Channel.ofName?_name]

/-! ## Phrases -/

/-- A phrase whose calls fit is read with any sufficient budget, and resumed when its level is a
binary one. -/
theorem reads_of_derives {level : Level} {s : List Terminal} {tree : Node}
    (h : Derives level s tree) : tree.CallsFit →
      Reads level s tree ∧ (level.operators ≠ [] → Resumes level s tree) := by
  induction h with
  | @tighter level s tree hlevel hderives ih =>
    intro hfit
    obtain ⟨hreads, _⟩ := ih hfit
    cases level with
    | expression => exact ⟨reads_expression hreads, fun h => absurd rfl h⟩
    | comparison | additive | multiplicative =>
      have hresumes := resumes_operand (by decide) hreads
      exact ⟨hresumes.reads (by decide), fun _ => hresumes⟩
    | unary => exact ⟨reads_unary hderives hreads, fun h => absurd rfl h⟩
    | primary => exact absurd rfl hlevel
  | binary hop _ _ ihl ihr =>
    intro hfit
    have hlevel := List.ne_nil_of_mem hop
    obtain ⟨hleftfit, hrightfit⟩ := Node.callsFit_binary.mp hfit
    have hresumes := resumes_binary hop ((ihl hleftfit).2 hlevel) (ihr hrightfit).1
    exact ⟨hresumes.reads hlevel, fun _ => hresumes⟩
  | conditional _ _ _ ihc ihp ihn =>
    intro hfit
    obtain ⟨hc, hp, hn⟩ := Node.callsFit_choose.mp hfit
    exact ⟨reads_conditional (ihc hc).1 (ihp hp).1 (ihn hn).1, fun h => absurd rfl h⟩
  | minus _ ih =>
    intro hfit
    obtain ⟨_, hoperand⟩ := Node.callsFit_binary.mp hfit
    exact ⟨reads_sign .sub (by decide) (ih hoperand).1, fun h => absurd rfl h⟩
  | plus _ ih =>
    intro hfit
    exact ⟨reads_sign .add (by decide) (ih hfit).1, fun h => absurd rfl h⟩
  | number hvalue => exact fun _ => ⟨reads_number hvalue, fun h => absurd rfl h⟩
  | channel c => exact fun _ => ⟨reads_channel c, fun h => absurd rfl h⟩
  | @call f parts hderives ih =>
    intro hfit
    obtain ⟨hcount, hargs⟩ := Node.callsFit_call.mp hfit
    rw [List.length_map] at hcount
    refine ⟨reads_call hcount hderives fun part hpart => ?_, fun h => absurd rfl h⟩
    exact (ih part hpart (hargs part.2 (List.mem_map_of_mem hpart))).1
  | parentheses _ ih =>
    intro hfit
    exact ⟨reads_parentheses (ih hfit).1, fun h => absurd rfl h⟩
  | @array parts hne _ ih =>
    intro hfit
    rw [Node.callsFit_array] at hfit
    refine ⟨reads_array hne fun part hpart => ?_, fun h => absurd rfl h⟩
    exact (ih part hpart (hfit part.2 (List.mem_map_of_mem hpart))).1

/-! ## Positions of arrays -/

/-- A check of several trees passes when it passes for each. -/
theorem forM_of_forall {ε : Type} {check : Node → Except ε Unit} {nodes : List Node}
    (h : ∀ node ∈ nodes, check node = .ok ()) : nodes.forM check = .ok () := by
  induction nodes with
  | nil => rfl
  | cons node nodes ih =>
    show (check node >>= fun _ => nodes.forM check) = _
    rw [h node List.mem_cons_self]
    exact ih fun other hother => h other (List.mem_cons_of_mem _ hother)

/-- A tree is no deeper than the deepest of several. -/
theorem depth_le_depthOf {node : Node} {nodes : List Node} (h : node ∈ nodes) :
    node.depth ≤ Node.depthOf nodes := by
  induction nodes with
  | nil => exact absurd h List.not_mem_nil
  | cons other nodes ih =>
    simp only [Node.depthOf]
    rcases List.mem_cons.mp h with rfl | h
    · omega
    · have := ih h
      omega

/-- A tree passes the check when it has no array, or arrays at the result position only. -/
theorem checkArrays_eq_ok (budget : Nat) :
    ∀ {result : Bool} {tree : Node}, tree.depth ≤ budget → tree.ArraysPlaced →
      (result = false → tree.ArrayFree) → checkArrays budget result tree = .ok () := by
  induction budget with
  | zero =>
    intro result tree hdepth
    cases tree <;> simp [Node.depth] at hdepth
  | succ budget ih =>
    intro result tree hdepth hplaced hfree
    cases tree with
    | number value => rfl
    | channel c => rfl
    | call f args =>
      simp only [Node.depth] at hdepth
      refine forM_of_forall fun arg harg => ?_
      have harrayFree := Node.arraysPlaced_call.mp hplaced arg harg
      have := depth_le_depthOf harg
      exact ih (by omega) harrayFree.arraysPlaced fun _ => harrayFree
    | binary op left right =>
      simp only [Node.depth] at hdepth
      obtain ⟨hl, hr⟩ := Node.arraysPlaced_binary.mp hplaced
      rw [checkArrays, ih (by omega) hl.arraysPlaced fun _ => hl]
      exact ih (by omega) hr.arraysPlaced fun _ => hr
    | choose condition positive negative =>
      simp only [Node.depth] at hdepth
      obtain ⟨hc, hp, hn⟩ := Node.arraysPlaced_choose.mp hplaced
      have hbranches := fun h => Node.arrayFree_choose.mp (hfree h)
      rw [checkArrays, ih (by omega) hc.arraysPlaced fun _ => hc]
      show (checkArrays budget result positive >>= _) = _
      rw [ih (by omega) hp fun h => (hbranches h).2.1]
      exact ih (by omega) hn fun h => (hbranches h).2.2
    | array nodes =>
      simp only [Node.depth] at hdepth
      cases result with
      | false => exact absurd (hfree rfl) (Node.not_arrayFree_array nodes)
      | true =>
        refine forM_of_forall fun node hnode => ?_
        have harrayFree := Node.arraysPlaced_array.mp hplaced node hnode
        have := depth_le_depthOf hnode
        exact ih (by omega) harrayFree.arraysPlaced fun _ => harrayFree

/-! ## Formulas -/

/-- A formula is parsed to its tree. -/
theorem parse_of_isFormula {tokens : List Token} {tree : Node}
    (h : IsFormula (tokens.map Token.terminal) tree) : parse tokens = .ok tree := by
  obtain ⟨hderives, hfit, hplaced⟩ := h
  have hdepth := hderives.depth_le
  rw [List.length_map] at hdepth
  obtain ⟨x, u, hfirst, _⟩ := hderives.exists_first
  have hne : tokens.isEmpty = false := by
    cases tokens with
    | nil => cases hfirst
    | cons t tokens => rfl
  have hbudget : need .expression (tokens.map Token.terminal).length ≤
      ampleBudget tokens.length := by
    simp only [need, ampleBudget, List.length_map]
    omega
  have hread : expression (ampleBudget tokens.length) (tokens ++ []) = .ok (tree, []) :=
    (reads_of_derives hderives hfit).1 hbudget rfl (stops_nil _)
  have hcheck : checkArrays (ampleBudget tokens.length) true tree = .ok () :=
    checkArrays_eq_ok _ (by unfold ampleBudget; omega) hplaced (fun h => absurd h (by decide))
  rw [List.append_nil] at hread
  unfold parse parseWithin
  rw [hne, hread]
  show (checkArrays (ampleBudget tokens.length) true tree >>= fun _ => _) = _
  rw [hcheck]
  rfl

end Grammar

end LayerBlend
