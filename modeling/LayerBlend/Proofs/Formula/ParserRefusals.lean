import LayerBlend.Fault
import LayerBlend.Proofs.Formula.ParserCompleteness

/-!
# What the parser says of any list of tokens

* `SyntaxFault.IsRefusal` — a fault of syntax, other than the limit on nesting levels.
* `Grammar.Settled outcome` — when `outcome` fails, it fails with a refusal.
* `Grammar.Within count tokens` — at most `count` tokens, all of them lexemes of their classes.
* `Grammar.Settles read count` — `read` is settled on such tokens.
* `Grammar.reader_settles` — every reader is, with the budget that so many tokens need.
* `Grammar.parse_settled` — so no list of lexemes exhausts the budget of `parse`.
* `Grammar.parse_eq_ok_iff` — `parse` gives a tree exactly when the grammar does, the same one.
* `Grammar.parse_decides` — the parser decides the grammar, and the grammar is unambiguous.
-/

namespace LayerBlend

/-- A fault of syntax, other than the limit on nesting levels. -/
def SyntaxFault.IsRefusal (fault : SyntaxFault) : Prop :=
  Fault.ofFormula (.badSyntax fault) = .badSyntax ∧ fault ≠ .tooDeep

/-- The text of a number token that is a lexeme is read as a literal. -/
theorem Token.IsLexeme.exists_value {t : Token} (h : t.IsLexeme) (hkind : t.kind = .number) :
    ∃ value, Decimal.ofChars? t.text.toList = some value := by
  rw [IsLexeme, hkind] at h
  obtain ⟨whole, tail, htext, hne, hwhole, htail⟩ := h
  -- the digits in front are all that `takeWhile` takes
  have hstop : ∀ c ∈ tail.head?, c.isDigit = false := by
    intro c hc
    rcases htail with rfl | ⟨fraction, rfl, _⟩
    · cases hc
    · cases hc
      decide
  have htake : t.text.toList.takeWhile Char.isDigit = whole := by
    rw [htext, List.takeWhile_append_of_pos hwhole]
    cases tail with
    | nil => simp
    | cons c tail => simp [hstop c rfl]
  have hdrop : t.text.toList.dropWhile Char.isDigit = tail := by
    rw [htext, List.dropWhile_append_of_pos hwhole]
    cases tail with
    | nil => rfl
    | cons c tail => simp [hstop c rfl]
  obtain ⟨digit, digits, rfl⟩ := List.exists_cons_of_ne_nil hne
  unfold Decimal.ofChars?
  rw [htake, hdrop]
  rcases htail with rfl | ⟨fraction, rfl, hfraction, hdigits⟩
  · exact ⟨_, rfl⟩
  · have hcheck : (fraction.all Char.isDigit && !fraction.isEmpty) = true := by
      simpa [hfraction] using hdigits
    exact ⟨_, if_pos hcheck⟩

namespace Grammar

open LayerBlend.Parser

/-! ## Settled outcomes -/

variable {β γ : Type}

/-- When the outcome is a failure, it is a refusal. -/
def Settled (outcome : Except SyntaxFault β) : Prop :=
  ∀ fault, outcome = .error fault → fault.IsRefusal

theorem settled_ok (b : β) : Settled (.ok b) := by
  intro fault h
  cases h

theorem settled_error {fault : SyntaxFault} (h : fault.IsRefusal) :
    Settled (.error fault : Except SyntaxFault β) := by
  intro other hother
  cases hother
  exact h

/-- Two settled steps are settled. -/
theorem Settled.bind {outcome : Except SyntaxFault β} {next : β → Except SyntaxFault γ}
    (h : Settled outcome) (hnext : ∀ b, outcome = .ok b → Settled (next b)) :
    Settled (outcome >>= next) := by
  intro fault hfault
  rcases bind_eq_error.mp hfault with hfail | ⟨b, hb, hfail⟩
  · exact h fault hfail
  · exact hnext b hb fault hfail

/-- What is wanted next is there, or its absence is a refusal. -/
theorem expect_settled (kind : TokenKind) (wanted : Wanted) (tokens : List Token) :
    Settled (expect kind wanted tokens) := by
  cases tokens with
  | nil => exact settled_error ⟨rfl, by simp⟩
  | cons t tokens =>
    rw [expect]
    split
    · exact settled_ok _
    · exact settled_error ⟨rfl, by simp⟩

/-! ## Lists of lexemes -/

/-- At most so many tokens, all of them lexemes of their classes. -/
structure Within (count : Nat) (tokens : List Token) : Prop where
  /-- There are no more. -/
  length_le : tokens.length ≤ count
  /-- Each is a lexeme of its class. -/
  lexemes : ∀ t ∈ tokens, t.IsLexeme

/-- What is left of a list is within the same bound. -/
theorem Within.rest {count : Nat} {s rest : List Token} (h : Within count (s ++ rest)) :
    Within count rest := by
  refine ⟨?_, fun t ht => h.lexemes t (List.mem_append_right s ht)⟩
  have := h.length_le
  rw [List.length_append] at this
  omega

/-- What stands behind a token is within a smaller bound. -/
theorem Within.tail {count : Nat} {t : Token} {rest : List Token} (h : Within count (t :: rest)) :
    ∃ smaller, count = smaller + 1 ∧ Within smaller rest := by
  have := h.length_le
  rw [List.length_cons] at this
  refine ⟨count - 1, by omega, by omega, fun u hu => h.lexemes u (List.mem_cons_of_mem t hu)⟩

theorem Within.mono {count more : Nat} {tokens : List Token} (h : Within count tokens)
    (hle : count ≤ more) : Within more tokens :=
  ⟨Nat.le_trans h.length_le hle, h.lexemes⟩

/-- A reader is settled on lists within a bound. -/
def Settles (read : Reader) (count : Nat) : Prop :=
  ∀ ⦃tokens⦄, Within count tokens → Settled (read tokens)

/-! ## Chains and lists -/

/-- A chain is settled when its operands are. -/
theorem chain_settled {level : Level} {operand : Reader} {count : Nat}
    (hsound : Sound level.tighter operand) (hop : Settles operand count) (fuel : Nat) :
    ∀ {left : Node} {tokens : List Token}, Within count tokens →
      Settled (chain level.operators operand fuel left tokens) := by
  induction fuel with
  | zero =>
    intro left tokens _
    simp only [chain]
    exact settled_ok _
  | succ fuel ih =>
    intro left tokens hwithin
    cases tokens with
    | nil =>
      simp only [chain]
      exact settled_ok _
    | cons t tokens =>
      rw [chain]
      split
      · exact settled_ok _
      · obtain ⟨smaller, rfl, htail⟩ := hwithin.tail
        have htail := htail.mono (Nat.le_succ smaller)
        refine (hop htail).bind ?_
        rintro ⟨right, rest⟩ hright
        obtain ⟨s, rfl, _⟩ := hsound hright
        exact ih htail.rest

/-- Operands with operators between them are settled when the operands are. -/
theorem operands_settles {level : Level} {operand : Reader} {count : Nat}
    (hsound : Sound level.tighter operand) (hop : Settles operand count) :
    Settles (operands level.operators operand) count := by
  intro tokens hwithin
  unfold operands
  refine (hop hwithin).bind ?_
  rintro ⟨first, rest⟩ hfirst
  obtain ⟨s, rfl, _⟩ := hsound hfirst
  exact chain_settled hsound hop _ hwithin.rest

/-- Further items of a list are settled when the items are. -/
theorem moreItems_settled {item : Reader} {count : Nat} (hsound : Sound .expression item)
    (hitem : Settles item count) (fuel : Nat) :
    ∀ {tokens : List Token}, Within count tokens → Settled (moreItems item fuel tokens) := by
  induction fuel with
  | zero =>
    intro tokens _
    simp only [moreItems]
    exact settled_ok _
  | succ fuel ih =>
    intro tokens hwithin
    cases tokens with
    | nil =>
      simp only [moreItems]
      exact settled_ok _
    | cons t tokens =>
      rw [moreItems]
      split
      · obtain ⟨smaller, rfl, htail⟩ := hwithin.tail
        have htail := htail.mono (Nat.le_succ smaller)
        refine (hitem htail).bind ?_
        rintro ⟨node, rest⟩ hnode
        obtain ⟨s, rfl, _⟩ := hsound hnode
        exact (ih htail.rest).bind fun _ _ => settled_ok _
      · exact settled_ok _

/-- The items of a list are settled when each is. -/
theorem items_settled {item : Reader} {count : Nat} (hsound : Sound .expression item)
    (hitem : Settles item count) {tokens : List Token} (hwithin : Within count tokens) :
    Settled (items item tokens) := by
  unfold items
  refine (hitem hwithin).bind ?_
  rintro ⟨first, rest⟩ hfirst
  obtain ⟨s, rfl, _⟩ := hsound hfirst
  exact (moreItems_settled hsound hitem _ hwithin.rest).bind fun _ _ => settled_ok _

/-- The rest of a call is settled when the arguments are. -/
theorem call_settled {item : Reader} {count : Nat} (hsound : Sound .expression item)
    (hitem : Settles item count) (f : Builtin) (name : Token) {tokens : List Token}
    (hwithin : Within count tokens) : Settled (call item f name tokens) := by
  unfold call
  refine (expect_settled _ _ _).bind fun rest hrest => ?_
  obtain ⟨paren, rfl, _⟩ := expect_eq_ok hrest
  obtain ⟨smaller, rfl, htail⟩ := hwithin.tail
  have htail := htail.mono (Nat.le_succ smaller)
  refine Settled.bind ?_ ?_
  · unfold arguments
    split
    · exact settled_ok _
    · exact (items_settled hsound hitem htail).bind fun _ _ =>
        (expect_settled _ _ _).bind fun _ _ => settled_ok _
  · rintro ⟨args, more⟩ _
    show Settled (if f.accepts args.length then _ else _)
    split
    · exact settled_ok _
    · exact settled_error ⟨rfl, by simp⟩

/-! ## Levels -/

/-- An expression is settled when its parts are. -/
theorem expression_settles {budget count : Nat} (hcomparison : Settles (comparison budget) count)
    (hexpression : ∀ smaller, count = smaller + 1 → Settles (expression budget) smaller) :
    Settles (expression (budget + 1)) count := by
  intro tokens hwithin
  rw [expression]
  refine (hcomparison hwithin).bind ?_
  rintro ⟨condition, rest⟩ hcondition
  obtain ⟨s, rfl, _⟩ := reader_sound budget .comparison hcondition
  cases rest with
  | nil => exact settled_ok _
  | cons t branches =>
    show Settled (if t.kind = .question then _ else _)
    split
    · obtain ⟨smaller, heq, hbranches⟩ := hwithin.rest.tail
      refine (hexpression smaller heq hbranches).bind ?_
      rintro ⟨positive, rest⟩ hpositive
      obtain ⟨u, rfl, _⟩ := reader_sound budget .expression hpositive
      refine (expect_settled _ _ _).bind fun more hmore => ?_
      obtain ⟨colon, rfl, _⟩ := expect_eq_ok hmore
      obtain ⟨fewer, rfl, hnegative⟩ := hbranches.rest.tail
      exact (hexpression (fewer + 1) heq (hnegative.mono (Nat.le_succ fewer))).bind fun _ _ =>
        settled_ok _
    · exact settled_ok _

/-- A signed operand is settled when the operand and what may stand behind a sign are. -/
theorem unary_settles {budget count : Nat} (hprimary : Settles (primary budget) count)
    (hunary : ∀ smaller, count = smaller + 1 → Settles (unary budget) smaller) :
    Settles (unary (budget + 1)) count := by
  intro tokens hwithin
  cases tokens with
  | nil =>
    rw [unary]
    exact hprimary hwithin
  | cons t tokens =>
    rw [unary]
    split
    · exact hprimary hwithin
    · obtain ⟨smaller, heq, htail⟩ := hwithin.tail
      exact (hunary smaller heq htail).bind fun _ _ => settled_ok _

/-- A primary is settled when the expressions inside it are. -/
theorem primary_settles {budget count : Nat}
    (hexpression : ∀ smaller, count = smaller + 1 → Settles (expression budget) smaller)
    (hcall : ∀ smaller, count = smaller + 1 → ∀ f name tokens, Within smaller tokens →
      Settled (functionCall budget f name tokens)) :
    Settles (primary (budget + 1)) count := by
  intro tokens hwithin
  cases tokens with
  | nil => exact settled_error ⟨rfl, by simp⟩
  | cons t tokens =>
    obtain ⟨smaller, heq, htail⟩ := hwithin.tail
    have hsound : Sound .expression (expression budget) := reader_sound budget .expression
    rw [primary]
    split
    · next hkind =>
      obtain ⟨value, hvalue⟩ := (hwithin.lexemes t List.mem_cons_self).exists_value hkind
      rw [hvalue]
      exact settled_ok _
    · split
      · exact settled_ok _
      · exact hcall smaller heq _ _ _ htail
      · exact settled_error ⟨rfl, by simp⟩
    · exact (hexpression smaller heq htail).bind fun _ _ =>
        (expect_settled _ _ _).bind fun _ _ => settled_ok _
    · exact (items_settled hsound (hexpression smaller heq) htail).bind fun _ _ =>
        (expect_settled _ _ _).bind fun _ _ => settled_ok _
    · exact settled_error ⟨rfl, by simp⟩

/-- Every reader is settled with the budget that its tokens need. -/
theorem reader_settles (budget : Nat) :
    ∀ {level : Level} {count : Nat}, need level count ≤ budget →
      Settles (reader level budget) count := by
  induction budget using Nat.strongRecOn with
  | ind budget ih =>
    intro level count hneed
    cases level with
    | expression =>
      obtain ⟨budget, rfl⟩ := exists_budget hneed
      simp only [need] at hneed
      refine expression_settles ?_ fun smaller hsmaller => ?_
      · show Settles (reader .comparison budget) count
        exact ih budget (by omega) (by simp only [need]; omega)
      · show Settles (reader .expression budget) smaller
        exact ih budget (by omega) (by simp only [need]; omega)
    | comparison | additive | multiplicative =>
      obtain ⟨operandBudget, rfl, hoperand⟩ := need_binary (by decide) hneed
      rw [reader_binary (by decide)]
      exact operands_settles (reader_sound operandBudget _) (ih operandBudget (by omega) hoperand)
    | unary =>
      obtain ⟨budget, rfl⟩ := exists_budget hneed
      simp only [need] at hneed
      refine unary_settles ?_ fun smaller hsmaller => ?_
      · show Settles (reader .primary budget) count
        exact ih budget (by omega) (by simp only [need]; omega)
      · show Settles (reader .unary budget) smaller
        exact ih budget (by omega) (by simp only [need]; omega)
    | primary =>
      obtain ⟨budget, rfl⟩ := exists_budget hneed
      simp only [need] at hneed
      refine primary_settles (fun smaller hsmaller => ?_) fun smaller hsmaller f name tokens h => ?_
      · show Settles (reader .expression budget) smaller
        exact ih budget (by omega) (by simp only [need]; omega)
      · obtain ⟨budget, rfl⟩ : ∃ b, budget = b + 1 := ⟨budget - 1, by omega⟩
        rw [functionCall]
        refine call_settled (reader_sound budget .expression) ?_ f name h
        show Settles (reader .expression budget) smaller
        exact ih budget (by omega) (by simp only [need]; omega)

/-! ## Positions of arrays -/

/-- A check of several trees is settled when it is for each. -/
theorem forM_settled {check : Node → Except SyntaxFault Unit} {nodes : List Node}
    (h : ∀ node ∈ nodes, Settled (check node)) : Settled (nodes.forM check) := by
  induction nodes with
  | nil => exact settled_ok ()
  | cons node nodes ih =>
    show Settled (check node >>= fun _ => nodes.forM check)
    refine (h node List.mem_cons_self).bind fun _ _ => ?_
    exact ih fun other hother => h other (List.mem_cons_of_mem _ hother)

/-- The check of a tree is settled with as many nesting levels as the tree has. -/
theorem checkArrays_settled (budget : Nat) :
    ∀ {result : Bool} {tree : Node}, tree.depth ≤ budget →
      Settled (checkArrays budget result tree) := by
  induction budget with
  | zero =>
    intro result tree hdepth
    cases tree <;> simp [Node.depth] at hdepth
  | succ budget ih =>
    intro result tree hdepth
    cases tree with
    | number value => exact settled_ok ()
    | channel c => exact settled_ok ()
    | call f args =>
      simp only [Node.depth] at hdepth
      refine forM_settled fun arg harg => ?_
      have := depth_le_depthOf harg
      exact ih (by omega)
    | binary op left right =>
      simp only [Node.depth] at hdepth
      rw [checkArrays]
      exact (ih (by omega)).bind fun _ _ => ih (by omega)
    | choose condition positive negative =>
      simp only [Node.depth] at hdepth
      rw [checkArrays]
      exact (ih (by omega)).bind fun _ _ => (ih (by omega)).bind fun _ _ => ih (by omega)
    | array nodes =>
      simp only [Node.depth] at hdepth
      rw [checkArrays]
      split
      · refine forM_settled fun node hnode => ?_
        have := depth_le_depthOf hnode
        exact ih (by omega)
      · exact settled_error ⟨rfl, by simp⟩

/-! ## Formulas -/

/-- A list of lexemes is parsed or refused; its budget is never exhausted. -/
theorem parse_settled {tokens : List Token} (h : ∀ t ∈ tokens, t.IsLexeme) :
    Settled (parse tokens) := by
  unfold parse parseWithin
  split
  · exact settled_error ⟨rfl, by simp⟩
  have hbudget : need .expression tokens.length ≤ ampleBudget tokens.length := by
    simp only [need, ampleBudget]
    omega
  have hread : Settled (expression (ampleBudget tokens.length) tokens) :=
    reader_settles _ hbudget ⟨Nat.le_refl tokens.length, h⟩
  refine hread.bind ?_
  rintro ⟨node, rest⟩ hnode
  obtain ⟨s, heq, hderives, _⟩ := reader_sound (ampleBudget tokens.length) .expression hnode
  cases rest with
  | cons t rest => exact settled_error ⟨rfl, by simp⟩
  | nil =>
    have hdepth := hderives.depth_le
    have hlength := congrArg List.length heq
    rw [List.length_map] at hdepth
    rw [List.length_append, List.length_nil] at hlength
    refine Settled.bind (checkArrays_settled _ ?_) fun _ _ => settled_ok _
    unfold ampleBudget
    omega

/-- The tree of a list of tokens is the one that the grammar gives it. -/
theorem parse_eq_ok_iff {tokens : List Token} {tree : Node} :
    parse tokens = .ok tree ↔ IsFormula (tokens.map Token.terminal) tree :=
  ⟨isFormula_of_parseWithin, parse_of_isFormula⟩

/-- A token that stands at no place of a text, for each terminal. -/
def token (x : Terminal) : Token :=
  ⟨x.kind, match x with | .number text | .word text | .operator text => text | _ => "",
    Token.nowhere⟩

theorem map_terminal_token (s : List Terminal) : (s.map token).map Token.terminal = s := by
  rw [List.map_map]
  conv => rhs; rw [← List.map_id s]
  refine List.map_congr_left fun x _ => ?_
  cases x <;> rfl

/-- Terminals have one tree at most on each level. -/
theorem Derives.unique {level : Level} {s : List Terminal} {tree other : Node}
    (h : Derives level s tree) (hother : Derives level s other) (hfit : tree.CallsFit)
    (hotherfit : other.CallsFit) : tree = other := by
  have hread := (reads_of_derives h hfit).1 (Nat.le_refl _) (map_terminal_token s)
    (stops_nil level)
  have hreadother := (reads_of_derives hother hotherfit).1 (Nat.le_refl _) (map_terminal_token s)
    (stops_nil level)
  rw [hread] at hreadother
  cases hreadother
  rfl

/-- The parser decides the grammar. It gives a list of lexemes the tree that the grammar gives it,
and refuses the list when there is none; no list has two trees, and only terminals matter. -/
theorem parse_decides {tokens : List Token} (h : ∀ t ∈ tokens, t.IsLexeme) :
    (∀ tree, parse tokens = .ok tree ↔ IsFormula (tokens.map Token.terminal) tree) ∧
    ((∀ tree, ¬ IsFormula (tokens.map Token.terminal) tree) →
      ∃ fault, parse tokens = .error fault ∧ fault.IsRefusal) ∧
    (∀ s tree other, IsFormula s tree → IsFormula s other → tree = other) ∧
    ∀ moved : List Token, moved.map Token.terminal = tokens.map Token.terminal →
      ∀ tree, parse moved = .ok tree ↔ parse tokens = .ok tree := by
  refine ⟨fun tree => parse_eq_ok_iff, fun hnone => ?_, ?_, ?_⟩
  · cases hparse : parse tokens with
    | ok tree => exact absurd (parse_eq_ok_iff.mp hparse) (hnone tree)
    | error fault => exact ⟨fault, rfl, parse_settled h fault hparse⟩
  · rintro s tree other ⟨hderives, hfit, _⟩ ⟨hother, hotherfit, _⟩
    exact hderives.unique hother hfit hotherfit
  · intro moved hmoved tree
    rw [parse_eq_ok_iff, parse_eq_ok_iff, hmoved]

/-- A conditional between an array and an array with a sign in it, at places out of order. -/
theorem parse_decides_conditional :
    ∃ tree, parse [⟨.identifier, "rb", 9⟩, ⟨.question, "?", 2⟩, ⟨.leftBracket, "[", 0⟩,
        ⟨.number, "0.5", 7⟩, ⟨.rightBracket, "]", 1⟩, ⟨.colon, ":", 3⟩, ⟨.leftBracket, "[", 8⟩,
        ⟨.operator, "-", 4⟩, ⟨.number, "2", 5⟩, ⟨.rightBracket, "]", 6⟩] = .ok tree ∧
      IsFormula [.word "rb", .question, .leftBracket, .number "0.5", .rightBracket, .colon,
        .leftBracket, .operator "-", .number "2", .rightBracket] tree := by
  obtain ⟨tree, htree⟩ : ∃ tree, parse [⟨.identifier, "rb", 9⟩, ⟨.question, "?", 2⟩,
      ⟨.leftBracket, "[", 0⟩, ⟨.number, "0.5", 7⟩, ⟨.rightBracket, "]", 1⟩, ⟨.colon, ":", 3⟩,
      ⟨.leftBracket, "[", 8⟩, ⟨.operator, "-", 4⟩, ⟨.number, "2", 5⟩,
      ⟨.rightBracket, "]", 6⟩] = .ok tree := exists_eq_ok (by decide +kernel)
  refine ⟨tree, htree, ((parse_decides fun t ht => ?_).1 tree).mp htree⟩
  simp only [List.mem_cons, List.not_mem_nil, or_false] at ht
  rcases ht with rfl | rfl | rfl | rfl | rfl | rfl | rfl | rfl | rfl | rfl
  · exact ⟨'r', ['b'], rfl, rfl, List.all_eq_true.mp rfl⟩
  · rfl
  · rfl
  · exact ⟨['0'], ['.', '5'], rfl, List.cons_ne_nil _ _, List.all_eq_true.mp rfl,
      Or.inr ⟨['5'], rfl, List.cons_ne_nil _ _, List.all_eq_true.mp rfl⟩⟩
  · rfl
  · rfl
  · rfl
  · exact ⟨.sub, rfl⟩
  · exact ⟨['2'], [], rfl, List.cons_ne_nil _ _, List.all_eq_true.mp rfl, Or.inl rfl⟩
  · rfl

end Grammar

end LayerBlend
