import LayerBlend.Proofs.Formula.NormalForm

/-!
# What compiling says of any text

* `Lexer.Spells text tokens` — the text consists of one or more tokens; these are the tokens that
  `tokenize` gives it (`Lexer.tokenize_eq_ok_iff`).
* `Engine.Reads text tokens tree` — the text consists of the tokens, and with their layer shorthands
  written out they are a formula with the tree.
* `Node.leaves` — where the conditionals at the result position end. A tree has an arity exactly
  when they end in arrays of one length (`Node.resultArity_eq_some_iff`).
* `Engine.compile_of_reads` — a formula compiles when its arity is three or four and is refused for
  its arity otherwise, unless it exceeds the limit on nesting levels.
* `Engine.probe_of_reads` — trying a formula at one half gives as many values as its tree says.
* `Engine.compile_decides` — within the limit, a text is blank, or holds a piece that is refused, or
  is no formula, or is one of another arity, or compiles, and `compile` says which.
-/

namespace LayerBlend

/-! ## Ends of conditionals -/

namespace Node

/-- Where the conditionals at the result position end. -/
def leaves : Node → List Node
  | .choose _ positive negative => leaves positive ++ leaves negative
  | node => [node]

/-- The conditionals at the result position end in arrays of `n` items. -/
def GivesArrays (tree : Node) (n : Nat) : Prop :=
  ∀ leaf ∈ tree.leaves, ∃ items, leaf = .array items ∧ items.length = n

/-- A tree has an arity exactly when its conditionals end in arrays of that length. -/
theorem resultArity_eq_some_iff {tree : Node} {n : Nat} :
    tree.resultArity = some n ↔ tree.GivesArrays n := by
  unfold GivesArrays
  induction tree using induct with
  | number value => simp [leaves, resultArity]
  | channel c => simp [leaves, resultArity]
  | call f args _ => simp [leaves, resultArity]
  | binary op left right _ _ => simp [leaves, resultArity]
  | array items _ => simp [leaves, resultArity]
  | choose condition positive negative _ ihp ihn =>
    rw [resultArity_choose, ihp, ihn]
    simp only [leaves, List.mem_append, or_imp, forall_and]

end Node

/-! ## Tokens of a text -/

namespace Lexer

/-- A text consists of one or more tokens. -/
def Spells (text : String) (tokens : List Token) : Prop :=
  tokens ≠ [] ∧ Lexes [] 0 text.toList tokens

/-- The tokens of a text are those that it consists of. -/
theorem tokenize_eq_ok_iff {text : String} {tokens : List Token} :
    tokenize text = .ok tokens ↔ Spells text tokens :=
  ⟨lexes_of_tokenize, fun h => tokenize_eq_ok h.1 h.2⟩

end Lexer

/-! ## Refusals within the limit -/

/-- Of two faults that say the same both are refusals or neither is. -/
theorem SyntaxFault.Like.isRefusal_iff {R : Channel → Channel → Prop} {fault other : SyntaxFault}
    (h : fault.Like R other) : fault.IsRefusal ↔ other.IsRefusal := by
  unfold SyntaxFault.IsRefusal
  cases h <;> simp [Fault.ofFormula]

namespace Grammar

/-- Lexemes that are no formula are refused within any budget, or exceed it. -/
theorem parseWithin_of_not_isFormula {budget : Nat} {tokens : List Token}
    (hlexemes : ∀ t ∈ tokens, t.IsLexeme)
    (h : ∀ tree, ¬ IsFormula (tokens.map Token.terminal) tree) :
    ∃ fault, parseWithin budget tokens = .error fault ∧ (fault = .tooDeep ∨ fault.IsRefusal) := by
  -- both budgets agree with the larger one
  have hself : TokensLike Eq tokens tokens := tokensLike_eq rfl
  have hample := parseWithin_agrees (Nat.le_max_left (ampleBudget tokens.length) budget) hself
  have hbudget := parseWithin_agrees (Nat.le_max_right (ampleBudget tokens.length) budget) hself
  generalize parseWithin (max (ampleBudget tokens.length) budget) tokens = outcome at hample hbudget
  rw [← parse] at hample
  cases hwithin : parseWithin budget tokens with
  | ok tree => exact absurd (isFormula_of_parseWithin hwithin) (h tree)
  | error fault =>
    refine ⟨fault, rfl, ?_⟩
    cases hparse : parse tokens with
    | ok tree => exact absurd (parse_eq_ok_iff.mp hparse) (h tree)
    | error refusal =>
      have hrefusal := parse_settled hlexemes refusal hparse
      rw [hparse] at hample
      rw [hwithin] at hbudget
      cases hample with
      | tooDeep _ => exact absurd rfl hrefusal.2
      | error hlike =>
        cases hbudget with
        | tooDeep _ => exact Or.inl rfl
        | error hlike' => exact Or.inr (hlike'.isRefusal_iff.mpr (hlike.isRefusal_iff.mp hrefusal))

end Grammar

/-! ## Stages of compiling -/

namespace Engine

open Grammar

/-- A text consists of tokens, and with their layer shorthands written out they are a formula with a
tree. -/
structure Reads (text : String) (tokens : List Token) (tree : Node) : Prop where
  /-- The text consists of the tokens. -/
  spells : Lexer.Spells text tokens
  /-- Their expansion is a formula. -/
  isFormula : IsFormula ((expandShorthand tokens).map Token.terminal) tree

/-- What is no list of tokens is refused as such. -/
theorem compile_of_tokenize {text : String} {fault : FormulaFault}
    (h : tokenize text = .error fault) : compile text = .error fault := by
  simp [compile, h]

/-- Tokens whose expansion is no formula are refused, or exceed the limit. -/
theorem compile_of_not_isFormula {text : String} {tokens : List Token}
    (htokens : Lexer.Spells text tokens)
    (h : ∀ tree, ¬ IsFormula ((expandShorthand tokens).map Token.terminal) tree) :
    ∃ fault, compile text = .error (.badSyntax fault) ∧ (fault = .tooDeep ∨ fault.IsRefusal) := by
  have htokenize := Lexer.tokenize_eq_ok_iff.mpr htokens
  have hwhole := isWhole_of_mem_expandShorthand (isWhole_of_tokenize htokenize)
  obtain ⟨fault, hfault, hrefusal⟩ : ∃ fault,
      parseWithin nestingLimit (expandShorthand tokens) = .error fault ∧
        (fault = .tooDeep ∨ fault.IsRefusal) :=
    parseWithin_of_not_isFormula (fun t ht => (hwhole t ht).isLexeme) h
  refine ⟨fault, ?_, hrefusal⟩
  simp [compile, htokenize, parseTree, hfault]

/-- A formula whose arity is neither three nor four is refused for it, or exceeds the limit. -/
theorem compile_of_arity {text : String} {tokens : List Token} {tree : Node}
    (h : Reads text tokens tree) (harity : ¬ (tree.GivesArrays 3 ∨ tree.GivesArrays 4)) :
    compile text = .error (.arity tree.resultArity) ∨
      compile text = .error (.badSyntax .tooDeep) := by
  rw [← Node.resultArity_eq_some_iff, ← Node.resultArity_eq_some_iff] at harity
  have hcheck : checkArity tree = .error (.arity tree.resultArity) := by
    unfold checkArity
    split
    · next hthree => exact absurd (Or.inl hthree) harity
    · next hfour => exact absurd (Or.inr hfour) harity
    · rfl
  have hwithin : parseWithin nestingLimit (expandShorthand tokens) = .ok tree ∨
      parseWithin nestingLimit (expandShorthand tokens) = .error .tooDeep :=
    parseWithin_of_parse (parse_of_isFormula h.isFormula)
  have htokenize := Lexer.tokenize_eq_ok_iff.mpr h.spells
  rcases hwithin with hparse | hparse
  · left
    simp [compile, htokenize, parseTree, hparse, hcheck]
  · right
    simp [compile, htokenize, parseTree, hparse]

/-- A formula of three or four values compiles, or exceeds the limit. -/
theorem compile_of_reads {text : String} {tokens : List Token} {tree : Node} {n : Nat}
    (h : Reads text tokens tree) (harity : tree.GivesArrays n) (hn : n = 3 ∨ n = 4) :
    compile text = .ok ⟨text, render (expandShorthand tokens), tree, n⟩ ∨
      compile text = .error (.badSyntax .tooDeep) :=
  compile_of_isFormula (Lexer.tokenize_eq_ok_iff.mpr h.spells) h.isFormula
    (Node.resultArity_eq_some_iff.mpr harity) hn

/-- At one half a formula has as many values as its conditionals end in, and its probe is these
values within the nesting levels of their evaluation. -/
theorem probe_of_reads {text : String} {tokens : List Token} {tree : Node} {n : Nat}
    (h : Reads text tokens tree) (harity : tree.GivesArrays n) :
    ∃ blocks, tree.value Channels.half = .ok (.parts blocks) ∧ blocks.length = n ∧
      tree.probe = within nestingLimit (tree.levels Channels.half) (.ok (.parts blocks)) := by
  obtain ⟨_, hfit, hplaced⟩ := h.isFormula
  exact Node.probe_eq (Node.resultArity_eq_some_iff.mpr harity) hplaced hfit

/-- So the probe changes nothing for a text within the limit. -/
theorem checkProbe_of_reads {text : String} {tokens : List Token} {tree : Node} {n : Nat}
    (hlimit : compile text ≠ .error (.badSyntax .tooDeep)) (h : Reads text tokens tree)
    (harity : tree.GivesArrays n) (hn : n = 3 ∨ n = 4) :
    tree.levels Channels.half ≤ nestingLimit ∧ checkProbe tree n = .ok () := by
  have hcompile := (compile_of_reads h harity hn).resolve_right hlimit
  have hlevels := levels_half_le_of_compile hcompile
  refine ⟨hlevels, ?_⟩
  rw [checkProbe_eq (Node.resultArity_eq_some_iff.mpr harity) h.isFormula.2.2 h.isFormula.2.1]
  exact if_pos hlevels

/-! ## The verdict -/

/-- The five verdicts on a text within the limit, each with its reason. -/
theorem compile_cases {text : String} (hlimit : compile text ≠ .error (.badSyntax .tooDeep)) :
    (compile text = .error .blank ∧ ∀ c ∈ text.toList, Text.isBlank c = true) ∨
    (∃ piece position, compile text = .error (.disallowed piece position) ∧
      Lexer.RefusedAt text.toList piece position) ∨
    (∃ fault tokens, compile text = .error (.badSyntax fault) ∧ fault.IsRefusal ∧
      Lexer.Spells text tokens ∧
      ∀ tree, ¬ IsFormula ((expandShorthand tokens).map Token.terminal) tree) ∨
    (∃ tokens tree, compile text = .error (.arity tree.resultArity) ∧ Reads text tokens tree ∧
      ¬ (tree.GivesArrays 3 ∨ tree.GivesArrays 4)) ∨
    ∃ tokens tree n, compile text = .ok ⟨text, render (expandShorthand tokens), tree, n⟩ ∧
      Reads text tokens tree ∧ tree.GivesArrays n ∧ (n = 3 ∨ n = 4) := by
  rcases Lexer.tokenize_cases text with ⟨hblank, hfault⟩ | ⟨tokens, hne, hlexes, _⟩ |
    ⟨piece, position, hat, hfault⟩
  · exact Or.inl ⟨compile_of_tokenize hfault, List.all_eq_true.mp hblank⟩
  · refine Or.inr (Or.inr ?_)
    have hspells : Lexer.Spells text tokens := ⟨hne, hlexes⟩
    by_cases hformula : ∃ tree, IsFormula ((expandShorthand tokens).map Token.terminal) tree
    · obtain ⟨tree, htree⟩ := hformula
      have hreads : Reads text tokens tree := ⟨hspells, htree⟩
      right
      by_cases harity : tree.GivesArrays 3 ∨ tree.GivesArrays 4
      · obtain ⟨n, hgives, hn⟩ : ∃ n, tree.GivesArrays n ∧ (n = 3 ∨ n = 4) := by
          rcases harity with hthree | hfour
          · exact ⟨3, hthree, Or.inl rfl⟩
          · exact ⟨4, hfour, Or.inr rfl⟩
        rcases compile_of_reads hreads hgives hn with hok | hdeep
        · exact Or.inr ⟨tokens, tree, n, hok, hreads, hgives, hn⟩
        · exact absurd hdeep hlimit
      · rcases compile_of_arity hreads harity with hrefused | hdeep
        · exact Or.inl ⟨tokens, tree, hrefused, hreads, harity⟩
        · exact absurd hdeep hlimit
    · obtain ⟨fault, hfault, hdeep | hrefusal⟩ :=
        compile_of_not_isFormula hspells (not_exists.mp hformula)
      · exact absurd (hdeep ▸ hfault) hlimit
      · exact Or.inl ⟨fault, tokens, hfault, hrefusal, hspells, not_exists.mp hformula⟩
  · exact Or.inr (Or.inl ⟨piece, position, compile_of_tokenize hfault, hat⟩)

/-- A text is refused as blank exactly when it is. -/
theorem compile_eq_blank_iff {text : String} :
    compile text = .error .blank ↔ ∀ c ∈ text.toList, Text.isBlank c = true := by
  constructor
  · intro h
    have hlimit : compile text ≠ .error (.badSyntax .tooDeep) := by
      rw [h]
      simp
    rcases compile_cases hlimit with ⟨_, hblank⟩ | ⟨_, _, h', _⟩ | ⟨_, _, h', _⟩ |
      ⟨_, _, h', _⟩ | ⟨_, _, _, h', _⟩
    · exact hblank
    all_goals cases h.symm.trans h'
  · intro hblank
    exact compile_of_tokenize (if_pos (List.all_eq_true.mpr hblank))

/-- A text is refused at a piece exactly where no token can be made of one. -/
theorem compile_eq_disallowed_iff {text piece : String} {position : Nat} :
    compile text = .error (.disallowed piece position) ↔
      Lexer.RefusedAt text.toList piece position := by
  constructor
  · intro h
    have hlimit : compile text ≠ .error (.badSyntax .tooDeep) := by
      rw [h]
      simp
    rcases compile_cases hlimit with ⟨h', _⟩ | ⟨_, _, h', hat⟩ | ⟨_, _, h', _⟩ |
      ⟨_, _, h', _⟩ | ⟨_, _, _, h', _⟩
    · cases h.symm.trans h'
    · cases h.symm.trans h'
      exact hat
    all_goals cases h.symm.trans h'
  · intro hat
    exact compile_of_tokenize (Lexer.tokenize_of_refusedAt hat)

/-- A text is refused as no formula exactly when its tokens, with their shorthands written out, are
none. -/
theorem compile_eq_badSyntax_iff {text : String}
    (hlimit : compile text ≠ .error (.badSyntax .tooDeep)) :
    (∃ fault, compile text = .error (.badSyntax fault) ∧ fault.IsRefusal) ↔
      ∃ tokens, Lexer.Spells text tokens ∧
        ∀ tree, ¬ IsFormula ((expandShorthand tokens).map Token.terminal) tree := by
  constructor
  · rintro ⟨fault, h, _⟩
    rcases compile_cases hlimit with ⟨h', _⟩ | ⟨_, _, h', _⟩ | ⟨_, tokens, _, _, hspells, hnone⟩ |
      ⟨_, _, h', _⟩ | ⟨_, _, _, h', _⟩
    · cases h.symm.trans h'
    · cases h.symm.trans h'
    · exact ⟨tokens, hspells, hnone⟩
    all_goals cases h.symm.trans h'
  · rintro ⟨tokens, hspells, hnone⟩
    obtain ⟨fault, hfault, rfl | hrefusal⟩ := compile_of_not_isFormula hspells hnone
    · exact absurd hfault hlimit
    · exact ⟨fault, hfault, hrefusal⟩

/-- A text is refused for its arity exactly when it is a formula whose conditionals do not all end
in arrays of three values, or all of four. -/
theorem compile_eq_arity_iff {text : String} {found : Option Nat}
    (hlimit : compile text ≠ .error (.badSyntax .tooDeep)) :
    compile text = .error (.arity found) ↔ ∃ tokens tree, Reads text tokens tree ∧
      ¬ (tree.GivesArrays 3 ∨ tree.GivesArrays 4) ∧ found = tree.resultArity := by
  constructor
  · intro h
    rcases compile_cases hlimit with ⟨h', _⟩ | ⟨_, _, h', _⟩ | ⟨_, _, h', _⟩ |
      ⟨tokens, tree, h', hreads, harity⟩ | ⟨_, _, _, h', _⟩
    · cases h.symm.trans h'
    · cases h.symm.trans h'
    · cases h.symm.trans h'
    · cases h.symm.trans h'
      exact ⟨tokens, tree, hreads, harity, rfl⟩
    · cases h.symm.trans h'
  · rintro ⟨tokens, tree, hreads, harity, rfl⟩
    exact (compile_of_arity hreads harity).resolve_right hlimit

/-- A text compiles exactly when it is a formula whose conditionals all end in arrays of three
values, or all of four. -/
theorem compile_eq_engine_iff {text : String} {engine : Engine}
    (hlimit : compile text ≠ .error (.badSyntax .tooDeep)) :
    compile text = .ok engine ↔ ∃ tokens tree n, Reads text tokens tree ∧
      tree.GivesArrays n ∧ (n = 3 ∨ n = 4) ∧
      engine = ⟨text, render (expandShorthand tokens), tree, n⟩ := by
  constructor
  · intro h
    rcases compile_cases hlimit with ⟨h', _⟩ | ⟨_, _, h', _⟩ | ⟨_, _, h', _⟩ | ⟨_, _, h', _⟩ |
      ⟨tokens, tree, n, h', hreads, hgives, hn⟩
    case inr.inr.inr.inr =>
      cases h.symm.trans h'
      exact ⟨tokens, tree, n, hreads, hgives, hn, rfl⟩
    all_goals cases h.symm.trans h'
  · rintro ⟨tokens, tree, n, hreads, hgives, hn, rfl⟩
    exact (compile_of_reads hreads hgives hn).resolve_right hlimit

/-- Within the limit on nesting levels there are five verdicts on a text. It is refused as blank
exactly when it is; at a piece exactly where no token can be made of one, whatever else is wrong
with the text; as no formula exactly when its tokens, with their shorthands written out, are none;
for its arity exactly when its conditionals do not all end in arrays of three values, or all of
four; and otherwise it compiles. At one half a formula always has as many values as its tree says,
and one that compiles has them within the limit, so that its probe changes nothing. -/
theorem compile_decides {text : String}
    (hlimit : compile text ≠ .error (.badSyntax .tooDeep)) :
    (compile text = .error .blank ↔ ∀ c ∈ text.toList, Text.isBlank c = true) ∧
    (∀ piece position, compile text = .error (.disallowed piece position) ↔
      Lexer.RefusedAt text.toList piece position) ∧
    ((∃ fault, compile text = .error (.badSyntax fault) ∧ fault.IsRefusal) ↔
      ∃ tokens, Lexer.Spells text tokens ∧
        ∀ tree, ¬ IsFormula ((expandShorthand tokens).map Token.terminal) tree) ∧
    (∀ found, compile text = .error (.arity found) ↔ ∃ tokens tree, Reads text tokens tree ∧
      ¬ (tree.GivesArrays 3 ∨ tree.GivesArrays 4) ∧ found = tree.resultArity) ∧
    (∀ engine, compile text = .ok engine ↔ ∃ tokens tree n, Reads text tokens tree ∧
      tree.GivesArrays n ∧ (n = 3 ∨ n = 4) ∧
      engine = ⟨text, render (expandShorthand tokens), tree, n⟩) ∧
    (compile text = .error .blank ∨
      (∃ piece position, compile text = .error (.disallowed piece position)) ∨
      (∃ fault, compile text = .error (.badSyntax fault) ∧ fault.IsRefusal) ∨
      (∃ found, compile text = .error (.arity found)) ∨ ∃ engine, compile text = .ok engine) ∧
    ∀ tokens tree n, Reads text tokens tree → tree.GivesArrays n →
      ∃ blocks, tree.value Channels.half = .ok (.parts blocks) ∧ blocks.length = n ∧
        tree.probe = within nestingLimit (tree.levels Channels.half) (.ok (.parts blocks)) ∧
        (n = 3 ∨ n = 4 → tree.probe = .ok (.parts blocks) ∧ checkProbe tree n = .ok ()) := by
  refine ⟨compile_eq_blank_iff, fun _ _ => compile_eq_disallowed_iff,
    compile_eq_badSyntax_iff hlimit, fun _ => compile_eq_arity_iff hlimit,
    fun _ => compile_eq_engine_iff hlimit, ?_, fun tokens tree n h harity => ?_⟩
  · rcases compile_cases hlimit with ⟨h, _⟩ | ⟨piece, position, h, _⟩ | ⟨fault, _, h, hrefusal, _⟩ |
      ⟨_, tree, h, _⟩ | ⟨tokens, tree, n, h, _⟩
    · exact Or.inl h
    · exact Or.inr (Or.inl ⟨piece, position, h⟩)
    · exact Or.inr (Or.inr (Or.inl ⟨fault, h, hrefusal⟩))
    · exact Or.inr (Or.inr (Or.inr (Or.inl ⟨_, h⟩)))
    · exact Or.inr (Or.inr (Or.inr (Or.inr ⟨_, h⟩)))
  · obtain ⟨blocks, hblocks, hlength, hprobe⟩ := probe_of_reads h harity
    refine ⟨blocks, hblocks, hlength, hprobe, fun hn => ?_⟩
    obtain ⟨hlevels, hcheck⟩ := checkProbe_of_reads hlimit h harity hn
    rw [within_of_le hlevels] at hprobe
    exact ⟨hprobe, hcheck⟩

/-- Conditionals that end in arrays of three and of four values. -/
theorem compile_decides_mixed_arity :
    ∃ tokens tree, Reads "rb ? [gs, 1, 0] : as < 1 ? [1, 2, 3, 4] : [0, 0, 0]" tokens tree ∧
      ¬ (tree.GivesArrays 3 ∨ tree.GivesArrays 4) ∧ tree.resultArity = none := by
  have h : compile "rb ? [gs, 1, 0] : as < 1 ? [1, 2, 3, 4] : [0, 0, 0]" = .error (.arity none) :=
    eq_error_of_map (f := fun _ => ()) (by decide +kernel)
  have hlimit : compile "rb ? [gs, 1, 0] : as < 1 ? [1, 2, 3, 4] : [0, 0, 0]" ≠
      .error (.badSyntax .tooDeep) := by
    rw [h]
    simp
  obtain ⟨tokens, tree, hreads, hgives, hnone⟩ :=
    ((compile_decides hlimit).2.2.2.1 none).mp h
  exact ⟨tokens, tree, hreads, hgives, hnone.symm⟩

end Engine

end LayerBlend
