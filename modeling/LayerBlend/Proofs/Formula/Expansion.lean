import LayerBlend.Proofs.Formula.Brackets
import LayerBlend.Proofs.Formula.Compilation

/-!
# Formulas with layer shorthands are four formulas

The tokens of such a formula are copied, once for each component, between the brackets and commas of
one array, before anything is known of how they parse.

* `Token.select_like` — the copies differ in the names of channels only.
* `Grammar.copies_of_isFormula` — when the array is a formula with three or four values, its items
  are the copies: the commas outside brackets are counted, and equally many stand in each copy, so
  there are none.
* `Grammar.isFormula_of_copies` — when the copies are expressions without arrays, the array is a
  formula.
* `Engine.Splits engine trees` — the values of `engine` are those of four trees, clipped.
* `compile_shorthand` — a formula with shorthands compiles exactly when its red copy is an
  expression without arrays, and then it splits into the trees of its copies.
-/

namespace LayerBlend

/-! ## Copies of tokens -/

/-- The choice of a component among four things. -/
def Component.pick {β : Type} (red green blue alpha : β) : Component → β
  | .red => red
  | .green => green
  | .blue => blue
  | .alpha => alpha

/-- Terminals are like themselves when channels are. -/
theorem Terminal.like_refl {R : Channel → Channel → Prop} (h : ∀ c, R c c) (x : Terminal) :
    x.Like R x := by
  by_cases hx : ∃ c : Channel, x = .word c.name
  · obtain ⟨c, rfl⟩ := hx
    exact .channel (h c)
  · exact .same fun c hc => hx ⟨c, hc⟩

namespace Token

/-- A token has the same class in every copy. -/
@[simp] theorem kind_select (c : Component) (t : Token) : (t.select c).kind = t.kind := by
  unfold select
  split <;> rfl

/-- A token differs between two copies in the name of a channel, if at all. -/
theorem select_like (c d : Component) (t : Token) :
    (t.select c).Like (fun _ _ => True) (t.select d) := by
  unfold select
  split
  · exact Terminal.like_refl (fun _ => trivial) t.terminal
  · next side hside =>
    have hkind : t.kind = .identifier := by
      unfold side? at hside
      split at hside
      · assumption
      · cases hside
    simp only [Like, terminal, hkind]
    exact .channel trivial

end Token

/-- Copies are like one another. -/
theorem tokensLike_copies (c d : Component) (tokens : List Token) :
    TokensLike (fun _ _ => True) (tokens.map (Token.select c)) (tokens.map (Token.select d)) := by
  induction tokens with
  | nil => exact .nil
  | cons t tokens ih => exact .cons (t.select_like c d) ih

namespace Grammar

/-- The terminals of one copy of tokens. -/
def copy (tokens : List Token) (c : Component) : List Terminal :=
  (tokens.map (Token.select c)).map Token.terminal

/-- The terminals of an expansion are the copies between brackets, with commas between them. -/
theorem terminals_expandShorthand {tokens : List Token} (h : usesShorthand tokens = true) :
    (expandShorthand tokens).map Token.terminal =
      .leftBracket ::
        (List.intercalate [.comma] (Component.all.map (copy tokens)) ++ [.rightBracket]) := by
  unfold expandShorthand
  rw [if_pos h]
  simp [Component.all, List.intercalate, copy, Token.terminal, Token.openingBracket,
    Token.closingBracket, Token.separator]

/-- The classes of a copy are those of the tokens. -/
theorem kinds_copy (tokens : List Token) (c : Component) :
    (copy tokens c).map Terminal.kind = tokens.map Token.kind := by
  simp only [copy, List.map_map]
  refine List.map_congr_left fun t _ => ?_
  show (t.select c).terminal.kind = t.kind
  rw [← Token.kind_eq rfl, Token.kind_select]

/-- When the copies with commas between them are three or four phrases, they are four. -/
theorem length_eq_four {tokens : List Token} {parts : List (List Terminal)}
    (h : List.intercalate [.comma] (Component.all.map (copy tokens)) =
      List.intercalate [.comma] parts)
    (hparts : ∀ s ∈ parts, Closed s) (hlength : parts.length = 3 ∨ parts.length = 4) :
    parts.length = 4 ∧ ∀ c, Closed (copy tokens c) := by
  have hmem : ∀ s ∈ Component.all.map (copy tokens),
      net s = net (copy tokens .red) ∧ commas 0 s = commas 0 (copy tokens .red) := by
    intro s hs
    obtain ⟨c, _, rfl⟩ := List.mem_map.mp hs
    have hkinds := (kinds_copy tokens c).trans (kinds_copy tokens .red).symm
    exact ⟨net_congr hkinds, commas_congr 0 hkinds⟩
  have hfour : (Component.all.map (copy tokens)).length = 4 := rfl
  -- four times what one copy opens is what the parts open, which is nothing
  have hnet : net (copy tokens .red) = 0 := by
    have hcopies := net_intercalate fun s hs => (hmem s hs).1
    rw [h, net_intercalate fun s hs => (hparts s hs).net, hfour] at hcopies
    omega
  -- the copies have four times as many commas outside brackets as one, and three between them
  have hall : Component.all.map (copy tokens) ≠ [] := List.cons_ne_nil _ _
  have hcount := commas_intercalate hall (fun s hs => (hmem s hs).1.trans hnet)
    fun s hs => (hmem s hs).2
  have hne : parts ≠ [] := by
    rintro rfl
    simp at hlength
  rw [h, commas_intercalate hne (fun s hs => (hparts s hs).net) fun s hs => (hparts s hs).commas]
    at hcount
  have hlengths : parts.length * (0 + 1) = 4 * (commas 0 (copy tokens .red) + 1) := hcount
  refine ⟨by omega, fun c => ?_⟩
  obtain ⟨hc, hk⟩ :=
    hmem _ (List.mem_map_of_mem (f := copy tokens) (a := c) (by cases c <;> decide))
  exact ⟨hc.trans hnet, by omega⟩

/-- When the expansion of tokens is a formula with three or four values, its items are the copies of
the tokens, each of them an expression without arrays. -/
theorem copies_of_isFormula {tokens : List Token} {tree : Node} {n : Nat}
    (hshorthand : usesShorthand tokens = true)
    (h : IsFormula ((expandShorthand tokens).map Token.terminal) tree)
    (harity : tree.resultArity = some n) (hn : n = 3 ∨ n = 4) :
    n = 4 ∧ ∃ trees : Component → Node, tree = .array (Component.all.map trees) ∧
      ∀ c, IsFormula (copy tokens c) (trees c) ∧ (trees c).ArrayFree := by
  obtain ⟨hderives, hcalls, hplaced⟩ := h
  rw [terminals_expandShorthand hshorthand] at hderives
  obtain ⟨items, _, hitems, hterminals, rfl⟩ := hderives.exists_items rfl hplaced
  rw [Node.callsFit_array] at hcalls
  rw [Node.arraysPlaced_array] at hplaced
  have heq := List.append_cancel_right hterminals
  have hclosed : ∀ s ∈ items.map Prod.fst, Closed s := by
    intro s hs
    obtain ⟨item, hitem, rfl⟩ := List.mem_map.mp hs
    exact (hitems item hitem).closed
  have hlength : (items.map Prod.fst).length = n := by
    simpa [Node.resultArity] using harity
  obtain ⟨hfour, hcopies⟩ := length_eq_four heq hclosed (hlength ▸ hn)
  have hparts : Component.all.map (copy tokens) = items.map Prod.fst := by
    refine intercalate_injective hfour.symm (fun s hs => ?_) hclosed heq
    obtain ⟨c, _, rfl⟩ := List.mem_map.mp hs
    exact hcopies c
  refine ⟨hlength.symm.trans hfour, ?_⟩
  obtain ⟨trees, rfl⟩ : ∃ trees : Component → Node,
      items = Component.all.map fun c => (copy tokens c, trees c) := by
    have hlengths := congrArg List.length hparts
    obtain _ | ⟨r, _ | ⟨g, _ | ⟨b, _ | ⟨a, _ | ⟨_, _⟩⟩⟩⟩⟩ := items
    case cons.cons.cons.cons.nil =>
      simp only [Component.all, List.map_cons, List.map_nil, List.cons.injEq, and_true] at hparts ⊢
      obtain ⟨hr, hg, hb, ha⟩ := hparts
      refine ⟨Component.pick r.2 g.2 b.2 a.2, ?_⟩
      simp only [hr, hg, hb, ha, Component.pick, and_self]
    all_goals simp [Component.all] at hlengths
  refine ⟨trees, by simp, fun c => ?_⟩
  have hmem : (copy tokens c, trees c) ∈ Component.all.map fun c => (copy tokens c, trees c) :=
    List.mem_map_of_mem (f := fun c => (copy tokens c, trees c)) (by cases c <;> decide)
  have hnode := List.mem_map_of_mem (f := Prod.snd) hmem
  have hfree := hplaced _ hnode
  exact ⟨⟨hitems _ hmem, hcalls _ hnode, hfree.arraysPlaced⟩, hfree⟩

/-- An operand is an expression. -/
theorem Derives.expression {s : List Terminal} {tree : Node} (h : Derives .primary s tree) :
    Derives .expression s tree :=
  .tighter (by decide) (.tighter (by decide) (.tighter (by decide) (.tighter (by decide)
    (.tighter (by decide) h))))

/-- When the copies of tokens are expressions without arrays, the expansion of the tokens is a
formula. -/
theorem isFormula_of_copies {tokens : List Token} {trees : Component → Node}
    (hshorthand : usesShorthand tokens = true)
    (h : ∀ c, IsFormula (copy tokens c) (trees c) ∧ (trees c).ArrayFree) :
    IsFormula ((expandShorthand tokens).map Token.terminal)
      (.array (Component.all.map trees)) := by
  have hitems : ∀ item ∈ Component.all.map fun c => (copy tokens c, trees c),
      Derives .expression item.1 item.2 := by
    intro item hitem
    obtain ⟨c, _, rfl⟩ := List.mem_map.mp hitem
    exact (h c).1.1
  have hderives : Derives .primary
      (.leftBracket ::
        (List.intercalate [.comma] (Component.all.map (copy tokens)) ++ [.rightBracket]))
      (.array (Component.all.map trees)) := .array (List.cons_ne_nil _ _) hitems
  rw [terminals_expandShorthand hshorthand]
  refine ⟨hderives.expression, Node.callsFit_array.mpr fun tree htree => ?_,
    Node.arraysPlaced_array.mpr fun tree htree => ?_⟩
  · obtain ⟨c, _, rfl⟩ := List.mem_map.mp htree
    exact (h c).1.2.1
  · obtain ⟨c, _, rfl⟩ := List.mem_map.mp htree
    exact (h c).2

/-- When one copy of tokens is an expression without arrays, all are. -/
theorem isFormula_copies {tokens : List Token} {tree : Node} {c : Component}
    (h : parse (tokens.map (Token.select c)) = .ok tree) (hfree : tree.ArrayFree) :
    ∃ trees : Component → Node, ∀ d, IsFormula (copy tokens d) (trees d) ∧ (trees d).ArrayFree := by
  refine Classical.axiomOfChoice
    (r := fun d tree => IsFormula (copy tokens d) tree ∧ tree.ArrayFree) fun d => ?_
  obtain ⟨other, hother, hlike⟩ := parse_like (tokensLike_copies c d tokens) h
  exact ⟨other, parse_eq_ok_iff.mp hother, hfree.of_like hlike⟩

end Grammar

/-! ## Compiled expansions -/

/-- The outcomes of several expressions, each with its value changed by a function. -/
theorem Node.map_mapM {β γ : Type} (f : Node → Except EvalFault β) (g : β → γ)
    (nodes : List Node) :
    (nodes.mapM f).map (List.map g) = nodes.mapM fun node => (f node).map g := by
  induction nodes with
  | nil => rfl
  | cons node nodes ih =>
    rw [List.mapM_cons, List.mapM_cons, ← ih]
    cases f node with
    | error cause => rfl
    | ok value => cases nodes.mapM f <;> rfl

/-- The values of a compiled formula are those of four expressions, one for each component, each
clipped into `[0, 1]`. -/
structure Engine.Splits (engine : Engine) (trees : Component → Node) : Prop where
  /-- The tree is the array of the four. -/
  tree : engine.tree = .array (Component.all.map trees)
  /-- There are four values. -/
  arity : engine.arity = 4
  /-- The values are those of the four, in the order of the components, evaluated below the
  array. -/
  call : ∀ {α : Type} [Arithmetic α] (channels : Channels α), engine.call channels =
    Component.all.mapM fun c =>
      ((trees c).samplesWithin channels (nestingLimit - 2)).map (Samples.map Arithmetic.normalize)
  /-- Each of the four has a value when all channels that are given have one shape, within the
  nesting levels of its evaluation. -/
  samples : ∀ {α : Type} [Arithmetic α] {channels : Channels α} {S : Shape},
    channels.Uniform S → ∀ c, ∃ block, (trees c).samples channels = .ok block ∧ block.Fits S ∧
      (trees c).samplesWithin channels (nestingLimit - 2) =
        within (nestingLimit - 2) ((trees c).levels channels) (.ok block)

open Grammar in
/-- A formula with shorthands, within the limit on nesting levels, compiles exactly when its red
copy is an expression without arrays. Then it splits into the trees of its four copies. -/
theorem compile_shorthand {text : String} {tokens : List Token}
    (htokens : tokenize text = .ok tokens) (hshorthand : usesShorthand tokens = true)
    (hlimit : compile text ≠ .error (.badSyntax .tooDeep)) :
    ((∃ engine, compile text = .ok engine) ↔
      ∃ tree, parse (tokens.map (Token.select .red)) = .ok tree ∧ tree.ArrayFree) ∧
    ∀ engine, compile text = .ok engine → ∃ trees : Component → Node,
      (∀ c, parse (tokens.map (Token.select c)) = .ok (trees c) ∧ (trees c).ArrayFree) ∧
      engine.Splits trees := by
  have hsplits : ∀ engine, compile text = .ok engine → ∃ trees : Component → Node,
      (∀ c, parse (tokens.map (Token.select c)) = .ok (trees c) ∧ (trees c).ArrayFree) ∧
      engine.Splits trees := by
    intro engine hengine
    obtain ⟨others, hothers, hparse, harity, hn⟩ := compile_eq_ok hengine
    obtain rfl : tokens = others := Except.ok.inj (htokens.symm.trans hothers)
    obtain ⟨hfour, trees, htree, hcopies⟩ :=
      copies_of_isFormula hshorthand (isFormula_of_parseWithin hparse) harity hn
    refine ⟨trees, fun c => ⟨parse_eq_ok_iff.mpr (hcopies c).1, (hcopies c).2⟩, htree, hfour,
      fun channels => ?_, fun hS c => ?_⟩
    · have hmap := Node.map_mapM (Node.samplesWithin channels (Engine.nestingLimit - 2))
        (Samples.map Arithmetic.normalize) (Component.all.map trees)
      have hvalue : engine.tree.valueWithin channels Engine.nestingLimit =
          ((Component.all.map trees).mapM
            (Node.samplesWithin channels (Engine.nestingLimit - 2))).map .parts := by
        rw [htree]
        rfl
      rw [Engine.call, hvalue]
      refine Eq.trans ?_ (hmap.trans List.mapM_map)
      cases (Component.all.map trees).mapM
        (Node.samplesWithin channels (Engine.nestingLimit - 2)) <;> rfl
    · obtain ⟨block, hblock, hrep⟩ :=
        Node.samples_represents hS (hcopies c).2 (hcopies c).1.2.1
      exact ⟨block, hblock, hrep.1, Node.samplesWithin_eq _ hblock⟩
  refine ⟨⟨?_, ?_⟩, hsplits⟩
  · rintro ⟨engine, hengine⟩
    obtain ⟨trees, htrees, _⟩ := hsplits engine hengine
    exact ⟨trees .red, htrees .red⟩
  · rintro ⟨tree, htree, hfree⟩
    obtain ⟨trees, htrees⟩ := isFormula_copies htree hfree
    rcases compile_of_isFormula htokens (isFormula_of_copies hshorthand htrees) rfl (Or.inr rfl)
      with hok | hdeep
    · exact ⟨_, hok⟩
    · exact absurd hdeep hlimit

/-- A conditional over shorthands. -/
theorem compile_shorthand_conditional :
    ∃ tokens engine trees, tokenize "as ? max(B, T) / 2 : 1 - B" = .ok tokens ∧
      compile "as ? max(B, T) / 2 : 1 - B" = .ok engine ∧
      (∀ c, parse (tokens.map (Token.select c)) = .ok (trees c) ∧ (trees c).ArrayFree) ∧
      engine.Splits trees := by
  obtain ⟨tokens, htokens⟩ : ∃ tokens, tokenize "as ? max(B, T) / 2 : 1 - B" = .ok tokens :=
    exists_eq_ok (by decide +kernel)
  obtain ⟨engine, hengine⟩ : ∃ engine, compile "as ? max(B, T) / 2 : 1 - B" = .ok engine :=
    exists_eq_ok (by decide +kernel)
  have hshorthand : (tokenize "as ? max(B, T) / 2 : 1 - B").map usesShorthand = .ok true := by
    decide +kernel
  rw [htokens] at hshorthand
  have hlimit : compile "as ? max(B, T) / 2 : 1 - B" ≠ .error (.badSyntax .tooDeep) := by
    rw [hengine]
    simp
  obtain ⟨trees, htrees, hsplits⟩ :=
    (compile_shorthand htokens (Except.ok.inj hshorthand) hlimit).2 engine hengine
  exact ⟨tokens, engine, trees, htokens, hengine, htrees, hsplits⟩

end LayerBlend
