import LayerBlend.Proofs.Formula.Grammar
import LayerBlend.Proofs.Outcome

/-!
# What the parser accepts is in the grammar

* `Grammar.reader level` — the function of the parser that reads a phrase of `level`.
* `Grammar.Sound level read` — whatever `read` takes off the front of a list of tokens is a phrase
  of `level` with the tree that it gives, and the calls of the tree fit.
* `Grammar.reader_sound` — every reader is sound, whatever its budget.
* `checkArrays_sound` — trees that pass the check have their arrays at the result position.
* `isFormula_of_parseWithin` — so the tree of a list of tokens is one that the grammar gives it.
-/

namespace LayerBlend

namespace Grammar

open LayerBlend.Parser

/-- The function of the parser that reads a phrase of a level. -/
def reader : Level → Nat → Reader
  | .expression => Parser.expression
  | .comparison => Parser.comparison
  | .additive => Parser.additive
  | .multiplicative => Parser.multiplicative
  | .unary => Parser.unary
  | .primary => Parser.primary

/-- Whatever is read off the front of a list of tokens is a phrase of the level, and the calls of
its tree fit. -/
def Sound (level : Level) (read : Reader) : Prop :=
  ∀ ⦃tokens tree rest⦄, read tokens = .ok (tree, rest) → ∃ s, tokens = s ++ rest ∧
    Derives level (s.map Token.terminal) tree ∧ tree.CallsFit

/-! ## Single tokens -/

/-- A token that is read as an operator of a list is that operator. -/
theorem operator?_eq_some {operators : List BinaryOperator} {t : Token} {op : BinaryOperator}
    (h : operator? operators t = some op) :
    op ∈ operators ∧ t.terminal = .operator op.symbol := by
  unfold operator? at h
  split at h
  · next hkind =>
    refine ⟨List.mem_of_find?_eq_some h, ?_⟩
    have hsymbol := List.find?_some h
    rw [beq_iff_eq] at hsymbol
    rw [Token.terminal, hkind, hsymbol]
  · cases h

/-- A token that is expected comes first. -/
theorem expect_eq_ok {kind : TokenKind} {wanted : Wanted} {tokens rest : List Token}
    (h : expect kind wanted tokens = .ok rest) : ∃ t, tokens = t :: rest ∧ t.kind = kind := by
  cases tokens with
  | nil => cases h
  | cons t others =>
    simp only [expect] at h
    split at h
    · next hkind =>
      cases h
      exact ⟨t, rfl, hkind⟩
    · cases h

/-! ## Chains of operators -/

/-- What follows the operand `left` of a chain extends its phrase. -/
theorem chain_sound {level : Level} {operand : Reader} (hop : Sound level.tighter operand)
    (fuel : Nat) :
    ∀ {front tokens rest : List Token} {left tree : Node},
      Derives level (front.map Token.terminal) left → left.CallsFit →
      chain level.operators operand fuel left tokens = .ok (tree, rest) →
      ∃ s, tokens = s ++ rest ∧ Derives level ((front ++ s).map Token.terminal) tree ∧
        tree.CallsFit := by
  induction fuel with
  | zero =>
    intro front tokens rest left tree hleft hfit h
    simp only [chain] at h
    cases h
    exact ⟨[], rfl, by rwa [List.append_nil], hfit⟩
  | succ fuel ih =>
    intro front tokens rest left tree hleft hfit h
    cases tokens with
    | nil =>
      simp only [chain] at h
      cases h
      exact ⟨[], rfl, by rwa [List.append_nil], hfit⟩
    | cons t tokens =>
      rw [chain] at h
      split at h
      · cases h
        exact ⟨[], rfl, by rwa [List.append_nil], hfit⟩
      · next op hop' =>
        obtain ⟨hmem, hterminal⟩ := operator?_eq_some hop'
        obtain ⟨⟨right, tokens'⟩, hright, hmore⟩ := bind_eq_ok.mp h
        obtain ⟨u, rfl, hu, hufit⟩ := hop hright
        have hext : Derives level ((front ++ t :: u).map Token.terminal)
            (.binary op left right) := by
          rw [List.map_append, List.map_cons, hterminal]
          exact .binary hmem hleft hu
        obtain ⟨s, rfl, hs, hsfit⟩ := ih hext (Node.callsFit_binary.mpr ⟨hfit, hufit⟩) hmore
        refine ⟨t :: (u ++ s), by simp, ?_, hsfit⟩
        simpa using hs

/-- Operands with operators between them are a phrase. -/
theorem operands_sound {level : Level} {operand : Reader} (hlevel : level ≠ .primary)
    (hop : Sound level.tighter operand) : Sound level (operands level.operators operand) := by
  intro tokens tree rest h
  obtain ⟨⟨first, tokens'⟩, hfirst, hmore⟩ := bind_eq_ok.mp h
  obtain ⟨u, rfl, hu, hufit⟩ := hop hfirst
  obtain ⟨s, rfl, hs, hsfit⟩ := chain_sound hop _ (.tighter hlevel hu) hufit hmore
  exact ⟨u ++ s, by rw [List.append_assoc], hs, hsfit⟩

/-! ## Lists of items -/

/-- What follows the first item of a list is further phrases, with a comma in front of each. -/
theorem moreItems_sound {item : Reader} (hitem : Sound .expression item) (fuel : Nat) :
    ∀ {tokens rest : List Token} {nodes : List Node},
      moreItems item fuel tokens = .ok (nodes, rest) →
      ∃ (s : List Token) (parts : List (List Terminal × Node)), tokens = s ++ rest ∧
        s.map Token.terminal = (parts.map Prod.fst).flatMap (Terminal.comma :: ·) ∧
        nodes = parts.map Prod.snd ∧
        ∀ part ∈ parts, Derives .expression part.1 part.2 ∧ part.2.CallsFit := by
  induction fuel with
  | zero =>
    intro tokens rest nodes h
    simp only [moreItems] at h
    cases h
    exact ⟨[], [], rfl, rfl, rfl, by simp⟩
  | succ fuel ih =>
    intro tokens rest nodes h
    cases tokens with
    | nil =>
      simp only [moreItems] at h
      cases h
      exact ⟨[], [], rfl, rfl, rfl, by simp⟩
    | cons t tokens =>
      rw [moreItems] at h
      split at h
      · next hkind =>
        obtain ⟨⟨node, tokens'⟩, hnode, hmore⟩ := bind_eq_ok.mp h
        obtain ⟨⟨others, tokens''⟩, hothers, hpure⟩ := bind_eq_ok.mp hmore
        cases hpure
        obtain ⟨u, rfl, hu, hufit⟩ := hitem hnode
        obtain ⟨s, parts, rfl, hs, rfl, hparts⟩ := ih hothers
        refine ⟨t :: (u ++ s), (u.map Token.terminal, node) :: parts, by simp, ?_, rfl, ?_⟩
        · have : t.terminal = .comma := by rw [Token.terminal, hkind]
          simp [this, hs]
        · intro part hpart
          rcases List.mem_cons.mp hpart with rfl | hpart
          · exact ⟨hu, hufit⟩
          · exact hparts part hpart
      · cases h
        exact ⟨[], [], rfl, rfl, rfl, by simp⟩

/-- The items of a list are phrases with commas between them. -/
theorem items_sound {item : Reader} (hitem : Sound .expression item) {tokens rest : List Token}
    {nodes : List Node} (h : items item tokens = .ok (nodes, rest)) :
    ∃ (s : List Token) (parts : List (List Terminal × Node)), tokens = s ++ rest ∧
      s.map Token.terminal = List.intercalate [.comma] (parts.map Prod.fst) ∧
      nodes = parts.map Prod.snd ∧ parts ≠ [] ∧
      ∀ part ∈ parts, Derives .expression part.1 part.2 ∧ part.2.CallsFit := by
  obtain ⟨⟨first, tokens'⟩, hfirst, hmore⟩ := bind_eq_ok.mp h
  obtain ⟨⟨others, tokens''⟩, hothers, hpure⟩ := bind_eq_ok.mp hmore
  cases hpure
  obtain ⟨u, rfl, hu, hufit⟩ := hitem hfirst
  obtain ⟨s, parts, rfl, hs, rfl, hparts⟩ := moreItems_sound hitem _ hothers
  refine ⟨u ++ s, (u.map Token.terminal, first) :: parts, by simp, ?_, rfl, by simp, ?_⟩
  · rw [List.map_append, hs, List.map_cons, intercalate_comma_cons]
  · intro part hpart
    rcases List.mem_cons.mp hpart with rfl | hpart
    · exact ⟨hu, hufit⟩
    · exact hparts part hpart

/-- The arguments of a call are phrases with commas between them, and a closing parenthesis. -/
theorem arguments_sound {item : Reader} (hitem : Sound .expression item)
    {tokens rest : List Token} {nodes : List Node}
    (h : arguments item tokens = .ok (nodes, rest)) :
    ∃ (s : List Token) (parts : List (List Terminal × Node)), tokens = s ++ rest ∧
      s.map Token.terminal = List.intercalate [.comma] (parts.map Prod.fst) ++ [.rightParen] ∧
      nodes = parts.map Prod.snd ∧
      ∀ part ∈ parts, Derives .expression part.1 part.2 ∧ part.2.CallsFit := by
  unfold arguments at h
  split at h
  · next hhead =>
    cases tokens with
    | nil => simp at hhead
    | cons t tokens =>
      cases h
      have hkind : t.kind = .rightParen := by simpa using hhead
      exact ⟨[t], [], rfl, by simp [Token.terminal, hkind, List.intercalate], rfl, by simp⟩
  · obtain ⟨⟨args, tokens'⟩, hargs, hmore⟩ := bind_eq_ok.mp h
    obtain ⟨tokens'', hclose, hpure⟩ := bind_eq_ok.mp hmore
    cases hpure
    obtain ⟨s, parts, rfl, hs, rfl, _, hparts⟩ := items_sound hitem hargs
    obtain ⟨t, rfl, hkind⟩ := expect_eq_ok hclose
    exact ⟨s ++ [t], parts, by simp, by simp [hs, Token.terminal, hkind], rfl, hparts⟩

/-! ## Levels -/

/-- An expression is a comparison chain, or a conditional over one. -/
theorem expression_sound {budget : Nat} (hcomparison : Sound .comparison (comparison budget))
    (hexpression : Sound .expression (expression budget)) :
    Sound .expression (expression (budget + 1)) := by
  intro tokens tree rest h
  rw [Parser.expression] at h
  obtain ⟨⟨condition, tokens'⟩, hcondition, hmore⟩ := bind_eq_ok.mp h
  obtain ⟨s, rfl, hs, hsfit⟩ := hcomparison hcondition
  have hplain : Derives .expression (s.map Token.terminal) condition :=
    .tighter (by decide) hs
  cases tokens' with
  | nil =>
    cases hmore
    exact ⟨s, rfl, hplain, hsfit⟩
  | cons t branches =>
    simp only at hmore
    split at hmore
    · next hquestion =>
      obtain ⟨⟨positive, tokens₁⟩, hpositive, hmore⟩ := bind_eq_ok.mp hmore
      obtain ⟨tokens₂, hexpect, hmore⟩ := bind_eq_ok.mp hmore
      obtain ⟨⟨negative, tokens₃⟩, hnegative, hmore⟩ := bind_eq_ok.mp hmore
      cases hmore
      obtain ⟨u, rfl, hu, hufit⟩ := hexpression hpositive
      obtain ⟨colon, rfl, hcolon⟩ := expect_eq_ok hexpect
      obtain ⟨v, rfl, hv, hvfit⟩ := hexpression hnegative
      refine ⟨s ++ t :: (u ++ colon :: v), by simp, ?_,
        Node.callsFit_choose.mpr ⟨hsfit, hufit, hvfit⟩⟩
      have ht : t.terminal = .question := by rw [Token.terminal, hquestion]
      have hc : colon.terminal = .colon := by rw [Token.terminal, hcolon]
      simp only [List.map_append, List.map_cons, ht, hc]
      exact .conditional hs hu hv
    · cases hmore
      exact ⟨s, rfl, hplain, hsfit⟩

/-- A signed operand is a phrase with the tree that its sign gives it. -/
theorem unary_sound {budget : Nat} (hunary : Sound .unary (unary budget))
    (hprimary : Sound .primary (primary budget)) : Sound .unary (unary (budget + 1)) := by
  intro tokens tree rest h
  cases tokens with
  | nil =>
    rw [Parser.unary] at h
    obtain ⟨s, hnil, hs, hsfit⟩ := hprimary h
    exact ⟨s, hnil, .tighter (by decide) hs, hsfit⟩
  | cons t tokens =>
    rw [Parser.unary] at h
    split at h
    · obtain ⟨s, heq, hs, hsfit⟩ := hprimary h
      exact ⟨s, heq, .tighter (by decide) hs, hsfit⟩
    · next sign hsign =>
      obtain ⟨⟨operand, tokens'⟩, hoperand, hmore⟩ := bind_eq_ok.mp h
      cases hmore
      obtain ⟨s, rfl, hs, hsfit⟩ := hunary hoperand
      obtain ⟨hmem, hterminal⟩ := operator?_eq_some hsign
      refine ⟨t :: s, rfl, ?_⟩
      rw [List.map_cons, hterminal]
      rcases List.mem_cons.mp hmem with rfl | hmem
      · exact ⟨.plus hs, hsfit⟩
      · obtain rfl := List.mem_singleton.mp hmem
        exact ⟨.minus hs, Node.callsFit_binary.mpr ⟨Node.callsFit_number _, hsfit⟩⟩

/-- The rest of a call is a list of arguments that the function takes. -/
theorem functionCall_sound {budget : Nat} (hexpression : Sound .expression (expression budget))
    {f : Builtin} {name : Token} (hname : name.terminal = .word f.name)
    {tokens rest : List Token} {tree : Node}
    (h : functionCall (budget + 1) f name tokens = .ok (tree, rest)) :
    ∃ s, tokens = s ++ rest ∧
      Derives .primary ((name :: s).map Token.terminal) tree ∧ tree.CallsFit := by
  rw [functionCall] at h
  obtain ⟨tokens₁, hopen, hmore⟩ := bind_eq_ok.mp h
  obtain ⟨⟨args, tokens₂⟩, hargs, hmore⟩ := bind_eq_ok.mp hmore
  obtain ⟨t, rfl, hkind⟩ := expect_eq_ok hopen
  obtain ⟨s, parts, rfl, hs, rfl, hparts⟩ := arguments_sound hexpression hargs
  simp only at hmore
  split at hmore
  · next haccepts =>
    cases hmore
    refine ⟨t :: s, rfl, ?_, Node.callsFit_call.mpr ⟨haccepts, ?_⟩⟩
    · have ht : t.terminal = .leftParen := by rw [Token.terminal, hkind]
      simp only [List.map_cons, hname, ht, hs]
      exact .call f fun part hpart => (hparts part hpart).1
    · intro arg harg
      obtain ⟨part, hpart, rfl⟩ := List.mem_map.mp harg
      exact (hparts part hpart).2
  · cases hmore

/-- A primary is a literal, a channel, a call, a parenthesis or an array. -/
theorem primary_sound {budget : Nat} (hexpression : Sound .expression (expression budget))
    (hinner : Sound .expression (expression (budget - 1))) :
    Sound .primary (primary (budget + 1)) := by
  intro tokens tree rest h
  cases tokens with
  | nil => cases h
  | cons t tokens =>
    rw [Parser.primary] at h
    split at h
    · next hkind =>
      split at h
      · next value hvalue =>
        cases h
        refine ⟨[t], rfl, ?_, Node.callsFit_number _⟩
        have ht : t.terminal = .number t.text := by rw [Token.terminal, hkind]
        simp only [List.map_cons, List.map_nil, ht]
        exact .number hvalue
      · cases h
    · next hkind =>
      have ht : t.terminal = .word t.text := by rw [Token.terminal, hkind]
      split at h
      · next c hc =>
        cases h
        refine ⟨[t], rfl, ?_, Node.callsFit_channel _⟩
        simp only [List.map_cons, List.map_nil, ht, Channel.eq_name_of_ofName? hc]
        exact .channel c
      · next f _ hf =>
        rw [Builtin.eq_name_of_ofName? hf] at ht
        cases budget with
        | zero => cases h
        | succ budget =>
          obtain ⟨s, rfl, hs, hsfit⟩ := functionCall_sound hinner ht h
          exact ⟨t :: s, rfl, hs, hsfit⟩
      · cases h
    · next hkind =>
      obtain ⟨⟨node, tokens₁⟩, hnode, hmore⟩ := bind_eq_ok.mp h
      obtain ⟨tokens₂, hexpect, hmore⟩ := bind_eq_ok.mp hmore
      cases hmore
      obtain ⟨s, rfl, hs, hsfit⟩ := hexpression hnode
      obtain ⟨close, rfl, hclose⟩ := expect_eq_ok hexpect
      refine ⟨t :: (s ++ [close]), by simp, ?_, hsfit⟩
      have ht : t.terminal = .leftParen := by rw [Token.terminal, hkind]
      have hc : close.terminal = .rightParen := by rw [Token.terminal, hclose]
      simp only [List.map_append, List.map_cons, List.map_nil, ht, hc]
      exact .parentheses hs
    · next hkind =>
      obtain ⟨⟨nodes, tokens₁⟩, hnodes, hmore⟩ := bind_eq_ok.mp h
      obtain ⟨tokens₂, hexpect, hmore⟩ := bind_eq_ok.mp hmore
      cases hmore
      obtain ⟨s, parts, rfl, hs, rfl, hne, hparts⟩ := items_sound hexpression hnodes
      obtain ⟨close, rfl, hclose⟩ := expect_eq_ok hexpect
      refine ⟨t :: (s ++ [close]), by simp, ?_, Node.callsFit_array.mpr ?_⟩
      · have ht : t.terminal = .leftBracket := by rw [Token.terminal, hkind]
        have hc : close.terminal = .rightBracket := by rw [Token.terminal, hclose]
        simp only [List.map_append, List.map_cons, List.map_nil, ht, hc, hs]
        exact .array hne fun part hpart => (hparts part hpart).1
      · intro item hitem
        obtain ⟨part, hpart, rfl⟩ := List.mem_map.mp hitem
        exact (hparts part hpart).2
    · cases h

/-- Every reader of the parser is sound, whatever its budget. -/
theorem reader_sound (budget : Nat) : ∀ level, Sound level (reader level budget) := by
  induction budget using Nat.strongRecOn with
  | ind budget ih =>
    intro level
    match level, budget with
    | .expression, 0 | .comparison, 0 | .comparison, 1 | .additive, 0 | .additive, 1
    | .multiplicative, 0 | .multiplicative, 1 | .unary, 0 | .primary, 0 =>
      intro tokens tree rest h
      cases h
    | .expression, budget + 1 =>
      exact expression_sound (ih budget (by omega) .comparison) (ih budget (by omega) .expression)
    | .comparison, budget + 2 =>
      exact operands_sound (by decide) (ih budget (by omega) .additive)
    | .additive, budget + 2 =>
      exact operands_sound (by decide) (ih budget (by omega) .multiplicative)
    | .multiplicative, budget + 2 =>
      exact operands_sound (by decide) (ih budget (by omega) .unary)
    | .unary, budget + 1 =>
      exact unary_sound (ih budget (by omega) .unary) (ih budget (by omega) .primary)
    | .primary, budget + 1 =>
      exact primary_sound (ih budget (by omega) .expression)
        (ih (budget - 1) (by omega) .expression)

/-! ## Positions of arrays -/

/-- A check of several trees that passes has passed for each. -/
theorem forM_eq_ok {ε : Type} {check : Node → Except ε Unit} {nodes : List Node}
    (h : nodes.forM check = .ok ()) : ∀ node ∈ nodes, check node = .ok () := by
  induction nodes with
  | nil => simp
  | cons node nodes ih =>
    obtain ⟨_, hnode, hnodes⟩ := bind_eq_ok.mp (List.forM_cons.symm.trans h)
    intro other hother
    rcases List.mem_cons.mp hother with rfl | hother
    · exact hnode
    · exact ih hnodes other hother

/-- A tree that passes the check has no array anywhere, or at the result position only. -/
theorem checkArrays_sound (budget : Nat) :
    ∀ {result : Bool} {tree : Node}, checkArrays budget result tree = .ok () →
      (result = false → tree.ArrayFree) ∧ tree.ArraysPlaced := by
  induction budget with
  | zero =>
    intro result tree h
    cases h
  | succ budget ih =>
    intro result tree h
    cases tree with
    | number value => simp
    | channel c => simp
    | call f args =>
      have hargs : ∀ arg ∈ args, arg.ArrayFree := fun arg harg =>
        (ih (forM_eq_ok h arg harg)).1 rfl
      exact ⟨fun _ => Node.arrayFree_call.mpr hargs, Node.arraysPlaced_call.mpr hargs⟩
    | binary op left right =>
      obtain ⟨_, hleft, hright⟩ := bind_eq_ok.mp h
      have hboth := And.intro ((ih hleft).1 rfl) ((ih hright).1 rfl)
      exact ⟨fun _ => Node.arrayFree_binary.mpr hboth, Node.arraysPlaced_binary.mpr hboth⟩
    | choose condition positive negative =>
      obtain ⟨_, hcondition, hmore⟩ := bind_eq_ok.mp h
      obtain ⟨_, hpositive, hnegative⟩ := bind_eq_ok.mp hmore
      have hc := (ih hcondition).1 rfl
      obtain ⟨hp, hpplaced⟩ := ih hpositive
      obtain ⟨hn, hnplaced⟩ := ih hnegative
      exact ⟨fun hr => Node.arrayFree_choose.mpr ⟨hc, hp hr, hn hr⟩,
        Node.arraysPlaced_choose.mpr ⟨hc, hpplaced, hnplaced⟩⟩
    | array items =>
      rw [checkArrays] at h
      split at h
      · next hresult =>
        refine ⟨fun hfalse => absurd (hresult.symm.trans hfalse) (by decide), ?_⟩
        exact Node.arraysPlaced_array.mpr fun item hitem => (ih (forM_eq_ok h item hitem)).1 rfl
      · cases h

/-- The tree that is parsed, with whatever budget, is one that the grammar gives the tokens. -/
theorem isFormula_of_parseWithin {budget : Nat} {tokens : List Token} {tree : Node}
    (h : parseWithin budget tokens = .ok tree) :
    IsFormula (tokens.map Token.terminal) tree := by
  unfold parseWithin at h
  split at h
  · cases h
  obtain ⟨⟨node, rest⟩, hread, hmore⟩ := bind_eq_ok.mp h
  obtain ⟨s, rfl, hs, hfit⟩ := reader_sound budget .expression hread
  cases rest with
  | cons t rest => cases hmore
  | nil =>
    obtain ⟨_, hcheck, hpure⟩ := bind_eq_ok.mp hmore
    cases hpure
    rw [List.append_nil]
    exact ⟨hs, hfit, (checkArrays_sound budget hcheck).2⟩

end Grammar

end LayerBlend
