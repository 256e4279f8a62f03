import LayerBlend.Proofs.Formula.ParserRefusals
import Mathlib.Data.List.Forall2

/-!
# What the outcome of the parser depends on

* `Terminal.Like R`, `Node.Like R` — terminals and trees that are the same but for channels, which
  are related by `R`. `TokensLike R` says so of the terminals of tokens, whatever their positions.
* `Agree S x y` — `x` is stopped by the limit on nesting levels, or both outcomes are values related
  by `S`, or both are faults.
* `Grammar.reader_agrees` — with a budget that is not smaller, a reader does with like tokens what
  it does with the tokens, and so does the parser (`Grammar.parseWithin_agrees`).
* `Grammar.parseWithin_of_terminals` — so positions do not matter to a tree.
* `Grammar.parseWithin_of_parse` — a formula is parsed within any budget, or exceeds it.
-/

namespace LayerBlend

/-! ## Likeness -/

/-- Two terminals are the same, or the names of related channels. -/
inductive Terminal.Like (R : Channel → Channel → Prop) : Terminal → Terminal → Prop
  /-- The same terminal, no channel. -/
  | same {x : Terminal} : (∀ c : Channel, x ≠ .word c.name) → Like R x x
  /-- Related channels. -/
  | channel {c d : Channel} : R c d → Like R (.word c.name) (.word d.name)

/-- The terminals of two tokens are alike. -/
def Token.Like (R : Channel → Channel → Prop) (t u : Token) : Prop :=
  t.terminal.Like R u.terminal

/-- Two lists of tokens are alike place by place. -/
abbrev TokensLike (R : Channel → Channel → Prop) : List Token → List Token → Prop :=
  List.Forall₂ (Token.Like R)

namespace Node

mutual

/-- Two trees are the same, but for channels that are related. -/
def Like (R : Channel → Channel → Prop) : Node → Node → Prop
  | .number v, .number w => v = w
  | .channel c, .channel d => R c d
  | .call f xs, .call g ys => f = g ∧ LikeAll R xs ys
  | .binary op a b, .binary other c d => op = other ∧ Like R a c ∧ Like R b d
  | .choose a b c, .choose x y z => Like R a x ∧ Like R b y ∧ Like R c z
  | .array xs, .array ys => LikeAll R xs ys
  | _, _ => False

/-- Two lists of trees are alike place by place. -/
def LikeAll (R : Channel → Channel → Prop) : List Node → List Node → Prop
  | [], [] => True
  | x :: xs, y :: ys => Like R x y ∧ LikeAll R xs ys
  | _, _ => False

end

end Node

variable {R : Channel → Channel → Prop}

namespace Terminal

/-- Terminals are alike up to equality of channels exactly when they are the same. -/
theorem like_eq_iff {x y : Terminal} : x.Like Eq y ↔ x = y := by
  constructor
  · intro h
    cases h with
    | same _ => rfl
    | channel h => rw [h]
  · rintro rfl
    by_cases h : ∃ c : Channel, x = .word c.name
    · obtain ⟨c, rfl⟩ := h
      exact .channel rfl
    · exact .same fun c hc => h ⟨c, hc⟩

/-- Terminals that are alike have one class. -/
theorem Like.kind_eq {x y : Terminal} (h : x.Like R y) : x.kind = y.kind := by
  cases h <;> rfl

end Terminal

/-- Tokens with the same terminals are alike. -/
theorem tokensLike_eq {tokens others : List Token}
    (h : tokens.map Token.terminal = others.map Token.terminal) : TokensLike Eq tokens others := by
  induction tokens generalizing others with
  | nil =>
    obtain rfl : others = [] := List.map_eq_nil_iff.mp h.symm
    exact .nil
  | cons t tokens ih =>
    obtain ⟨u, others, rfl, hu, hothers⟩ := List.map_eq_cons_iff.mp h.symm
    exact .cons (Terminal.like_eq_iff.mpr hu.symm) (ih hothers.symm)

namespace Token

/-- Tokens that are alike have one class. -/
theorem Like.kind_eq {t u : Token} (h : t.Like R u) : t.kind = u.kind := by
  rw [Token.kind_eq (t := t) rfl, Token.kind_eq (t := u) rfl]
  exact Terminal.Like.kind_eq h

/-- Tokens that are alike and no names have the same terminal. -/
theorem Like.terminal_eq {t u : Token} (h : t.Like R u) (hkind : t.kind ≠ .identifier) :
    t.terminal = u.terminal := by
  unfold Like at h
  generalize hx : t.terminal = x at h
  generalize u.terminal = y at h
  cases h with
  | same _ => rfl
  | channel _ => exact absurd (Token.kind_eq hx) hkind

end Token

namespace Node

theorem likeAll_iff {xs ys : List Node} : LikeAll R xs ys ↔ List.Forall₂ (Like R) xs ys := by
  induction xs generalizing ys with
  | nil => cases ys <;> simp [LikeAll]
  | cons x xs ih => cases ys <;> simp [LikeAll, ih]

/-- Induction over two trees that are alike. -/
theorem like_induct {motive : Node → Node → Prop}
    (number : ∀ value, motive (.number value) (.number value))
    (channel : ∀ c d, R c d → motive (.channel c) (.channel d))
    (call : ∀ f xs ys, List.Forall₂ motive xs ys → motive (.call f xs) (.call f ys))
    (binary : ∀ op a b c d, motive a c → motive b d → motive (.binary op a b) (.binary op c d))
    (choose : ∀ a b c x y z, motive a x → motive b y → motive c z →
      motive (.choose a b c) (.choose x y z))
    (array : ∀ xs ys, List.Forall₂ motive xs ys → motive (.array xs) (.array ys)) :
    ∀ {a b : Node}, a.Like R b → motive a b := by
  have hall : ∀ {xs ys : List Node}, (∀ x ∈ xs, ∀ {y}, x.Like R y → motive x y) →
      List.Forall₂ (Like R) xs ys → List.Forall₂ motive xs ys := by
    intro xs ys hxs h
    induction h with
    | nil => exact .nil
    | cons hxy _ ih =>
      rw [List.forall_mem_cons] at hxs
      exact .cons (hxs.1 hxy) (ih hxs.2)
  intro a
  induction a using Node.induct with
  | number v =>
    intro b h
    cases b with
    | number w =>
      simp only [Like] at h
      exact h ▸ number v
    | _ => simp [Like] at h
  | channel c =>
    intro b h
    cases b with
    | channel d =>
      simp only [Like] at h
      exact channel c d h
    | _ => simp [Like] at h
  | call f xs ih =>
    intro b h
    cases b with
    | call g ys =>
      simp only [Like, likeAll_iff] at h
      exact h.1 ▸ call f xs ys (hall ih h.2)
    | _ => simp [Like] at h
  | binary op left right ihl ihr =>
    intro b h
    cases b with
    | binary other c d =>
      simp only [Like] at h
      exact h.1 ▸ binary op left right c d (ihl h.2.1) (ihr h.2.2)
    | _ => simp [Like] at h
  | choose condition positive negative ihc ihp ihn =>
    intro b h
    cases b with
    | choose x y z =>
      simp only [Like] at h
      exact choose _ _ _ x y z (ihc h.1) (ihp h.2.1) (ihn h.2.2)
    | _ => simp [Like] at h
  | array xs ih =>
    intro b h
    cases b with
    | array ys =>
      simp only [Like, likeAll_iff] at h
      exact array xs ys (hall ih h)
    | _ => simp [Like] at h

/-- Trees that are alike up to equality of channels are the same. -/
theorem eq_of_like {a b : Node} (h : a.Like Eq b) : a = b := by
  refine like_induct (motive := fun a b => a = b) ?number ?channel ?call ?binary ?choose ?array h
  case number => exact fun value => rfl
  case channel => exact fun c d hcd => congrArg Node.channel hcd
  case call =>
    intro f xs ys hall
    rw [List.forall₂_eq_eq_eq] at hall
    rw [hall]
  case binary => exact fun op a b c d ha hb => by rw [ha, hb]
  case choose => exact fun a b c x y z ha hb hc => by rw [ha, hb, hc]
  case array =>
    intro xs ys hall
    rw [List.forall₂_eq_eq_eq] at hall
    rw [hall]

/-- A tree that is like one without arrays has none. -/
theorem ArrayFree.of_like {a b : Node} (hfree : a.ArrayFree) (h : a.Like R b) : b.ArrayFree := by
  have hlist : ∀ {xs ys : List Node},
      List.Forall₂ (fun x y : Node => x.ArrayFree → y.ArrayFree) xs ys →
      (∀ x ∈ xs, x.ArrayFree) → ∀ y ∈ ys, y.ArrayFree := by
    intro xs ys hall
    induction hall with
    | nil => exact id
    | cons hxy _ ih =>
      simp only [List.forall_mem_cons]
      exact And.imp hxy ih
  refine like_induct (motive := fun a b => a.ArrayFree → b.ArrayFree) ?number ?channel ?call
    ?binary ?choose ?array h hfree
  case number => exact fun value => id
  case channel => exact fun c d _ _ => arrayFree_channel d
  case call =>
    intro f xs ys hall
    rw [arrayFree_call, arrayFree_call]
    exact hlist hall
  case binary =>
    intro op a b c d ha hb
    rw [arrayFree_binary, arrayFree_binary]
    exact And.imp ha hb
  case choose =>
    intro a b c x y z ha hb hc
    rw [arrayFree_choose, arrayFree_choose]
    exact And.imp ha (And.imp hb hc)
  case array => exact fun xs ys _ h => absurd h (not_arrayFree_array xs)

end Node

/-! ## Outcomes that agree -/

/-- Two faults say the same of like tokens; neither is the limit on nesting levels. -/
inductive SyntaxFault.Like (R : Channel → Channel → Prop) : SyntaxFault → SyntaxFault → Prop
  /-- The formula ends. -/
  | unexpectedEnd : Like R .unexpectedEnd .unexpectedEnd
  /-- Like tokens cannot stand where they do. -/
  | unexpected {t u : Token} : t.Like R u → Like R (.unexpected t) (.unexpected u)
  /-- The formula ends where something must follow. -/
  | expectedEnd (wanted : Wanted) : Like R (.expected wanted none) (.expected wanted none)
  /-- Like tokens stand where something else must follow. -/
  | expected (wanted : Wanted) {t u : Token} : t.Like R u →
      Like R (.expected wanted (some t)) (.expected wanted (some u))
  /-- A function is called with a number of arguments that it does not take. -/
  | argumentCount (f : Builtin) (count : Nat) (p q : Int) :
      Like R (.argumentCount f count p) (.argumentCount f count q)
  /-- An array stands inside an expression. -/
  | misplacedArray : Like R .misplacedArray .misplacedArray
  /-- Like tokens are no literals. -/
  | notANumber {t u : Token} : t.Like R u → Like R (.notANumber t) (.notANumber u)

/-- The first outcome is stopped by the limit on nesting levels, or both are related values, or
both are faults that say the same. -/
inductive Agree (R : Channel → Channel → Prop) {α β : Type} (S : α → β → Prop) :
    Except SyntaxFault α → Except SyntaxFault β → Prop
  /-- The limit is reached. -/
  | tooDeep (y : Except SyntaxFault β) : Agree R S (.error .tooDeep) y
  /-- Related values. -/
  | ok {a : α} {b : β} : S a b → Agree R S (.ok a) (.ok b)
  /-- Faults that say the same. -/
  | error {e e' : SyntaxFault} : e.Like R e' → Agree R S (.error e) (.error e')

/-- Steps that agree are followed by steps that agree. -/
theorem Agree.bind {α β γ δ : Type} {S : α → β → Prop} {S' : γ → δ → Prop}
    {x : Except SyntaxFault α} {y : Except SyntaxFault β} {f : α → Except SyntaxFault γ}
    {g : β → Except SyntaxFault δ} (h : Agree R S x y)
    (hnext : ∀ a b, S a b → Agree R S' (f a) (g b)) : Agree R S' (x >>= f) (y >>= g) := by
  cases h with
  | tooDeep y => exact .tooDeep _
  | ok hab => exact hnext _ _ hab
  | error he => exact .error he

namespace Grammar

open LayerBlend.Parser

/-- What a reader gives and what it leaves, for two lists of tokens. -/
def LikeRead (R : Channel → Channel → Prop) (a b : Node × List Token) : Prop :=
  a.1.Like R b.1 ∧ TokensLike R a.2 b.2

/-- Several trees and what is left behind them. -/
def LikeReads (R : Channel → Channel → Prop) (a b : List Node × List Token) : Prop :=
  List.Forall₂ (Node.Like R) a.1 b.1 ∧ TokensLike R a.2 b.2

/-- Two readers do the same with like tokens. -/
def ReadersAgree (R : Channel → Channel → Prop) (read other : Reader) : Prop :=
  ∀ ⦃tokens others⦄, TokensLike R tokens others → Agree R (LikeRead R) (read tokens) (other others)

/-! ## Single tokens -/

/-- What is expected next is there in both lists or in none. -/
theorem expect_agrees (kind : TokenKind) (wanted : Wanted) {tokens others : List Token}
    (h : TokensLike R tokens others) :
    Agree R (TokensLike R) (expect kind wanted tokens) (expect kind wanted others) := by
  cases h with
  | nil => exact .error (.expectedEnd wanted)
  | cons htu hrest =>
    rw [expect, expect, htu.kind_eq]
    split
    · exact .ok hrest
    · exact .error (.expected wanted htu)

/-- Like tokens are the same operator. -/
theorem operator?_like {t u : Token} (h : t.Like R u) (operators : List BinaryOperator) :
    operator? operators t = operator? operators u := by
  by_cases hkind : t.kind = .operator
  · have hterminal := h.terminal_eq (by rw [hkind]; decide)
    have ht : t.terminal = .operator t.text := by rw [Token.terminal, hkind]
    unfold operator?
    rw [if_pos hkind, if_pos (h.kind_eq ▸ hkind),
      Token.text_eq_operator (hterminal.symm.trans ht)]
  · rw [operator?_of_kind hkind, operator?_of_kind (h.kind_eq ▸ hkind)]

/-! ## Chains and lists -/

/-- Chains of operators agree when their operands do. -/
theorem chain_agrees {operators : List BinaryOperator} {operand other : Reader}
    (hop : ReadersAgree R operand other) (fuel : Nat) :
    ∀ {left left' : Node} {tokens others : List Token}, left.Like R left' →
      TokensLike R tokens others →
      Agree R (LikeRead R) (chain operators operand fuel left tokens)
        (chain operators other fuel left' others) := by
  induction fuel with
  | zero =>
    intro left left' tokens others hleft h
    simp only [chain]
    exact .ok ⟨hleft, h⟩
  | succ fuel ih =>
    intro left left' tokens others hleft h
    cases h with
    | nil =>
      simp only [chain]
      exact .ok ⟨hleft, .nil⟩
    | cons htu hrest =>
      rw [chain, chain, operator?_like htu]
      split
      · exact .ok ⟨hleft, .cons htu hrest⟩
      · refine (hop hrest).bind ?_
        rintro ⟨right, rest⟩ ⟨right', rest'⟩ ⟨hright, hmore⟩
        refine ih ?_ hmore
        simp only [Node.Like]
        exact ⟨trivial, hleft, hright⟩

/-- Operands with operators between them agree when the operands do. -/
theorem operands_agree {operators : List BinaryOperator} {operand other : Reader}
    (hop : ReadersAgree R operand other) :
    ReadersAgree R (operands operators operand) (operands operators other) := by
  intro tokens others h
  refine (hop h).bind ?_
  rintro ⟨first, rest⟩ ⟨first', rest'⟩ ⟨hfirst, hrest⟩
  show Agree R _ (chain _ _ rest.length _ _) (chain _ _ rest'.length _ _)
  rw [hrest.length_eq]
  exact chain_agrees hop _ hfirst hrest

/-- Further items of a list agree when the items do. -/
theorem moreItems_agrees {item other : Reader} (hitem : ReadersAgree R item other) (fuel : Nat) :
    ∀ {tokens others : List Token}, TokensLike R tokens others →
      Agree R (LikeReads R) (moreItems item fuel tokens) (moreItems other fuel others) := by
  induction fuel with
  | zero =>
    intro tokens others h
    simp only [moreItems]
    exact .ok ⟨.nil, h⟩
  | succ fuel ih =>
    intro tokens others h
    cases h with
    | nil =>
      simp only [moreItems]
      exact .ok ⟨.nil, .nil⟩
    | cons htu hrest =>
      rw [moreItems, moreItems, htu.kind_eq]
      split
      · refine (hitem hrest).bind ?_
        rintro ⟨node, rest⟩ ⟨node', rest'⟩ ⟨hnode, hmore⟩
        refine (ih hmore).bind ?_
        rintro ⟨nodes, rest⟩ ⟨nodes', rest'⟩ ⟨hnodes, hleft⟩
        exact .ok ⟨.cons hnode hnodes, hleft⟩
      · exact .ok ⟨.nil, .cons htu hrest⟩

/-- The items of a list agree when each does. -/
theorem items_agree {item other : Reader} (hitem : ReadersAgree R item other)
    {tokens others : List Token} (h : TokensLike R tokens others) :
    Agree R (LikeReads R) (items item tokens) (items other others) := by
  refine (hitem h).bind ?_
  rintro ⟨first, rest⟩ ⟨first', rest'⟩ ⟨hfirst, hrest⟩
  show Agree R _ (moreItems _ rest.length _ >>= _) (moreItems _ rest'.length _ >>= _)
  rw [hrest.length_eq]
  refine (moreItems_agrees hitem _ hrest).bind ?_
  rintro ⟨nodes, rest⟩ ⟨nodes', rest'⟩ ⟨hnodes, hleft⟩
  exact .ok ⟨.cons hfirst hnodes, hleft⟩

/-- The arguments of a call agree when each does. -/
theorem arguments_agree {item other : Reader} (hitem : ReadersAgree R item other)
    {tokens others : List Token} (h : TokensLike R tokens others) :
    Agree R (LikeReads R) (arguments item tokens) (arguments other others) := by
  have hhead : tokens.head?.any (·.kind = .rightParen) =
      others.head?.any (·.kind = .rightParen) := by
    cases h with
    | nil => rfl
    | cons htu _ => simp [htu.kind_eq]
  unfold arguments
  rw [hhead]
  split
  · refine .ok ⟨.nil, ?_⟩
    cases h with
    | nil => exact .nil
    | cons _ hrest => exact hrest
  · refine (items_agree hitem h).bind ?_
    rintro ⟨args, rest⟩ ⟨args', rest'⟩ ⟨hargs, hrest⟩
    exact (expect_agrees _ _ hrest).bind fun _ _ hleft => .ok ⟨hargs, hleft⟩

/-- Calls agree when their arguments do. -/
theorem call_agrees {item other : Reader} (hitem : ReadersAgree R item other) (f : Builtin)
    (name name' : Token) : ReadersAgree R (call item f name) (call other f name') := by
  intro tokens others h
  refine (expect_agrees _ _ h).bind fun rest rest' hrest => ?_
  refine (arguments_agree hitem hrest).bind ?_
  rintro ⟨args, rest⟩ ⟨args', rest'⟩ ⟨hargs, hleft⟩
  show Agree R _ (if f.accepts args.length then _ else _) (if f.accepts args'.length then _ else _)
  rw [hargs.length_eq]
  split
  · refine .ok ⟨?_, hleft⟩
    simp only [Node.Like]
    exact ⟨trivial, Node.likeAll_iff.mpr hargs⟩
  · exact .error (.argumentCount f _ _ _)

/-! ## Levels -/

/-- Expressions agree when their parts do. -/
theorem expression_agrees {budget more : Nat}
    (hcomparison : ReadersAgree R (comparison budget) (comparison more))
    (hexpression : ReadersAgree R (expression budget) (expression more)) :
    ReadersAgree R (expression (budget + 1)) (expression (more + 1)) := by
  intro tokens others h
  rw [expression, expression]
  refine (hcomparison h).bind ?_
  rintro ⟨condition, rest⟩ ⟨condition', rest'⟩ ⟨hcondition, hrest⟩
  cases hrest with
  | nil => exact .ok ⟨hcondition, .nil⟩
  | @cons t u branches branches' htu hbranches =>
    show Agree R _ (if t.kind = .question then _ else _) (if u.kind = .question then _ else _)
    rw [htu.kind_eq]
    split
    · refine (hexpression hbranches).bind ?_
      rintro ⟨positive, rest⟩ ⟨positive', rest'⟩ ⟨hpositive, hrest⟩
      refine (expect_agrees _ _ hrest).bind fun rest rest' hrest => ?_
      refine (hexpression hrest).bind ?_
      rintro ⟨negative, rest⟩ ⟨negative', rest'⟩ ⟨hnegative, hrest⟩
      refine .ok ⟨?_, hrest⟩
      simp only [Node.Like]
      exact ⟨hcondition, hpositive, hnegative⟩
    · exact .ok ⟨hcondition, .cons htu hbranches⟩

/-- Trees that are alike are so with the same sign in front of them. -/
theorem applySign_like (sign : BinaryOperator) {a b : Node} (h : a.Like R b) :
    (applySign sign a).Like R (applySign sign b) := by
  unfold applySign
  split
  · simp only [Node.Like]
    exact ⟨trivial, trivial, h⟩
  · exact h

/-- Signed operands agree when the operands do. -/
theorem unary_agrees {budget more : Nat} (hunary : ReadersAgree R (unary budget) (unary more))
    (hprimary : ReadersAgree R (primary budget) (primary more)) :
    ReadersAgree R (unary (budget + 1)) (unary (more + 1)) := by
  intro tokens others h
  cases h with
  | nil =>
    rw [unary, unary]
    exact hprimary .nil
  | cons htu hrest =>
    rw [unary, unary, sign?, sign?, operator?_like htu]
    split
    · exact hprimary (.cons htu hrest)
    · refine (hunary hrest).bind ?_
      rintro ⟨operand, rest⟩ ⟨operand', rest'⟩ ⟨hoperand, hmore⟩
      exact .ok ⟨applySign_like _ hoperand, hmore⟩

/-- A word is read like a word that is the same or names a related channel. -/
theorem word_agrees {budget more : Nat} {t u : Token} (htu : t.Like R u)
    (hkind : t.kind = .identifier)
    (hcall : ∀ f, ReadersAgree R (functionCall budget f t) (functionCall more f u)) :
    ReadersAgree R (fun rest => primary (budget + 1) (t :: rest))
      (fun rest => primary (more + 1) (u :: rest)) := by
  intro rest rest' h
  have ht : t.terminal = .word t.text := by rw [Token.terminal, hkind]
  have hukind : u.kind = .identifier := htu.kind_eq ▸ hkind
  have hu : u.terminal = .word u.text := by rw [Token.terminal, hukind]
  have hlike : Terminal.Like R (.word t.text) (.word u.text) := ht ▸ hu ▸ htu
  simp only [primary, hkind, hukind]
  generalize t.text = name at hlike
  generalize u.text = other at hlike
  cases hlike with
  | same hother =>
    have hnone : Channel.ofName? name = none := by
      cases hc : Channel.ofName? name with
      | none => rfl
      | some c => exact absurd (congrArg Terminal.word (Channel.eq_name_of_ofName? hc)) (hother c)
    rw [hnone]
    cases Builtin.ofName? name with
    | none => exact .error (.unexpected htu)
    | some f => exact hcall f h
  | @channel c d hcd =>
    rw [Channel.ofName?_name, Channel.ofName?_name]
    exact .ok ⟨by simpa only [Node.Like] using hcd, h⟩

/-- Primaries agree when the expressions inside them do. -/
theorem primary_agrees {budget more : Nat}
    (hexpression : ReadersAgree R (expression budget) (expression more))
    (hcall : ∀ f name name', ReadersAgree R (functionCall budget f name)
      (functionCall more f name')) :
    ReadersAgree R (primary (budget + 1)) (primary (more + 1)) := by
  intro tokens others h
  cases h with
  | nil => exact .error .unexpectedEnd
  | @cons t u rest rest' htu hrest =>
    cases hkind : t.kind with
    | identifier => exact word_agrees htu hkind (fun f => hcall f t u) hrest
    | number =>
      have hterminal := htu.terminal_eq (by rw [hkind]; decide)
      have ht : t.terminal = .number t.text := by rw [Token.terminal, hkind]
      rw [primary, primary, ← htu.kind_eq, hkind]
      simp only [Token.text_eq_number (hterminal.symm.trans ht)]
      split
      · exact .ok ⟨by simp only [Node.Like], hrest⟩
      · exact .error (.notANumber htu)
    | leftParen =>
      rw [primary, primary, ← htu.kind_eq, hkind]
      refine (hexpression hrest).bind ?_
      rintro ⟨node, rest⟩ ⟨node', rest'⟩ ⟨hnode, hmore⟩
      exact (expect_agrees _ _ hmore).bind fun _ _ hleft => .ok ⟨hnode, hleft⟩
    | leftBracket =>
      rw [primary, primary, ← htu.kind_eq, hkind]
      refine (items_agree hexpression hrest).bind ?_
      rintro ⟨nodes, rest⟩ ⟨nodes', rest'⟩ ⟨hnodes, hmore⟩
      refine (expect_agrees _ _ hmore).bind fun _ _ hleft => .ok ⟨?_, hleft⟩
      simp only [Node.Like]
      exact Node.likeAll_iff.mpr hnodes
    | operator | rightParen | rightBracket | comma | question | colon =>
      rw [primary, primary, ← htu.kind_eq, hkind]
      exact .error (.unexpected htu)

/-- With a budget that is not smaller, a reader does with like tokens what it does with the tokens,
or had to stop at the limit. -/
theorem reader_agrees (budget : Nat) :
    ∀ {more : Nat} (level : Level), budget ≤ more →
      ReadersAgree R (reader level budget) (reader level more) := by
  induction budget using Nat.strongRecOn with
  | ind budget ih =>
    intro more level hle
    match level, budget, more with
    | .expression, 0, _ | .comparison, 0, _ | .comparison, 1, _ | .additive, 0, _
    | .additive, 1, _ | .multiplicative, 0, _ | .multiplicative, 1, _ | .unary, 0, _
    | .primary, 0, _ =>
      intro tokens others _
      exact .tooDeep _
    | .expression, budget + 1, more + 1 =>
      exact expression_agrees (ih budget (by omega) .comparison (by omega))
        (ih budget (by omega) .expression (by omega))
    | .comparison, budget + 2, more + 2 =>
      exact operands_agree (ih budget (by omega) .additive (by omega))
    | .additive, budget + 2, more + 2 =>
      exact operands_agree (ih budget (by omega) .multiplicative (by omega))
    | .multiplicative, budget + 2, more + 2 =>
      exact operands_agree (ih budget (by omega) .unary (by omega))
    | .unary, budget + 1, more + 1 =>
      exact unary_agrees (ih budget (by omega) .unary (by omega))
        (ih budget (by omega) .primary (by omega))
    | .primary, budget + 1, more + 1 =>
      refine primary_agrees (ih budget (by omega) .expression (by omega)) fun f name name' => ?_
      match budget, more with
      | 0, _ =>
        intro tokens others _
        exact .tooDeep _
      | budget + 1, more + 1 =>
        exact call_agrees (ih budget (by omega) .expression (by omega)) f name name'

/-! ## Positions of arrays -/

/-- Checks of several trees agree when each does. -/
theorem forM_agrees {check other : Node → Except SyntaxFault Unit} {nodes others : List Node}
    (h : List.Forall₂ (Node.Like R) nodes others)
    (hcheck : ∀ node node', node.Like R node' → Agree R Eq (check node) (other node')) :
    Agree R Eq (nodes.forM check) (others.forM other) := by
  induction h with
  | nil => exact .ok rfl
  | cons hnode _ ih => exact (hcheck _ _ hnode).bind fun _ _ _ => ih

/-- The check of trees that are alike agrees. -/
theorem checkArrays_agrees (budget : Nat) :
    ∀ {more : Nat} {result : Bool} {tree other : Node}, budget ≤ more → tree.Like R other →
      Agree R Eq (checkArrays budget result tree) (checkArrays more result other) := by
  induction budget with
  | zero => exact fun _ _ => .tooDeep _
  | succ budget ih =>
    intro more result tree other hle h
    obtain ⟨more, rfl⟩ : ∃ m, more = m + 1 := ⟨more - 1, by omega⟩
    have hle : budget ≤ more := by omega
    cases tree <;> cases other <;> simp only [Node.Like, Node.likeAll_iff] at h
    case number | channel => exact .ok rfl
    case call =>
      rw [checkArrays, checkArrays]
      exact forM_agrees h.2 fun _ _ => ih hle
    case binary =>
      rw [checkArrays, checkArrays]
      exact (ih hle h.2.1).bind fun _ _ _ => ih hle h.2.2
    case choose =>
      rw [checkArrays, checkArrays]
      exact (ih hle h.1).bind fun _ _ _ => (ih hle h.2.1).bind fun _ _ _ => ih hle h.2.2
    case array =>
      rw [checkArrays, checkArrays]
      split
      · exact forM_agrees h fun _ _ => ih hle
      · exact .error .misplacedArray

/-! ## Formulas -/

/-- With a budget that is not smaller, like tokens have like trees, unless the tokens exceed their
budget. -/
theorem parseWithin_agrees {budget more : Nat} {tokens others : List Token} (hle : budget ≤ more)
    (h : TokensLike R tokens others) :
    Agree R (Node.Like R) (parseWithin budget tokens) (parseWithin more others) := by
  unfold parseWithin
  have hempty : tokens.isEmpty = others.isEmpty := by cases h <;> rfl
  rw [hempty]
  split
  · exact .error .unexpectedEnd
  refine (reader_agrees budget .expression hle h).bind ?_
  rintro ⟨node, rest⟩ ⟨node', rest'⟩ ⟨hnode, hrest⟩
  cases hrest with
  | nil => exact (checkArrays_agrees budget hle hnode).bind fun _ _ _ => .ok hnode
  | cons htu _ => exact .error (.unexpected htu)

/-- Tokens with the same terminals have the same tree. -/
theorem parseWithin_of_terminals {budget : Nat} {tokens others : List Token} {tree : Node}
    (hterminals : tokens.map Token.terminal = others.map Token.terminal)
    (h : parseWithin budget tokens = .ok tree) : parseWithin budget others = .ok tree := by
  have hagree := parseWithin_agrees (Nat.le_refl budget) (tokensLike_eq hterminals)
  rw [h] at hagree
  generalize parseWithin budget others = outcome at hagree
  cases hagree with
  | ok hlike => rw [Node.eq_of_like hlike]

/-- A formula is parsed within any budget, or exceeds it. -/
theorem parseWithin_of_parse {budget : Nat} {tokens : List Token} {tree : Node}
    (h : parse tokens = .ok tree) :
    parseWithin budget tokens = .ok tree ∨ parseWithin budget tokens = .error .tooDeep := by
  -- both budgets agree with the larger one
  have hself : TokensLike Eq tokens tokens := tokensLike_eq rfl
  have hample := parseWithin_agrees (Nat.le_max_left (ampleBudget tokens.length) budget) hself
  have hbudget := parseWithin_agrees (Nat.le_max_right (ampleBudget tokens.length) budget) hself
  generalize parseWithin (max (ampleBudget tokens.length) budget) tokens = outcome at hample hbudget
  rw [← parse, h] at hample
  generalize parseWithin budget tokens = within at hbudget ⊢
  cases hample with
  | ok hlike =>
    cases hbudget with
    | tooDeep _ => exact Or.inr rfl
    | ok hlike' => exact Or.inl (by rw [Node.eq_of_like hlike', ← Node.eq_of_like hlike])

/-- Like tokens have like trees. -/
theorem parse_like {tokens others : List Token} (h : TokensLike R tokens others) {tree : Node}
    (hparse : parse tokens = .ok tree) :
    ∃ other, parse others = .ok other ∧ tree.Like R other := by
  have hagree := parseWithin_agrees (Nat.le_refl (ampleBudget tokens.length)) h
  rw [← parse, hparse, h.length_eq, ← parse] at hagree
  generalize parse others = outcome at hagree ⊢
  cases hagree with
  | ok hlike => exact ⟨_, rfl, hlike⟩

end Grammar

end LayerBlend
