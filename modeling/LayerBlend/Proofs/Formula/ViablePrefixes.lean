import LayerBlend.Proofs.Formula.NormalForm
import LayerBlend.Proofs.Formula.ParserStability
import LayerBlend.Proofs.Formula.Tracking

/-!
# Faults point at the first impossible token

* `Grammar.IsSentence s` — the terminals are an expression, whatever the numbers of arguments of its
  calls and wherever its arrays stand.
* `Grammar.read_loosen` — the loosened tokens of a phrase are read to their end, or exceed the
  budget.
* `Grammar.parseWithin_blames` — when the parser finds a token or the end where something else had
  to stand, the tokens in front begin a sentence, and no sentence goes on with what was found.
* `Grammar.parse_blames` — so the parser names the first token with which the tokens begin no
  sentence, or the end of tokens that begin one and are none.
-/

namespace LayerBlend

/-- The place of what is found where something else had to stand. -/
theorem SyntaxFault.position?_of_blamed? {e : SyntaxFault} {found : Option Token}
    (h : e.blamed? = some found) : e.position? = found.map Token.position := by
  cases e <;> cases h <;> rfl

namespace Grammar

open LayerBlend.Parser

/-- The terminals are an expression. -/
def IsSentence (s : List Terminal) : Prop :=
  ∃ tree, Derives .expression s tree

/-- The loosened tokens of a phrase are read to their end within any budget, or exceed it. -/
theorem read_loosen {level : Level} {tokens : List Token} {tree : Node}
    (h : Derives level (tokens.map Token.terminal) tree) (budget : Nat) :
    reader level budget (tokens.map Token.loosen) = .error .tooDeep ∨
      ∃ other, reader level budget (tokens.map Token.loosen) = .ok (other, []) := by
  obtain ⟨other, hread⟩ := exists_read_loosen h (Nat.le_max_right budget (need level tokens.length))
  have hself : TokensLike Eq (tokens.map Token.loosen) (tokens.map Token.loosen) :=
    tokensLike_eq rfl
  have hagree := reader_agrees budget level (Nat.le_max_left budget (need level tokens.length))
    hself
  rw [hread] at hagree
  generalize reader level budget (tokens.map Token.loosen) = outcome at hagree ⊢
  cases hagree with
  | tooDeep _ => exact Or.inl rfl
  | @ok a _ hlike =>
    obtain ⟨node, rest⟩ := a
    obtain rfl : rest = [] := List.forall₂_nil_right_iff.mp hlike.2
    exact Or.inr ⟨node, rfl⟩

/-- A check of several trees fails for one of them. -/
theorem exists_of_forM_eq_error {check : Node → Except SyntaxFault Unit} {nodes : List Node}
    {e : SyntaxFault} (h : nodes.forM check = .error e) :
    ∃ node ∈ nodes, check node = .error e := by
  induction nodes with
  | nil => cases h
  | cons node nodes ih =>
    rcases bind_eq_error.mp (List.forM_cons.symm.trans h) with hnode | ⟨_, _, hnodes⟩
    · exact ⟨node, List.mem_cons_self, hnode⟩
    · obtain ⟨other, hother, hfail⟩ := ih hnodes
      exact ⟨other, List.mem_cons_of_mem node hother, hfail⟩

/-- The check of a tree fails for an array inside an expression, or for the limit on nesting
levels. -/
theorem eq_of_checkArrays (budget : Nat) :
    ∀ {result : Bool} {tree : Node} {e : SyntaxFault}, checkArrays budget result tree = .error e →
      e = .misplacedArray ∨ e = .tooDeep := by
  induction budget with
  | zero =>
    intro result tree e h
    cases h
    exact Or.inr rfl
  | succ budget ih =>
    intro result tree e h
    cases tree with
    | number value => cases h
    | channel c => cases h
    | call f args =>
      obtain ⟨_, _, harg⟩ := exists_of_forM_eq_error h
      exact ih harg
    | binary op left right =>
      rcases bind_eq_error.mp h with hleft | ⟨_, _, hright⟩
      · exact ih hleft
      · exact ih hright
    | choose condition positive negative =>
      rcases bind_eq_error.mp h with hcondition | ⟨_, _, hmore⟩
      · exact ih hcondition
      · rcases bind_eq_error.mp hmore with hpositive | ⟨_, _, hnegative⟩
        · exact ih hpositive
        · exact ih hnegative
    | array items =>
      rw [checkArrays] at h
      split at h
      · obtain ⟨_, _, hitem⟩ := exists_of_forM_eq_error h
        exact ih hitem
      · cases h
        exact Or.inl rfl

/-- Tokens are refused because there are none, by the reader of expressions, for a token that an
expression leaves, or by the check of the tree. -/
theorem parseWithin_eq_error {budget : Nat} {tokens : List Token} {fault : SyntaxFault}
    (h : parseWithin budget tokens = .error fault) :
    (tokens = [] ∧ fault = .unexpectedEnd) ∨ reader .expression budget tokens = .error fault ∨
      (∃ tree t rest, reader .expression budget tokens = .ok (tree, t :: rest) ∧
        fault = .unexpected t) ∨
      fault = .misplacedArray ∨ fault = .tooDeep := by
  unfold parseWithin at h
  split at h
  · next hempty =>
    cases h
    exact Or.inl ⟨List.isEmpty_iff.mp hempty, rfl⟩
  refine Or.inr ?_
  rcases bind_eq_error.mp h with hread | ⟨⟨tree, rest⟩, hread, hmore⟩
  · exact Or.inl hread
  refine Or.inr ?_
  cases rest with
  | cons t rest =>
    cases hmore
    exact Or.inl ⟨tree, t, rest, hread, rfl⟩
  | nil =>
    rcases bind_eq_error.mp hmore with hcheck | ⟨_, _, hpure⟩
    · exact Or.inr (eq_of_checkArrays budget hcheck)
    · cases hpure

/-- When a token or the end is found where something else had to stand, the tokens in front begin a
sentence, and no sentence goes on with what was found. -/
theorem parseWithin_blames {budget : Nat} {tokens : List Token} {fault : SyntaxFault}
    {found : Option Token} (h : parseWithin budget tokens = .error fault)
    (hfound : fault.blamed? = some found) :
    ∃ before after, tokens = before ++ after ∧ after.head? = found ∧ Begins .expression before ∧
      ∀ others : List Token, others.head? = found →
        ¬ IsSentence ((before ++ others).map Token.terminal) := by
  have htracks := reader_follows budget .expression tokens
  rcases parseWithin_eq_error h with
    ⟨rfl, rfl⟩ | hread | ⟨node, t, rest, hread, rfl⟩ | rfl | rfl
  · -- there are no tokens, and no sentence is empty
    cases hfound
    refine ⟨[], [], rfl, rfl, begins_nil .expression, ?_⟩
    rintro others hothers ⟨tree, htree⟩
    obtain rfl := List.head?_eq_none_iff.mp hothers
    obtain ⟨x, u, hnil, _⟩ := htree.exists_first
    cases hnil
  · -- the reader fails, and would fail on the sentence
    obtain ⟨before, after, heq, hafter, hbefore, hfail⟩ := htracks.error hread hfound
    refine ⟨before, after, heq, hafter, hbefore, ?_⟩
    rintro others hothers ⟨tree, htree⟩
    obtain ⟨e, he, herror⟩ := hfail others hothers
    rcases read_loosen htree budget with hdeep | ⟨other, hok⟩
    · cases herror.symm.trans hdeep
      exact he rfl
    · cases herror.symm.trans hok
  · -- the reader leaves a token, and would leave it of the sentence
    cases hfound
    obtain ⟨s, c, rfl, hothers⟩ := htracks.ok hread
    refine ⟨s, t :: rest, rfl, rfl,
      ((reader_sound budget .expression).derives hread).begins, ?_⟩
    rintro others hhead ⟨tree, htree⟩
    rcases read_loosen htree budget with hdeep | ⟨other, hok⟩
    · cases (hothers others hhead).symm.trans hdeep
    · cases others with
      | nil => cases hhead
      | cons u others => cases (hothers (u :: others) hhead).symm.trans hok
  · cases hfound
  · cases hfound

/-- When a token is found where something else had to stand, the tokens in front begin a sentence,
and those up to the token do not. -/
theorem parseWithin_blames_token {budget : Nat} {tokens : List Token} {fault : SyntaxFault}
    {t : Token} (h : parseWithin budget tokens = .error fault)
    (hfound : fault.blamed? = some (some t)) :
    ∃ before after, tokens = before ++ t :: after ∧ Begins .expression before ∧
      ¬ Begins .expression (before ++ [t]) := by
  obtain ⟨before, after, rfl, hafter, hbefore, hnone⟩ := parseWithin_blames h hfound
  obtain ⟨after, rfl⟩ := List.head?_eq_some_iff.mp hafter
  refine ⟨before, after, rfl, hbefore, ?_⟩
  rintro ⟨rest, tree, htree⟩
  -- the terminals that complete the sentence are those of some tokens
  refine hnone (t :: rest.map token) rfl ⟨tree, ?_⟩
  rw [List.map_append, List.map_cons, map_terminal_token]
  simpa using htree

/-- A list of lexemes is refused for the number of arguments of a call or for an array inside an
expression, or for what is found where something else had to stand. -/
theorem exists_blamed {tokens : List Token} (h : ∀ t ∈ tokens, t.IsLexeme) {fault : SyntaxFault}
    (hparse : parse tokens = .error fault)
    (hcount : ∀ f count position, fault ≠ .argumentCount f count position)
    (harrays : fault ≠ .misplacedArray) : ∃ found, fault.blamed? = some found := by
  have hrefusal := parse_settled h fault hparse
  cases fault with
  | unexpectedEnd => exact ⟨none, rfl⟩
  | unexpected t => exact ⟨some t, rfl⟩
  | expected wanted found => exact ⟨found, rfl⟩
  | argumentCount f count position => exact absurd rfl (hcount f count position)
  | misplacedArray => exact absurd rfl harrays
  | tooDeep => exact absurd rfl hrefusal.2
  | notANumber t => cases hrefusal.1

/-- Where the tokens up to one begin a sentence and no longer do with it, the place of the token
tells which of their fronts begin one. -/
theorem begins_take_iff {before after : List Token} {t : Token}
    (hbefore : Begins .expression before)
    (hnot : ¬ Begins .expression (before ++ [t])) {j : Nat}
    (hj : j ≤ (before ++ t :: after).length) :
    Begins .expression ((before ++ t :: after).take j) ↔ j ≤ before.length := by
  constructor
  · intro h
    by_contra hlt
    obtain ⟨more, rfl⟩ : ∃ more, j = before.length + (more + 1) := ⟨j - before.length - 1, by omega⟩
    rw [List.take_length_add_append, List.take_succ_cons, ← List.singleton_append,
      ← List.append_assoc] at h
    exact hnot h.of_append
  · intro hle
    rw [List.take_append_of_le_length hle]
    rw [← List.take_append_drop j before] at hbefore
    exact hbefore.of_append

/-- A fault points at the first impossible token. Unless a call has a wrong number of arguments or
an array stands inside an expression, the parser names the token at a place such that the fronts of
the list up to there begin a sentence, and no longer ones do; or it names the end, and the tokens
begin a sentence but are none. -/
theorem parse_blames {tokens : List Token} (h : ∀ t ∈ tokens, t.IsLexeme) {fault : SyntaxFault}
    (hparse : parse tokens = .error fault)
    (hcount : ∀ f count position, fault ≠ .argumentCount f count position)
    (harrays : fault ≠ .misplacedArray) :
    (∃ k t, tokens[k]? = some t ∧ fault.blamed? = some (some t) ∧
      fault.position? = some t.position ∧
      ∀ j ≤ tokens.length, (Begins .expression (tokens.take j) ↔ j ≤ k)) ∨
    (fault.blamed? = some none ∧ fault.position? = none ∧
      (∃ rest, rest ≠ [] ∧ IsSentence (tokens.map Token.terminal ++ rest)) ∧
      ¬ IsSentence (tokens.map Token.terminal)) := by
  obtain ⟨found, hfound⟩ := exists_blamed h hparse hcount harrays
  have hposition := SyntaxFault.position?_of_blamed? hfound
  cases found with
  | some t =>
    obtain ⟨before, after, rfl, hbefore, hnot⟩ := parseWithin_blames_token hparse hfound
    exact Or.inl ⟨before.length, t, by simp, hfound, hposition,
      fun j => begins_take_iff hbefore hnot⟩
  | none =>
    obtain ⟨before, after, rfl, hafter, hbefore, hnone⟩ := parseWithin_blames hparse hfound
    obtain rfl := List.head?_eq_none_iff.mp hafter
    rw [List.append_nil]
    have hno : ¬ IsSentence (before.map Token.terminal) := by
      simpa using hnone [] rfl
    obtain ⟨rest, tree, htree⟩ := hbefore
    refine Or.inr ⟨hfound, hposition, ⟨rest, ?_, tree, htree⟩, hno⟩
    rintro rfl
    exact hno ⟨tree, by simpa using htree⟩

/-- A closing parenthesis where an array in a conditional in an open call, which has too many
arguments already, wants an operand. -/
theorem parse_blames_nested :
    ∃ tokens, tokenize "abs(rb, gb ? [1 + ) : 2" = .ok tokens ∧
      parse tokens = .error (.unexpected ⟨.rightParen, ")", 18⟩) ∧
      ∃ k : Nat, tokens[k]? = some ⟨.rightParen, ")", 18⟩ ∧
        Begins .expression (tokens.take k) ∧ ¬ Begins .expression (tokens.take (k + 1)) := by
  obtain ⟨tokens, htokens, hparse⟩ :
      ∃ tokens, tokenize "abs(rb, gb ? [1 + ) : 2" = .ok tokens ∧
        parse tokens = .error (.unexpected ⟨.rightParen, ")", 18⟩) :=
    ⟨[⟨.identifier, "abs", 0⟩, ⟨.leftParen, "(", 3⟩, ⟨.identifier, "rb", 4⟩, ⟨.comma, ",", 6⟩,
      ⟨.identifier, "gb", 8⟩, ⟨.question, "?", 11⟩, ⟨.leftBracket, "[", 13⟩, ⟨.number, "1", 14⟩,
      ⟨.operator, "+", 16⟩, ⟨.rightParen, ")", 18⟩, ⟨.colon, ":", 20⟩, ⟨.number, "2", 22⟩],
      by decide +kernel, eq_error_of_map (f := fun _ => ()) (by decide +kernel)⟩
  have hlexemes : ∀ t ∈ tokens, t.IsLexeme := fun t ht =>
    (isWhole_of_tokenize htokens t ht).isLexeme
  rcases parse_blames hlexemes hparse (by simp) (by simp) with
    ⟨k, t, hk, hfound, _, hbegins⟩ | ⟨hfound, _⟩
  · cases hfound
    obtain ⟨hlt, _⟩ := List.getElem?_eq_some_iff.mp hk
    exact ⟨tokens, htokens, hparse, k, hk, (hbegins k hlt.le).mpr (Nat.le_refl k),
      fun h => absurd ((hbegins (k + 1) hlt).mp h) (by omega)⟩
  · cases hfound

end Grammar

end LayerBlend
