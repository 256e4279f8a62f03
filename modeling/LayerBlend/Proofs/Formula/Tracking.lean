import LayerBlend.Proofs.Formula.Beginnings
import LayerBlend.Proofs.Formula.Loosening

/-!
# What the parser has read when it fails

* `SyntaxFault.blamed?` — what a fault finds where something else had to stand: a token, or the end
  of the formula.
* `Grammar.Tracks C front tokens x y` — `x` reads `tokens`, which stand behind `front`. Up to the
  token that it stops at, `y` does the same with whatever follows; and where `x` fails at a token or
  at the end, what stands in front has the property `C`, and `y` fails with whatever follows that
  token.
* `Grammar.Tracks.bind`, `Grammar.Tracks.cons`, `Grammar.tracks_expect` — steps of the parser that
  follow each other.
* `Grammar.reader_follows` — a reader does so with itself on loosened tokens, and what stands in
  front of the place where it fails begins a phrase of its level.
-/

namespace LayerBlend

/-- What is found where something else had to stand, for a fault that says so: a token, or the end
of the formula. -/
def SyntaxFault.blamed? : SyntaxFault → Option (Option Token)
  | .unexpectedEnd => some none
  | .unexpected found => some (some found)
  | .expected _ found => some found
  | .argumentCount _ _ _ | .misplacedArray | .tooDeep | .notANumber _ => none

namespace Grammar

open LayerBlend.Parser

variable {β β' γ γ' : Type}

/-! ## Outcomes that depend on what was read -/

/-- The outcome `x` for `tokens`, which stand behind `front`, is followed by `y` on other lists. -/
structure Tracks (C : List Token → Prop) (front tokens : List Token)
    (x : Except SyntaxFault (β × List Token))
    (y : List Token → Except SyntaxFault (γ × List Token)) : Prop where
  /-- What `x` takes off the front, `y` takes off the front of every list that goes on with the same
  token. -/
  ok : ∀ {b rest}, x = .ok (b, rest) → ∃ s c, tokens = s ++ rest ∧
    ∀ others : List Token, others.head? = rest.head? →
      y ((s ++ others).map Token.loosen) = .ok (c, others.map Token.loosen)
  /-- Where `x` fails at a token or at the end, what stands in front has the property, and `y` fails
  on every list that goes on with the same token. -/
  error : ∀ {e found}, x = .error e → e.blamed? = some found →
    ∃ before after, tokens = before ++ after ∧ after.head? = found ∧ C (front ++ before) ∧
      ∀ others : List Token, others.head? = found →
        ∃ e', e' ≠ .tooDeep ∧ y ((before ++ others).map Token.loosen) = .error e'
  /-- A wrong number of arguments is found at the name of a function. -/
  argumentCount : ∀ {f count position}, x = .error (.argumentCount f count position) →
    ∃ name ∈ front ++ tokens, name.terminal = .word f.name ∧ name.position = position

variable {C : List Token → Prop} {front tokens : List Token}
  {x : Except SyntaxFault (β × List Token)}
  {y y' : List Token → Except SyntaxFault (γ × List Token)}

/-- The head of a list depends on the head of what it ends with. -/
theorem head?_append_congr {s u v : List Token} (h : u.head? = v.head?) :
    (s ++ u).head? = (s ++ v).head? := by
  rw [List.head?_append, List.head?_append, h]

/-- What holds of the first token of a list, and of a token when it is loosened, holds of the first
token of every list that begins with the same token. -/
theorem forall_head_loosen {p : Token → Prop} (hp : ∀ t, p t → p t.loosen)
    (h : ∀ t ∈ tokens.head?, p t) {others : List Token} (hothers : others.head? = tokens.head?) :
    ∀ t ∈ (others.map Token.loosen).head?, p t := by
  intro t ht
  rw [List.head?_map, hothers] at ht
  obtain ⟨u, hu, rfl⟩ := Option.map_eq_some_iff.mp ht
  exact hp u (h u hu)

/-- The first token of a list that begins with the same token is of another class, too. -/
theorem kind_ne_head_loosen {kind : TokenKind} (h : ∀ t ∈ tokens.head?, t.kind ≠ kind)
    {others : List Token} (hothers : others.head? = tokens.head?) :
    ∀ t ∈ (others.map Token.loosen).head?, t.kind ≠ kind :=
  forall_head_loosen (p := fun t => t.kind ≠ kind) (fun t ht => by rwa [Token.kind_loosen]) h
    hothers

namespace Tracks

/-- Nothing is read. -/
theorem done (b : β) {c : γ} (hy : ∀ others : List Token, others.head? = tokens.head? →
      y (others.map Token.loosen) = .ok (c, others.map Token.loosen)) :
    Tracks C front tokens (.ok (b, tokens)) y where
  ok h := by
    cases h
    exact ⟨[], c, rfl, hy⟩
  error h := by cases h
  argumentCount h := by cases h

/-- A step fails where the tokens begin. -/
theorem blame {e : SyntaxFault} (he : e.blamed? = some tokens.head?) (hC : C front)
    (hy : ∀ others : List Token, others.head? = tokens.head? →
      ∃ e', e' ≠ .tooDeep ∧ y (others.map Token.loosen) = .error e') :
    Tracks C front tokens (.error e : Except SyntaxFault (β × List Token)) y where
  ok h := by cases h
  error h hfound := by
    cases h
    cases he.symm.trans hfound
    exact ⟨[], tokens, rfl, rfl, by rwa [List.append_nil], hy⟩
  argumentCount h := by
    cases h
    cases he

/-- A step fails for another reason than the token that it stands at. -/
theorem other {e : SyntaxFault} (he : e.blamed? = none)
    (hcount : ∀ f count position, e = .argumentCount f count position →
      ∃ name ∈ front ++ tokens, name.terminal = .word f.name ∧ name.position = position) :
    Tracks C front tokens (.error e : Except SyntaxFault (β × List Token)) y where
  ok h := by cases h
  error h hfound := by
    cases h
    cases he.symm.trans hfound
  argumentCount h := by
    cases h
    exact hcount _ _ _ rfl

/-- Only lists that begin with the same token matter. -/
theorem of_head (h : Tracks C front tokens x y)
    (hy : ∀ others : List Token, others.head? = tokens.head? →
      y' (others.map Token.loosen) = y (others.map Token.loosen)) :
    Tracks C front tokens x y' where
  ok hx := by
    obtain ⟨s, c, rfl, hread⟩ := h.ok hx
    refine ⟨s, c, rfl, fun others hothers => ?_⟩
    rw [hy _ (head?_append_congr hothers), hread others hothers]
  error hx hfound := by
    obtain ⟨before, after, rfl, hafter, hC, hfail⟩ := h.error hx hfound
    refine ⟨before, after, rfl, hafter, hC, fun others hothers => ?_⟩
    rw [hy _ (head?_append_congr (hothers.trans hafter.symm))]
    exact hfail others hothers
  argumentCount := h.argumentCount

/-- The tokens stand behind others. -/
theorem weaken {C' : List Token → Prop} (h : Tracks C' [] tokens x y)
    (hC : ∀ u, C' u → C (front ++ u)) : Tracks C front tokens x y where
  ok := h.ok
  error hx hfound := by
    obtain ⟨before, after, heq, hafter, hbefore, hfail⟩ := h.error hx hfound
    exact ⟨before, after, heq, hafter, hC before hbefore, hfail⟩
  argumentCount hx := by
    obtain ⟨name, hname, hmore⟩ := h.argumentCount hx
    exact ⟨name, List.mem_append_right front hname, hmore⟩

/-- A token is taken. -/
theorem cons {t : Token} {rest : List Token} (h : Tracks C (front ++ [t]) rest x y)
    (hy : ∀ others : List Token,
      y' (t.loosen :: others.map Token.loosen) = y (others.map Token.loosen)) :
    Tracks C front (t :: rest) x y' where
  ok hx := by
    obtain ⟨s, c, rfl, hread⟩ := h.ok hx
    refine ⟨t :: s, c, rfl, fun others hothers => ?_⟩
    rw [List.cons_append, List.map_cons, hy, hread others hothers]
  error hx hfound := by
    obtain ⟨before, after, rfl, hafter, hC, hfail⟩ := h.error hx hfound
    refine ⟨t :: before, after, rfl, hafter, by simpa using hC, fun others hothers => ?_⟩
    rw [List.cons_append, List.map_cons, hy]
    exact hfail others hothers
  argumentCount hx := by simpa using h.argumentCount hx

/-- A step is followed by another one on what is left. -/
theorem bind {f : β × List Token → Except SyntaxFault (β' × List Token)}
    {g : γ × List Token → Except SyntaxFault (γ' × List Token)} (h : Tracks C front tokens x y)
    (hnext : ∀ s rest b c, tokens = s ++ rest → x = .ok (b, rest) →
      Tracks C (front ++ s) rest (f (b, rest)) fun others => g (c, others)) :
    Tracks C front tokens (x >>= f) fun others => y others >>= g where
  ok hx := by
    obtain ⟨⟨b, middle⟩, hb, hrest⟩ := bind_eq_ok.mp hx
    obtain ⟨s, c, rfl, hread⟩ := h.ok hb
    obtain ⟨u, d, rfl, hmore⟩ := (hnext s middle b c rfl hb).ok hrest
    refine ⟨s ++ u, d, (List.append_assoc ..).symm, fun others hothers => ?_⟩
    rw [List.append_assoc, hread _ (head?_append_congr hothers), ok_bind]
    exact hmore others hothers
  error hx hfound := by
    rcases bind_eq_error.mp hx with hfail | ⟨⟨b, middle⟩, hb, hfail⟩
    · obtain ⟨before, after, heq, hafter, hC, hfails⟩ := h.error hfail hfound
      refine ⟨before, after, heq, hafter, hC, fun others hothers => ?_⟩
      obtain ⟨e', he', hy⟩ := hfails others hothers
      exact ⟨e', he', by rw [hy, error_bind]⟩
    · obtain ⟨s, c, rfl, hread⟩ := h.ok hb
      obtain ⟨before, after, rfl, hafter, hC, hfails⟩ :=
        (hnext s middle b c rfl hb).error hfail hfound
      refine ⟨s ++ before, after, (List.append_assoc ..).symm, hafter, ?_, fun others hothers => ?_⟩
      · rwa [← List.append_assoc]
      · rw [List.append_assoc, hread _ (head?_append_congr (hothers.trans hafter.symm)), ok_bind]
        exact hfails others hothers
  argumentCount hx := by
    rcases bind_eq_error.mp hx with hfail | ⟨⟨b, middle⟩, hb, hfail⟩
    · exact h.argumentCount hfail
    · obtain ⟨s, c, rfl, hread⟩ := h.ok hb
      have := (hnext s middle b c rfl hb).argumentCount hfail
      rwa [List.append_assoc] at this

end Tracks

/-- A token of a class is wanted, and the next step follows. -/
theorem tracks_expect {kind : TokenKind} (wanted wanted' : Wanted)
    {f : List Token → Except SyntaxFault (β × List Token)} (hC : C front)
    (hnext : ∀ t rest, tokens = t :: rest → t.kind = kind →
      Tracks C (front ++ [t]) rest (f rest) y) :
    Tracks C front tokens (expect kind wanted tokens >>= f)
      fun others => expect kind wanted' others >>= y := by
  have hfail : ∀ others : List Token, others.head?.all (·.kind ≠ kind) →
      ∃ e', e' ≠ .tooDeep ∧ (expect kind wanted' (others.map Token.loosen) >>= y) = .error e' := by
    intro others hothers
    cases others with
    | nil => exact ⟨_, by simp, rfl⟩
    | cons u others =>
      have hu : u.loosen.kind ≠ kind := by simpa using hothers
      rw [List.map_cons, expect, if_neg hu]
      exact ⟨_, by simp, rfl⟩
  cases tokens with
  | nil => exact .blame rfl hC fun others hothers => hfail others (by simp [hothers])
  | cons t rest =>
    by_cases hkind : t.kind = kind
    · rw [expect_of_kind hkind]
      refine .cons (hnext t rest rfl hkind) fun others => ?_
      rw [expect_of_kind ((Token.kind_loosen t).trans hkind)]
      rfl
    · rw [expect, if_neg hkind]
      exact .blame rfl hC fun others hothers => hfail others (by simp [hothers, hkind])

/-- A reader fails behind the beginning of a phrase, whatever follows the token that it fails at. -/
def Follows (level : Level) (read : Reader) : Prop :=
  ∀ tokens, Tracks (Begins level) [] tokens (read tokens) read

/-! ## Chains of operators -/

/-- Where a chain ends, it ends in front of all that begins with the same token. -/
theorem tracks_chain_of_none {operators : List BinaryOperator} {operand : Reader}
    {tokens : List Token} (h : ∀ t ∈ tokens.head?, operator? operators t = none)
    (left left' : Node) :
    Tracks C front tokens (chain operators operand tokens.length left tokens)
      fun others => chain operators operand others.length left' others := by
  rw [chain_of_none h]
  refine .done left fun others hothers => chain_of_none (forall_head_loosen ?_ h hothers) _ left'
  exact fun t ht => (operator?_loosen operators t).trans ht

/-- What follows an operand of a chain fails behind the beginning of a phrase. -/
theorem chain_tracks {level : Level} {operand : Reader} (hsound : Sound level.tighter operand)
    (hop : Follows level.tighter operand) (count : Nat) :
    ∀ {front tokens : List Token} {left left' : Node}, tokens.length ≤ count →
      Derives level (front.map Token.terminal) left →
      Tracks (Begins level) front tokens
        (chain level.operators operand tokens.length left tokens)
        fun others => chain level.operators operand others.length left' others := by
  induction count with
  | zero =>
    intro front tokens left left' hcount _
    obtain rfl : tokens = [] := List.length_eq_zero_iff.mp (Nat.le_zero.mp hcount)
    exact tracks_chain_of_none (by simp) left left'
  | succ count ih =>
    intro front tokens left left' hcount hleft
    cases tokens with
    | nil => exact tracks_chain_of_none (by simp) left left'
    | cons t rest =>
      cases hoperator : operator? level.operators t with
      | none => exact tracks_chain_of_none (by simpa using hoperator) left left'
      | some op =>
        have hloosen : operator? level.operators t.loosen = some op :=
          (operator?_loosen _ t).trans hoperator
        rw [chain_cons hsound hoperator]
        refine .cons (((hop rest).weaken fun u => hleft.begins_operand hoperator).bind ?_)
          fun others => chain_cons hsound hloosen left' _
        rintro s rest right right' rfl hread
        have hright := hsound.derives hread
        rw [List.length_cons, List.length_append] at hcount
        dsimp only
        refine ih (by omega) ?_
        simpa using hleft.operand hoperator hright

/-- Operands with operators between them follow a level when the operands do. -/
theorem operands_follow {level : Level} (hlevel : level ≠ .primary) {operand : Reader}
    (hsound : Sound level.tighter operand) (hop : Follows level.tighter operand) :
    Follows level (operands level.operators operand) := by
  intro tokens
  refine ((hop tokens).weaken fun u hu => ?_).bind ?_
  · exact hu.of_tighter hlevel
  · rintro s rest first first' rfl hread
    exact chain_tracks hsound hop _ (Nat.le_refl _) (.tighter hlevel (hsound.derives hread))

/-! ## Lists of items -/

/-- Where a list ends, it ends in front of all that begins with the same token. -/
theorem tracks_moreItems_of_ne {item : Reader} {tokens : List Token}
    (h : ∀ t ∈ tokens.head?, t.kind ≠ .comma) :
    Tracks C front tokens (moreItems item tokens.length tokens)
      fun others => moreItems item others.length others := by
  rw [moreItems_of_ne h]
  exact .done [] fun others hothers =>
    moreItems_of_ne (kind_ne_head_loosen h hothers) _

/-- What follows an item of a list fails behind the beginning of a list. -/
theorem moreItems_tracks {item : Reader} (hsound : Sound .expression item)
    (hitem : Follows .expression item) (count : Nat) :
    ∀ {front tokens : List Token}, tokens.length ≤ count → IsItems (front.map Token.terminal) →
      Tracks BeginsItems front tokens (moreItems item tokens.length tokens)
        fun others => moreItems item others.length others := by
  induction count with
  | zero =>
    intro front tokens hcount _
    obtain rfl : tokens = [] := List.length_eq_zero_iff.mp (Nat.le_zero.mp hcount)
    exact tracks_moreItems_of_ne (by simp)
  | succ count ih =>
    intro front tokens hcount hfront
    cases tokens with
    | nil => exact tracks_moreItems_of_ne (by simp)
    | cons t rest =>
      by_cases hkind : t.kind = .comma
      · have hloosen : t.loosen.kind = .comma := (Token.kind_loosen t).trans hkind
        have hterminal : t.terminal = .comma := by rw [Token.terminal, hkind]
        rw [moreItems_cons hsound hkind]
        refine .cons (((hitem rest).weaken fun u => hfront.begins_item hkind).bind ?_)
          fun others => moreItems_cons hsound hloosen _
        rintro s rest node node' rfl hread
        have hitems : IsItems ((front ++ [t] ++ s).map Token.terminal) := by
          simpa [hterminal] using hfront.append (hsound.derives hread)
        rw [List.length_cons, List.length_append] at hcount
        dsimp only
        refine (ih (by omega) hitems).bind ?_
        intro u rest nodes nodes' _ _
        exact .done (c := node' :: nodes') _ fun others _ => rfl
      · exact tracks_moreItems_of_ne (by simpa using hkind)

/-- The items of a list fail behind the beginning of a list. -/
theorem items_track {item : Reader} (hsound : Sound .expression item)
    (hitem : Follows .expression item) (tokens : List Token) :
    Tracks BeginsItems [] tokens (items item tokens) (items item) := by
  refine ((hitem tokens).weaken ?_).bind ?_
  · rintro u ⟨rest, tree, hu⟩
    exact ⟨rest, hu.isItems⟩
  · rintro s rest first first' rfl hread
    refine (moreItems_tracks hsound hitem _ (Nat.le_refl _) (hsound.derives hread).isItems).bind ?_
    intro u rest nodes nodes' _ _
    exact .done _ fun others _ => rfl

/-- The arguments of a call fail behind the beginning of a list, or where it must be closed. -/
theorem arguments_track {item : Reader} (hsound : Sound .expression item)
    (hitem : Follows .expression item) (hC : ∀ u, BeginsItems u → C (front ++ u)) :
    Tracks C front tokens (arguments item tokens) (arguments item) := by
  rcases head_cases .rightParen tokens with ⟨t, rest, rfl, hkind⟩ | hne
  · rw [arguments_of_rightParen hkind]
    exact .cons (y := fun others => .ok ([], others)) (.done [] fun others _ => rfl) fun others =>
      arguments_of_rightParen ((Token.kind_loosen t).trans hkind) _
  · rw [arguments_of_ne hne]
    refine .of_head (((items_track hsound hitem tokens).weaken hC).bind ?_) fun others hothers =>
      arguments_of_ne (kind_ne_head_loosen hne hothers)
    rintro s rest args args' rfl hread
    dsimp only
    refine tracks_expect _ _ (hC s (items_begin hsound hread)) fun t rest _ _ => ?_
    exact .done _ fun others _ => rfl

/-- A call fails behind the beginning of a call, or for the number of its arguments. -/
theorem call_tracks {item : Reader} (hsound : Sound .expression item)
    (hitem : Follows .expression item) {f : Builtin} {name : Token}
    (hname : name.terminal = .word f.name) (name' : Token) :
    Tracks (Begins .primary) [name] tokens (call item f name tokens) (call item .min name') := by
  refine tracks_expect _ _ (begins_name hname) fun paren rest _ hkind => ?_
  refine (arguments_track hsound hitem fun u hu => begins_call hname hkind hu).bind ?_
  rintro s rest args args' rfl hread
  dsimp only
  by_cases haccepts : f.accepts args.length
  · rw [if_pos haccepts]
    refine .done (c := .call .min args') _ fun others _ => ?_
    rw [if_pos (Builtin.accepts_min _)]
    rfl
  · rw [if_neg haccepts]
    refine .other rfl fun g count position he => ?_
    cases he
    exact ⟨name, by simp, hname, rfl⟩

/-! ## Levels -/

/-- What is read behind a condition fails behind the beginning of an expression. -/
theorem branches_track {budget : Nat} (hexpression : Follows .expression (expression budget))
    {condition : Node} (condition' : Node)
    (hfront : Derives .comparison (front.map Token.terminal) condition) :
    Tracks (Begins .expression) front tokens (branches budget condition tokens)
      (branches budget condition') := by
  have hsound : Sound .expression (expression budget) := reader_sound budget .expression
  rcases head_cases .question tokens with ⟨t, rest, rfl, hkind⟩ | hne
  · rw [branches_of_question hkind]
    refine .cons (((hexpression rest).weaken fun u => hfront.begins_positive hkind).bind ?_)
      fun others => branches_of_question ((Token.kind_loosen t).trans hkind) condition' _
    rintro u rest positive positive' rfl hread
    have hpositive := hsound.derives hread
    dsimp only
    refine tracks_expect _ _ (hfront.begins_positive hkind hpositive.begins)
      fun colon rest _ hcolon => ?_
    refine ((hexpression rest).weaken fun v =>
      hfront.begins_negative hkind hpositive hcolon).bind ?_
    intro v rest negative negative' _ _
    exact .done (c := .choose condition' positive' negative') _ fun others _ => rfl
  · rw [branches_of_ne hne]
    exact .done condition fun others hothers =>
      branches_of_ne (kind_ne_head_loosen hne hothers) condition'

/-- An expression fails behind the beginning of one. -/
theorem expression_follows {budget : Nat}
    (hcomparison : Follows .comparison (comparison budget))
    (hexpression : Follows .expression (expression budget)) :
    Follows .expression (expression (budget + 1)) := by
  intro tokens
  rw [expression_succ]
  refine .of_head (((hcomparison tokens).weaken fun u hu => ?_).bind ?_)
    fun others _ => expression_succ budget _
  · exact Begins.of_tighter (by decide : Level.expression ≠ .primary) hu
  · rintro s rest condition condition' rfl hread
    exact branches_track hexpression condition' ((reader_sound budget .comparison).derives hread)

/-- An operand with signs fails behind the beginning of one. -/
theorem unary_follows {budget : Nat} (hunary : Follows .unary (unary budget))
    (hprimary : Follows .primary (primary budget)) : Follows .unary (unary (budget + 1)) := by
  intro tokens
  cases hsign : tokens.head?.bind sign? with
  | none =>
    have hnone : ∀ t ∈ tokens.head?, sign? t = none := fun t ht => by
      rwa [ht, Option.bind_some] at hsign
    have hkeep : ∀ t : Token, sign? t = none → sign? t.loosen = none :=
      fun t ht => (operator?_loosen _ t).trans ht
    rw [unary_of_none hnone]
    refine .of_head ((hprimary tokens).weaken fun u hu => ?_)
      fun others hothers => unary_of_none (forall_head_loosen hkeep hnone hothers)
    exact Begins.of_tighter (by decide : Level.unary ≠ .primary) hu
  | some sign =>
    obtain ⟨t, hhead, ht⟩ := Option.bind_eq_some_iff.mp hsign
    obtain ⟨rest, rfl⟩ := List.head?_eq_some_iff.mp hhead
    rw [unary_of_sign ht]
    refine .cons (((hunary rest).weaken fun u => Begins.sign ht).bind ?_)
      fun others => unary_of_sign ((operator?_loosen _ t).trans ht) _
    intro s rest operand operand' _ _
    exact .done (c := applySign sign operand') _ fun others _ => rfl

/-- A token with which no primary begins is where a primary fails. -/
theorem primary_blames {budget : Nat} {t : Token} {rest : List Token}
    (h : ∀ rest, primary (budget + 1) (t :: rest) = .error (.unexpected t))
    (hloosen : t.loosen = t) :
    Tracks (Begins .primary) [] (t :: rest) (primary (budget + 1) (t :: rest))
      (primary (budget + 1)) := by
  rw [h]
  refine .blame rfl (begins_nil .primary) fun others hothers => ?_
  obtain ⟨more, rfl⟩ := List.head?_eq_some_iff.mp hothers
  refine ⟨.unexpected t, by simp, ?_⟩
  rw [List.map_cons, hloosen, h]

/-- A name is a channel, or begins a call, or is where a primary fails. -/
theorem word_tracks {budget : Nat} (hinner : Follows .expression (expression (budget - 1)))
    {t : Token} (hkind : t.kind = .identifier) (rest : List Token) :
    Tracks (Begins .primary) [] (t :: rest) (primary (budget + 1) (t :: rest))
      (primary (budget + 1)) := by
  cases hf : Builtin.ofName? t.text with
  | none =>
    have hsame : t.loosen = t := Token.loosen_of_ofName? hf
    cases hc : Channel.ofName? t.text with
    | none =>
      refine primary_blames (fun rest => ?_) hsame
      simp only [primary, hkind, hc, hf]
    | some c =>
      have hread : ∀ rest, primary (budget + 1) (t :: rest) = .ok (.channel c, rest) := by
        intro rest
        simp only [primary, hkind, hc]
      rw [hread]
      refine .cons (y := fun others => .ok (.channel c, others)) (.done _ fun others _ => rfl)
        fun others => ?_
      rw [hsame, hread]
  | some f =>
    have hname : t.text = f.name := Builtin.eq_name_of_ofName? hf
    have hterminal : t.terminal = .word f.name := by rw [Token.terminal, hkind, hname]
    have hread : primary (budget + 1) (t :: rest) = functionCall budget f t rest := by
      simp only [primary, hkind, hname, Builtin.channel_ofName?_name, Builtin.ofName?_name]
    have hother : ∀ others, primary (budget + 1) (t.loosen :: others) =
        functionCall budget .min t.loosen others := by
      intro others
      simp only [primary, Token.kind_loosen, hkind, Token.text_loosen hkind hf,
        Builtin.channel_ofName?_name, Builtin.ofName?_name]
    rw [hread]
    cases budget with
    | zero => exact .other (e := .tooDeep) rfl fun _ _ _ he => by cases he
    | succ budget =>
      exact .cons (call_tracks (reader_sound budget .expression) hinner hterminal t.loosen)
        fun others => hother _

/-- A primary fails behind the beginning of one. -/
theorem primary_follows {budget : Nat} (hexpression : Follows .expression (expression budget))
    (hinner : Follows .expression (expression (budget - 1))) :
    Follows .primary (primary (budget + 1)) := by
  have hsound : Sound .expression (expression budget) := reader_sound budget .expression
  intro tokens
  cases tokens with
  | nil =>
    refine .blame rfl (begins_nil .primary) fun others hothers => ?_
    obtain rfl := List.head?_eq_none_iff.mp hothers
    exact ⟨.unexpectedEnd, by simp, rfl⟩
  | cons t rest =>
    cases hkind : t.kind with
    | identifier => exact word_tracks hinner hkind rest
    | number =>
      have hsame : t.loosen = t := Token.loosen_of_kind (by simp [hkind])
      cases hvalue : Decimal.ofChars? t.text.toList with
      | none =>
        have hread : primary (budget + 1) (t :: rest) = .error (.notANumber t) := by
          simp only [primary, hkind, hvalue]
        rw [hread]
        exact .other rfl fun _ _ _ he => by cases he
      | some value =>
        have hread : ∀ rest, primary (budget + 1) (t :: rest) = .ok (.number value, rest) := by
          intro rest
          simp only [primary, hkind, hvalue]
        rw [hread]
        refine .cons (y := fun others => .ok (.number value, others)) (.done _ fun others _ => rfl)
          fun others => ?_
        rw [hsame, hread]
    | leftParen =>
      rw [primary_of_leftParen hkind]
      refine .cons (((hexpression rest).weaken fun u => Begins.parentheses hkind).bind ?_)
        fun others => primary_of_leftParen ((Token.kind_loosen t).trans hkind) _
      rintro s rest node node' rfl hread
      dsimp only
      refine tracks_expect _ _ (Begins.parentheses hkind (hsound.derives hread).begins)
        fun close rest _ _ => ?_
      exact .done _ fun others _ => rfl
    | leftBracket =>
      rw [primary_of_leftBracket hkind]
      refine .cons (((items_track hsound hexpression rest).weaken
        fun u => BeginsItems.array hkind).bind ?_)
        fun others => primary_of_leftBracket ((Token.kind_loosen t).trans hkind) _
      rintro s rest nodes nodes' rfl hread
      dsimp only
      refine tracks_expect _ _ (BeginsItems.array hkind (items_begin hsound hread))
        fun close rest _ _ => ?_
      exact .done (c := .array nodes') _ fun others _ => rfl
    | operator | rightParen | rightBracket | comma | question | colon =>
      refine primary_blames (fun rest => ?_) (Token.loosen_of_kind (by simp [hkind]))
      rw [primary, hkind]

/-- Every reader fails behind the beginning of a phrase of its level. -/
theorem reader_follows (budget : Nat) : ∀ level, Follows level (reader level budget) := by
  induction budget using Nat.strongRecOn with
  | ind budget ih =>
    intro level
    match level, budget with
    | .expression, 0 | .comparison, 0 | .comparison, 1 | .additive, 0 | .additive, 1
    | .multiplicative, 0 | .multiplicative, 1 | .unary, 0 | .primary, 0 =>
      intro tokens
      exact .other (e := .tooDeep) rfl fun f count position he => by cases he
    | .expression, budget + 1 =>
      exact expression_follows (ih budget (by omega) .comparison)
        (ih budget (by omega) .expression)
    | .comparison, budget + 2 =>
      exact operands_follow (by decide) (reader_sound budget .additive)
        (ih budget (by omega) .additive)
    | .additive, budget + 2 =>
      exact operands_follow (by decide) (reader_sound budget .multiplicative)
        (ih budget (by omega) .multiplicative)
    | .multiplicative, budget + 2 =>
      exact operands_follow (by decide) (reader_sound budget .unary) (ih budget (by omega) .unary)
    | .unary, budget + 1 =>
      exact unary_follows (ih budget (by omega) .unary) (ih budget (by omega) .primary)
    | .primary, budget + 1 =>
      exact primary_follows (ih budget (by omega) .expression)
        (ih (budget - 1) (by omega) .expression)

end Grammar

end LayerBlend
