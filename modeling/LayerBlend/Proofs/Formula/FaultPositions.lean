import LayerBlend.Proofs.Formula.ViablePrefixes

/-!
# The places that faults of syntax name

A formula with layer shorthands is parsed as an array of copies of its tokens, whose brackets and
commas stand at no place of the text.

* `Token.StandsIn t text` — the text goes on with the characters of the token at its position, as it
  does for every token of a text (`standsIn_of_tokenize`).
* `Grammar.place_of_parseWithin` — a fault of the parser that names a place names that of a token
  that it read: one where something else had to stand, or the name of a function.
* `compile_place` — so a fault of syntax names the place of a token of the text, or none, or a comma
  or the closing bracket of an expansion, for which it names `Token.nowhere`.
-/

namespace LayerBlend

open Grammar

namespace Token

/-- At the position of the token, the text goes on with its characters. -/
def StandsIn (t : Token) (text : String) : Prop :=
  ∃ offset : Nat, t.position = offset ∧ t.text.toList <+: text.toList.drop offset

/-- A token and its copies have one position. -/
theorem position_select (c : Component) (t : Token) : (t.select c).position = t.position := by
  unfold select
  split <;> rfl

end Token

/-! ## Tokens of a text -/

/-- The tokens that a text consists of stand in it. -/
theorem Lexer.Lexes.exists_offset {behind front : List Char} {position : Nat} {tokens : List Token}
    (h : Lexes behind position front tokens) :
    ∀ t ∈ tokens, ∃ offset : Nat, t.position = (position + offset : Nat) ∧
      t.text.toList <+: front.drop offset := by
  induction h with
  | blanks _ => simp
  | @token position w rest t tokens _ _ _ hposition _ ih =>
    rw [List.forall_mem_cons]
    constructor
    · refine ⟨w.length, hposition, ?_⟩
      rw [List.drop_left]
      exact List.prefix_append _ _
    · intro u hu
      obtain ⟨offset, hoffset, hfront⟩ := ih u hu
      refine ⟨w.length + t.text.length + offset, ?_, ?_⟩
      · rw [hoffset]
        congr 1
        omega
      · rw [← String.length_toList, ← List.length_append, ← List.append_assoc, List.drop_append,
          List.drop_eq_nil_of_le (Nat.le_add_right _ _), List.nil_append, Nat.add_sub_cancel_left]
        exact hfront

/-- The tokens of a text stand in it. -/
theorem standsIn_of_tokenize {text : String} {tokens : List Token}
    (h : tokenize text = .ok tokens) : ∀ t ∈ tokens, t.StandsIn text := by
  intro t ht
  obtain ⟨offset, hoffset, hfront⟩ := (Lexer.lexes_of_tokenize h).2.exists_offset t ht
  exact ⟨offset, by rwa [Nat.zero_add] at hoffset, hfront⟩

/-! ## Places that the parser names -/

namespace Grammar

/-- An opening bracket begins a sentence. -/
theorem begins_bracket : Begins .expression [Token.openingBracket] := by
  obtain ⟨rest, tree, htree⟩ := begins_nil .expression
  have hitems : BeginsItems [] := ⟨rest, htree.isItems⟩
  have hbracket : Begins .primary ([Token.openingBracket] ++ []) := hitems.array rfl
  obtain ⟨more, array, harray⟩ := hbracket
  exact ⟨more, array, harray.of_primary .expression⟩

/-- A wrong number of arguments is found at the name of a function. -/
theorem parseWithin_argumentCount {budget : Nat} {tokens : List Token} {f : Builtin} {count : Nat}
    {position : Int} (h : parseWithin budget tokens = .error (.argumentCount f count position)) :
    ∃ name ∈ tokens, name.terminal = .word f.name ∧ name.position = position := by
  rcases parseWithin_eq_error h with ⟨_, he⟩ | hread | ⟨_, _, _, _, he⟩ | he | he
  · cases he
  · simpa using (reader_follows budget .expression tokens).argumentCount hread
  · cases he
  · cases he
  · cases he

/-- A fault that names a place names that of the name of a function, or of a token where something
else had to stand. -/
theorem place_of_parseWithin {budget : Nat} {tokens : List Token} {fault : SyntaxFault} {p : Int}
    (h : parseWithin budget tokens = .error fault) (hp : fault.position? = some p) :
    (∃ name ∈ tokens, name.kind = .identifier ∧ name.position = p) ∨
      ∃ before t after, tokens = before ++ t :: after ∧ t.position = p ∧
        fault.blamed? = some (some t) ∧ ¬ Begins .expression (before ++ [t]) := by
  have htoken : ∀ t, fault.blamed? = some (some t) → ∃ before t after,
      tokens = before ++ t :: after ∧ t.position = p ∧ fault.blamed? = some (some t) ∧
        ¬ Begins .expression (before ++ [t]) := by
    intro t ht
    obtain ⟨before, after, heq, _, hnot⟩ := parseWithin_blames_token h ht
    have hposition := SyntaxFault.position?_of_blamed? ht
    exact ⟨before, t, after, heq, Option.some.inj (hposition.symm.trans hp), ht, hnot⟩
  cases fault with
  | argumentCount f count position =>
    obtain ⟨name, hname, hterminal, hposition⟩ := parseWithin_argumentCount h
    cases hp
    exact Or.inl ⟨name, hname, Token.kind_eq hterminal, hposition⟩
  | unexpected t => exact Or.inr (htoken t rfl)
  | expected wanted found =>
    cases found with
    | none => cases hp
    | some t => exact Or.inr (htoken t rfl)
  | unexpectedEnd | misplacedArray | tooDeep | notANumber _ => cases hp

end Grammar

/-! ## Places that compiling names -/

/-- No piece of a text that is refused is a fault of syntax. -/
theorem tokenize_ne_badSyntax (text : String) (fault : SyntaxFault) :
    tokenize text ≠ .error (.badSyntax fault) := by
  intro h
  rcases Lexer.tokenize_cases text with ⟨_, hblank⟩ | ⟨_, _, _, hok⟩ | ⟨_, _, _, hrefused⟩
  · cases h.symm.trans hblank
  · cases h.symm.trans hok
  · cases h.symm.trans hrefused

/-- A fault of syntax is one of the parser, or the limit on nesting levels. -/
theorem parseWithin_of_compile {text : String} {fault : SyntaxFault}
    (h : compile text = .error (.badSyntax fault)) :
    ∃ tokens, tokenize text = .ok tokens ∧
      (parseWithin Engine.nestingLimit (expandShorthand tokens) = .error fault ∨
        fault = .tooDeep) := by
  rcases bind_eq_error.mp h with hrefused | ⟨tokens, htokens, hmore⟩
  · exact absurd hrefused (tokenize_ne_badSyntax text fault)
  refine ⟨tokens, htokens, ?_⟩
  rcases bind_eq_error.mp hmore with htree | ⟨tree, _, hmore⟩
  · unfold Engine.parseTree at htree
    split at htree
    · cases htree
    · next cause hparse =>
      cases htree
      exact Or.inl hparse
  rcases bind_eq_error.mp hmore with harity | ⟨arity, _, hmore⟩
  · unfold Engine.checkArity at harity
    split at harity <;> cases harity
  rcases bind_eq_error.mp hmore with hprobe | ⟨_, _, hpure⟩
  · unfold Engine.checkProbe at hprobe
    split at hprobe
    · cases hprobe
      exact Or.inr rfl
    · cases hprobe
    · cases hprobe
    · split at hprobe <;> cases hprobe
  · cases hpure

/-- The place that the parser names in an expansion is that of a token of the formula, or it stands
at a comma or at the closing bracket. -/
theorem place_of_expandShorthand {tokens : List Token} (hshorthand : usesShorthand tokens = true)
    {budget : Nat} {fault : SyntaxFault} {p : Int} (hp : fault.position? = some p)
    (h : parseWithin budget (expandShorthand tokens) = .error fault) :
    (∃ t ∈ tokens, t.position = p) ∨ (p = Token.nowhere ∧
      (fault.blamed? = some (some Token.separator) ∨
        fault.blamed? = some (some Token.closingBracket))) := by
  obtain ⟨rest, heq, hrest⟩ := exists_expandShorthand hshorthand
  rw [heq] at h
  rcases place_of_parseWithin h hp with
    ⟨name, hname, hkind, rfl⟩ | ⟨before, t, after, hsplit, rfl, hfound, hnot⟩
  · -- brackets and commas are no names
    rcases List.mem_cons.mp hname with rfl | hname
    · cases hkind
    rcases hrest name hname with (rfl | rfl) | ⟨u, hu, c, rfl⟩
    · cases hkind
    · cases hkind
    · exact Or.inl ⟨u, hu, (u.position_select c).symm⟩
  · cases before with
    | nil =>
      -- the opening bracket begins a sentence
      cases hsplit
      exact absurd begins_bracket hnot
    | cons first before =>
      have ht : t ∈ rest := by
        rw [(List.cons.inj hsplit).2]
        simp
      rcases hrest t ht with (rfl | rfl) | ⟨u, hu, c, rfl⟩
      · exact Or.inr ⟨rfl, Or.inl hfound⟩
      · exact Or.inr ⟨rfl, Or.inr hfound⟩
      · exact Or.inl ⟨u, hu, (u.position_select c).symm⟩

/-- A fault of syntax names no place, or that of a token of the text, where the token stands; or the
text uses layer shorthands and the fault is found at a comma or at the closing bracket of the
expansion, whose position is no place of the text. -/
theorem compile_place {text : String} {fault : SyntaxFault}
    (h : compile text = .error (.badSyntax fault)) :
    ∃ tokens, tokenize text = .ok tokens ∧
      (fault.position? = none ∨
        (∃ t ∈ tokens, t.StandsIn text ∧ fault.position? = some t.position) ∨
        (usesShorthand tokens = true ∧ fault.position? = some Token.nowhere ∧
          (fault.blamed? = some (some Token.separator) ∨
            fault.blamed? = some (some Token.closingBracket)))) := by
  obtain ⟨tokens, htokens, hcause⟩ := parseWithin_of_compile h
  have hstands := standsIn_of_tokenize htokens
  refine ⟨tokens, htokens, ?_⟩
  rcases hcause with hparse | rfl
  · cases hp : fault.position? with
    | none => exact Or.inl rfl
    | some p =>
      refine Or.inr ?_
      cases hshorthand : usesShorthand tokens with
      | false =>
        rw [expandShorthand_of_not_usesShorthand hshorthand] at hparse
        rcases place_of_parseWithin hparse hp with
          ⟨name, hname, _, rfl⟩ | ⟨before, t, after, rfl, rfl, _⟩
        · exact Or.inl ⟨name, hname, hstands name hname, rfl⟩
        · exact Or.inl ⟨t, by simp, hstands t (by simp), rfl⟩
      | true =>
        rcases place_of_expandShorthand hshorthand hp hparse with ⟨t, ht, rfl⟩ | ⟨rfl, hfound⟩
        · exact Or.inl ⟨t, ht, hstands t ht, rfl⟩
        · exact Or.inr ⟨rfl, rfl, hfound⟩
  · exact Or.inl rfl

/-- The condition of a conditional with shorthands is followed by the comma of the expansion where
a colon must stand, and the place of the comma is before the first character. -/
theorem compile_place_shorthand :
    ∃ tokens fault, compile "B?T" = .error (.badSyntax fault) ∧ tokenize "B?T" = .ok tokens ∧
      fault.position? = some (-1) ∧ fault.blamed? = some (some Token.separator) ∧
      usesShorthand tokens = true := by
  have h : compile "B?T" = .error (.badSyntax (.expected .colon (some Token.separator))) :=
    eq_error_of_map (f := fun _ => ()) (by decide +kernel)
  obtain ⟨tokens, htokens, hnone | ⟨t, _, ⟨offset, hoffset, _⟩, hplace⟩ | ⟨hshorthand, _, _⟩⟩ :=
    compile_place h
  · cases hnone
  · have hnowhere : Token.nowhere = t.position := Option.some.inj hplace
    rw [hoffset] at hnowhere
    exact absurd hnowhere (by unfold Token.nowhere; omega)
  · exact ⟨tokens, _, h, htokens, rfl, rfl, hshorthand⟩

end LayerBlend
