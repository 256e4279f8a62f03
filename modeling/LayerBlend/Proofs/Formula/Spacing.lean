import LayerBlend.Formula.Rendering
import LayerBlend.Proofs.Formula.Following
import LayerBlend.Proofs.Formula.Lexing
import Mathlib.Data.List.Chain

/-!
# Tokens survive being written

`render` puts blanks around some tokens and takes some of them away again.

* `Token.Ends t c` — the token `t` cannot go on with the character `c`;
  `Token.IsLexeme.isLongest` — a lexeme in front of such a character is the longest one there.
* `Token.Apart t u` — `t` and `u` stay two tokens when nothing stands between them: no name is
  followed by a name or a numeral, and no numeral by a numeral.
* `Spaced text tokens` — `text` is the texts of the tokens with blanks around them. Every step of
  `render` keeps this, since it takes blanks away and nothing else (`Rendering.Thins`).
* `tokenize_render` — so tokens that stay apart are read back from their rendering, whatever their
  positions were.
-/

namespace LayerBlend

namespace Token

/-- The token cannot go on with a character. -/
structure Ends (t : Token) (c : Char) : Prop where
  /-- No operator goes on with it. -/
  ne_equals : c ≠ '='
  /-- No numeral goes on with it as its point. -/
  ne_point : c ≠ '.'
  /-- A numeral does not go on with a digit. -/
  number : t.kind = .number → c.isDigit = false
  /-- A name does not go on with a letter, a digit or an underscore. -/
  word : t.kind = .identifier → Lexer.isWordPart c = false

/-- Two tokens stay two when nothing stands between them. -/
structure Apart (t u : Token) : Prop where
  /-- A name is followed by no other name and no numeral. -/
  word : t.kind = .identifier → u.kind ≠ .identifier ∧ u.kind ≠ .number
  /-- A numeral is followed by no other numeral. -/
  number : t.kind = .number → u.kind ≠ .number

end Token

/-! ## Lexemes and what follows them -/

namespace Lexer

/-- A run of characters of a class ends where the class does. -/
theorem span_run {p : Char → Bool} {run rest : List Char} (hrun : ∀ c ∈ run, p c = true)
    (hrest : ∀ c ∈ rest.head?, p c = false) :
    (run ++ rest).takeWhile p = run ∧ (run ++ rest).dropWhile p = rest := by
  rw [List.takeWhile_append_of_pos hrun, List.dropWhile_append_of_pos hrun]
  cases rest with
  | nil => simp
  | cons c rest => simp [hrest c rfl]

/-- A numeral ends in front of a character that is neither a digit nor a point. -/
theorem numeralTail_append {digits tail rest : List Char}
    (hdigits : ∀ c ∈ digits, c.isDigit = true)
    (htail : tail = [] ∨ ∃ fraction, tail = '.' :: fraction ∧ fraction ≠ [] ∧
      ∀ c ∈ fraction, c.isDigit = true)
    (hrest : ∀ c ∈ rest.head?, c.isDigit = false ∧ c ≠ '.') :
    numeralTail (digits ++ tail ++ rest) = (digits ++ tail).length := by
  have hstop : ∀ c ∈ rest.head?, c.isDigit = false := fun c hc => (hrest c hc).1
  rcases htail with rfl | ⟨fraction, rfl, hne, hfraction⟩
  · obtain ⟨htake, hdrop⟩ := span_run hdigits hstop
    rw [List.append_nil]
    unfold numeralTail
    rw [htake, hdrop]
    split
    · exact absurd rfl (hrest '.' rfl).2
    · rfl
  · have hpoint : ∀ c ∈ ('.' :: (fraction ++ rest)).head?, c.isDigit = false := by
      intro c hc
      cases hc
      decide
    obtain ⟨htake, hdrop⟩ := span_run hdigits hpoint
    obtain ⟨hfraction, _⟩ := span_run hfraction hstop
    rw [List.append_assoc, List.cons_append]
    unfold numeralTail
    rw [htake, hdrop]
    show (if (List.takeWhile Char.isDigit (fraction ++ rest)).length = 0 then _ else _) = _
    rw [hfraction, if_neg (by simpa using hne), List.length_append, List.length_cons]
    omega

/-- An operator ends in front of a character that is no equals sign. -/
theorem lexeme?_symbol (op : BinaryOperator) {rest : List Char}
    (hrest : ∀ c ∈ rest.head?, c ≠ '=') :
    ∃ c v, op.symbol.toList = c :: v ∧ lexeme? c (v ++ rest) = some (.operator, v.length) := by
  have hequals : rest.head? ≠ some '=' := fun h => hrest '=' h rfl
  cases op with
  | add | sub | mul | div | rem => exact ⟨_, [], rfl, rfl⟩
  | less | greater =>
    refine ⟨_, [], rfl, ?_⟩
    rw [List.nil_append]
    show some (TokenKind.operator, if rest.head? = some '=' then 1 else 0) = _
    rw [if_neg hequals]
    rfl
  | lessEq | greaterEq => exact ⟨_, ['='], rfl, rfl⟩

/-- What is found where a lexeme stands that cannot go on is that lexeme. -/
theorem lexeme?_of_ends {t : Token} (h : t.IsLexeme) {rest : List Char}
    (hrest : ∀ c ∈ rest.head?, t.Ends c) :
    ∃ c v, t.text.toList = c :: v ∧ lexeme? c (v ++ rest) = some (t.kind, v.length) := by
  unfold Token.IsLexeme at h
  split at h
  case h_1 hkind =>
    obtain ⟨whole, tail, htext, hne, hwhole, htail⟩ := h
    obtain ⟨first, digits, rfl⟩ := List.exists_cons_of_ne_nil hne
    rw [List.forall_mem_cons] at hwhole
    refine ⟨first, digits ++ tail, by rw [htext, List.cons_append], ?_⟩
    unfold lexeme?
    rw [if_pos hwhole.1, numeralTail_append hwhole.2 htail
      fun c hc => ⟨(hrest c hc).number hkind, (hrest c hc).ne_point⟩, hkind]
  case h_2 hkind =>
    obtain ⟨first, others, htext, hfirst, hothers⟩ := h
    refine ⟨first, others, htext, ?_⟩
    unfold lexeme?
    rw [isDigit_eq_false_of_isWordStart hfirst, if_neg Bool.false_ne_true, if_pos hfirst,
      (span_run hothers fun c hc => (hrest c hc).word hkind).1, hkind]
  case h_3 hkind =>
    obtain ⟨op, htext⟩ := h
    rw [htext, hkind]
    exact lexeme?_symbol op fun c hc => (hrest c hc).ne_equals
  all_goals
    next hkind =>
      rw [h, hkind]
      exact ⟨_, [], rfl, rfl⟩

/-- The class of a lexeme is told by its first character, and no lexeme starts with an equals sign
or a point. -/
theorem lexeme?_first {c : Char} {rest : List Char} {kind : TokenKind} {extra : Nat}
    (h : lexeme? c rest = some (kind, extra)) :
    c ≠ '=' ∧ c ≠ '.' ∧ (c.isDigit = true → kind = .number) ∧
      (isWordPart c = true → kind = .number ∨ kind = .identifier) := by
  refine ⟨?_, ?_, fun hdigit => ?_, fun hpart => ?_⟩
  · rintro rfl
    cases h
  · rintro rfl
    cases h
  · unfold lexeme? at h
    rw [if_pos hdigit] at h
    cases h
    rfl
  · unfold lexeme? at h
    split at h
    · cases h
      exact Or.inl rfl
    · next hdigit =>
      have hstart : isWordStart c = true := by
        simpa [isWordPart, isWordStart, Char.isAlphanum, hdigit] using hpart
      rw [if_pos hstart] at h
      cases h
      exact Or.inr rfl

/-- What starts a word may stand inside one. -/
theorem isWordPart_of_isWordStart {c : Char} (h : isWordStart c = true) : isWordPart c = true := by
  simp only [isWordStart, isWordPart, Char.isAlphanum, Bool.or_eq_true] at h ⊢
  rcases h with h | h
  · exact Or.inl (Or.inl h)
  · exact Or.inr h

end Lexer

namespace Token

/-- A lexeme in front of a character with which it cannot go on is the longest one there. -/
theorem IsLexeme.isLongest {t : Token} (h : t.IsLexeme) {rest : List Char}
    (hrest : ∀ c ∈ rest.head?, t.Ends c) : t.IsLongest (t.text.toList ++ rest) := by
  obtain ⟨c, v, hcv, hfound⟩ := Lexer.lexeme?_of_ends h hrest
  have hlongest := Lexer.isLongest_of_lexeme? hfound t.position
  rw [List.take_left, ← hcv, String.ofList_toList] at hlongest
  rw [hcv]
  exact hlongest

/-- No token goes on with a blank. -/
theorem ends_of_isBlank (t : Token) {c : Char} (h : Text.isBlank c = true) : t.Ends c := by
  have hrange := Lexer.toNat_of_isBlank h
  have hdigit : c.isDigit = false := by
    rw [← Bool.not_eq_true, Lexer.isDigit_iff]
    omega
  refine ⟨?_, ?_, fun _ => hdigit, fun _ => ?_⟩
  · rintro rfl
    exact absurd h (by decide)
  · rintro rfl
    exact absurd h (by decide)
  · have hstart : ¬ Lexer.isWordStart c = true := by
      rw [Lexer.isWordStart_iff]
      rintro (hupper | hlower | rfl)
      · omega
      · omega
      · exact absurd h (by decide)
    simpa [Lexer.isWordPart, Lexer.isWordStart, Char.isAlphanum, hdigit] using hstart

/-- A token does not go on with one that it stays apart from. -/
theorem Apart.ends {t u : Token} (h : t.Apart u) (hu : u.IsLexeme) {c : Char}
    (hc : u.text.toList.head? = some c) : t.Ends c := by
  obtain ⟨v, hv⟩ := List.head?_eq_some_iff.mp hc
  obtain ⟨extra, hfound, _⟩ := Lexer.lexeme?_complete hu ⟨[], by rw [hv, List.append_nil]⟩
  obtain ⟨hequals, hpoint, hdigit, hpart⟩ := Lexer.lexeme?_first hfound
  refine ⟨hequals, hpoint, fun hnumber => ?_, fun hword => ?_⟩
  · rw [← Bool.not_eq_true]
    exact fun hc => h.number hnumber (hdigit hc)
  · rw [← Bool.not_eq_true]
    exact fun hc => (hpart hc).elim (h.word hword).2 (h.word hword).1

end Token

/-! ## Texts of tokens -/

/-- A text is the texts of tokens with blanks around them. -/
inductive Spaced : List Char → List Token → Prop
  /-- Nothing but blanks. -/
  | blanks {w : List Char} : (∀ c ∈ w, Text.isBlank c = true) → Spaced w []
  /-- Blanks, a token and what follows. -/
  | token {w rest : List Char} {t : Token} {tokens : List Token} :
      (∀ c ∈ w, Text.isBlank c = true) → Spaced rest tokens →
      Spaced (w ++ (t.text.toList ++ rest)) (t :: tokens)

/-- Blanks may stand in front of a text of tokens. -/
theorem Spaced.prepend {w s : List Char} {tokens : List Token}
    (hw : ∀ c ∈ w, Text.isBlank c = true) (h : Spaced s tokens) : Spaced (w ++ s) tokens := by
  cases h with
  | blanks hs => exact .blanks (List.forall_mem_append.mpr ⟨hw, hs⟩)
  | token hs hrest =>
    rw [← List.append_assoc]
    exact .token (List.forall_mem_append.mpr ⟨hw, hs⟩) hrest

/-- A text of tokens starts with a blank or with the first of them. -/
theorem Spaced.head {s : List Char} {tokens : List Token} (h : Spaced s tokens)
    (hlexemes : ∀ t ∈ tokens, t.IsLexeme) {c : Char} (hc : s.head? = some c) :
    Text.isBlank c = true ∨ ∃ t others, tokens = t :: others ∧ t.text.toList.head? = some c := by
  cases h with
  | blanks hw => exact Or.inl (hw c (List.mem_of_head? hc))
  | @token w rest t tokens hw _ =>
    cases w with
    | cons d w =>
      cases hc
      exact Or.inl (hw c List.mem_cons_self)
    | nil =>
      obtain ⟨d, v, hdv⟩ := List.exists_cons_of_ne_nil (hlexemes t List.mem_cons_self).ne_nil
      refine Or.inr ⟨t, tokens, rfl, ?_⟩
      rw [hdv] at hc ⊢
      exact hc

/-- A text of whitelisted lexemes that stay apart consists of them. -/
theorem Spaced.exists_lexes {s : List Char} {tokens : List Token} (h : Spaced s tokens)
    (hlexemes : ∀ t ∈ tokens, t.IsLexeme) (hallowed : ∀ t ∈ tokens, t.IsAllowed)
    (hapart : tokens.IsChain Token.Apart) (position : Nat) :
    ∃ others, Lexer.Lexes [] position s others ∧
      others.map Token.terminal = tokens.map Token.terminal := by
  induction h generalizing position with
  | blanks hw => exact ⟨[], .blanks hw, rfl⟩
  | @token w rest t tokens hw hrest ih =>
    rw [List.forall_mem_cons] at hlexemes hallowed
    rw [List.isChain_cons] at hapart
    -- the token ends where the rest begins
    have hends : ∀ c ∈ rest.head?, t.Ends c := by
      intro c hc
      rcases hrest.head hlexemes.2 hc with hblank | ⟨u, others, rfl, hu⟩
      · exact t.ends_of_isBlank hblank
      · exact (hapart.1 u rfl).ends (hlexemes.2 u List.mem_cons_self) hu
    obtain ⟨others, hothers, hterminals⟩ :=
      ih hlexemes.2 hallowed.2 hapart.2 (position + w.length + t.text.length)
    have hlongest := hlexemes.1.isLongest hends
    rw [← List.append_nil rest] at hlongest
    let moved : Token := { t with position := ((position + w.length : Nat) : Int) }
    have hmoved : moved.IsLongest (moved.text.toList ++ (rest ++ [])) :=
      ⟨hlongest.isLexeme, hlongest.isPrefix, hlongest.length_le⟩
    refine ⟨moved :: others, .token hw hmoved hallowed.1 rfl hothers, ?_⟩
    rw [List.map_cons, List.map_cons, hterminals]
    rfl

/-! ## Taking blanks away -/

namespace Rendering

/-- The second text is the first one without some of its blanks. -/
inductive Thins : List Char → List Char → Prop
  /-- Nothing is taken away from nothing. -/
  | nil : Thins [] []
  /-- A character is kept. -/
  | keep (c : Char) {s u : List Char} : Thins s u → Thins (c :: s) (c :: u)
  /-- A blank is taken away. -/
  | drop {c : Char} {s u : List Char} : Text.isBlank c = true → Thins s u → Thins (c :: s) u

theorem Thins.refl (s : List Char) : Thins s s := by
  induction s with
  | nil => exact .nil
  | cons c s ih => exact .keep c ih

theorem Thins.trans {s u v : List Char} (h : Thins s u) (h' : Thins u v) : Thins s v := by
  induction h generalizing v with
  | nil => exact h'
  | keep c _ ih =>
    cases h' with
    | keep _ h' => exact .keep c (ih h')
    | drop hc h' => exact .drop hc (ih h')
  | drop hc _ ih => exact .drop hc (ih h')

theorem Thins.append {s s' u u' : List Char} (hs : Thins s s') (hu : Thins u u') :
    Thins (s ++ u) (s' ++ u') := by
  induction hs with
  | nil => exact hu
  | keep c _ ih => exact .keep c ih
  | drop hc _ ih => exact .drop hc ih

theorem Thins.reverse {s u : List Char} (h : Thins s u) : Thins s.reverse u.reverse := by
  induction h with
  | nil => exact .nil
  | keep c _ ih =>
    rw [List.reverse_cons, List.reverse_cons]
    exact ih.append (.refl [c])
  | @drop c s u hc _ ih =>
    rw [List.reverse_cons, ← List.append_nil u.reverse]
    exact ih.append (.drop hc .nil)

/-- What is left of two texts is left of the one and of the other. -/
theorem Thins.exists_append {s u v : List Char} (h : Thins (s ++ u) v) :
    ∃ s' u', v = s' ++ u' ∧ Thins s s' ∧ Thins u u' := by
  induction s generalizing v with
  | nil => exact ⟨[], v, rfl, .nil, h⟩
  | cons c s ih =>
    cases h with
    | keep _ h =>
      obtain ⟨s', u', rfl, hs, hu⟩ := ih h
      exact ⟨c :: s', u', rfl, .keep c hs, hu⟩
    | drop hc h =>
      obtain ⟨s', u', rfl, hs, hu⟩ := ih h
      exact ⟨s', u', rfl, .drop hc hs, hu⟩

/-- What is left of blanks is blanks. -/
theorem Thins.blanks {w v : List Char} (h : Thins w v) (hw : ∀ c ∈ w, Text.isBlank c = true) :
    ∀ c ∈ v, Text.isBlank c = true := by
  induction h with
  | nil => exact hw
  | keep c _ ih =>
    rw [List.forall_mem_cons] at hw ⊢
    exact ⟨hw.1, ih hw.2⟩
  | drop _ _ ih => exact ih (List.forall_mem_cons.mp hw).2

/-- Nothing is taken away from a text without blanks. -/
theorem Thins.eq_of_no_blank {s v : List Char} (h : Thins s v)
    (hs : ∀ c ∈ s, Text.isBlank c = false) : v = s := by
  induction h with
  | nil => rfl
  | keep c _ ih => rw [ih (List.forall_mem_cons.mp hs).2]
  | drop hc _ _ =>
    rw [(List.forall_mem_cons.mp hs).1] at hc
    cases hc

/-! ## The steps of rendering -/

theorem thins_joinSpaces (s : List Char) : Thins s (joinSpaces s) := by
  induction s with
  | nil => exact .nil
  | cons c rest ih =>
    rw [joinSpaces]
    split
    · next hspace => exact .drop (hspace.1 ▸ rfl) ih
    · exact .keep c ih

theorem thins_tightenOpening (s : List Char) : ∀ opened, Thins s (tightenOpening opened s) := by
  induction s with
  | nil => exact fun _ => .nil
  | cons c rest ih =>
    intro opened
    rw [tightenOpening]
    split
    · next hspace => exact .drop (hspace.1 ▸ rfl) (ih false)
    · exact .keep c (ih _)

theorem thins_tightenClosing (s : List Char) : Thins s (tightenClosing s) := by
  induction s with
  | nil => exact .nil
  | cons c rest ih =>
    rw [tightenClosing]
    split
    · next hspace => exact .drop (hspace.1 ▸ rfl) ih
    · exact .keep c ih

theorem thins_dropWhile (s : List Char) : Thins s (s.dropWhile Text.isBlank) := by
  induction s with
  | nil => exact .nil
  | cons c rest ih =>
    rw [List.dropWhile_cons]
    split
    · next hblank => exact .drop hblank ih
    · exact .refl _

theorem thins_trim (s : List Char) : Thins s (Text.trim s) := by
  have hback := (thins_dropWhile (s.dropWhile Text.isBlank).reverse).reverse
  rw [List.reverse_reverse] at hback
  exact (thins_dropWhile s).trans hback

/-- The spelling of a lexeme is its text with blanks around it. -/
theorem exists_spell {t : Token} (h : t.IsLexeme) :
    ∃ w v, (∀ c ∈ w, Text.isBlank c = true) ∧ (∀ c ∈ v, Text.isBlank c = true) ∧
      spell t = w ++ (t.text.toList ++ v) := by
  have hspace : ∀ c ∈ [' '], Text.isBlank c = true := List.all_eq_true.mp rfl
  have hnone : ∀ c ∈ ([] : List Char), Text.isBlank c = true := by simp
  unfold spell
  split
  case h_1 hkind =>
    rw [Token.IsLexeme, hkind] at h
    exact ⟨[], [' '], hnone, hspace, by rw [h]; rfl⟩
  case h_5 => exact ⟨[], [], hnone, hnone, (List.append_nil _).symm⟩
  all_goals exact ⟨[' '], [' '], hspace, hspace, rfl⟩

/-- The spellings of lexemes, one after the other, are a text of them. -/
theorem spaced_spell {tokens : List Token} (h : ∀ t ∈ tokens, t.IsLexeme) :
    Spaced (tokens.flatMap spell) tokens := by
  induction tokens with
  | nil => exact .blanks (by simp)
  | cons t tokens ih =>
    rw [List.forall_mem_cons] at h
    obtain ⟨w, v, hw, hv, hspell⟩ := exists_spell h.1
    rw [List.flatMap_cons, hspell, List.append_assoc, List.append_assoc]
    exact .token hw ((ih h.2).prepend hv)

end Rendering

namespace Token

/-- No character of a lexeme is a blank. -/
theorem IsLexeme.isBlank_eq_false {t : Token} (h : t.IsLexeme) :
    ∀ c ∈ t.text.toList, Text.isBlank c = false := by
  have hdigit : ∀ c : Char, c.isDigit = true → Text.isBlank c = false := by
    intro c hc
    rw [← Bool.not_eq_true]
    intro hblank
    rw [(Token.mk .number "" 0 |>.ends_of_isBlank hblank).number rfl] at hc
    cases hc
  have hpart : ∀ c : Char, Lexer.isWordPart c = true → Text.isBlank c = false := by
    intro c hc
    rw [← Bool.not_eq_true]
    intro hblank
    rw [(Token.mk .identifier "" 0 |>.ends_of_isBlank hblank).word rfl] at hc
    cases hc
  have hsymbol : ∀ s : List Char, s.all (fun c => !Text.isBlank c) = true →
      ∀ c ∈ s, Text.isBlank c = false := fun s hs => by simpa using hs
  unfold IsLexeme at h
  split at h
  case h_1 =>
    obtain ⟨whole, tail, htext, _, hwhole, htail⟩ := h
    rw [htext, List.forall_mem_append]
    refine ⟨fun c hc => hdigit c (hwhole c hc), ?_⟩
    rcases htail with rfl | ⟨fraction, rfl, _, hfraction⟩
    · simp
    · rw [List.forall_mem_cons]
      exact ⟨rfl, fun c hc => hdigit c (hfraction c hc)⟩
  case h_2 =>
    obtain ⟨first, others, htext, hfirst, hothers⟩ := h
    rw [htext, List.forall_mem_cons]
    exact ⟨hpart first (Lexer.isWordPart_of_isWordStart hfirst), fun c hc => hpart c (hothers c hc)⟩
  case h_3 =>
    obtain ⟨op, htext⟩ := h
    rw [htext]
    cases op <;> exact hsymbol _ rfl
  all_goals
    rw [h]
    exact hsymbol _ rfl

end Token

/-- A text of lexemes stays one when blanks are taken away. -/
theorem Spaced.thin {s u : List Char} {tokens : List Token} (h : Spaced s tokens)
    (hlexemes : ∀ t ∈ tokens, t.IsLexeme) (hthins : Rendering.Thins s u) : Spaced u tokens := by
  induction h generalizing u with
  | blanks hw => exact .blanks (hthins.blanks hw)
  | token hw _ ih =>
    rw [List.forall_mem_cons] at hlexemes
    obtain ⟨w', v, rfl, hw', hv⟩ := hthins.exists_append
    obtain ⟨text, rest', rfl, htext, hrest⟩ := hv.exists_append
    rw [htext.eq_of_no_blank hlexemes.1.isBlank_eq_false]
    exact .token (hw'.blanks hw) (ih hlexemes.2 hrest)

/-! ## Rendering and reading back -/

open Rendering in
/-- The rendering of lexemes is a text of them. -/
theorem spaced_render {tokens : List Token} (h : ∀ t ∈ tokens, t.IsLexeme) :
    Spaced (render tokens).toList tokens := by
  unfold render
  rw [String.toList_ofList]
  have hjoined := (spaced_spell h).thin h (thins_joinSpaces _)
  have hopened := hjoined.thin h (thins_tightenOpening _ false)
  have hclosed := hopened.thin h (thins_tightenClosing _)
  exact hclosed.thin h (thins_trim _)

/-- Whitelisted lexemes that stay apart are read back from their rendering, up to their
positions. -/
theorem tokenize_render {tokens : List Token} (hne : tokens ≠ [])
    (hlexemes : ∀ t ∈ tokens, t.IsLexeme) (hallowed : ∀ t ∈ tokens, t.IsAllowed)
    (hapart : tokens.IsChain Token.Apart) :
    ∃ others, tokenize (render tokens) = .ok others ∧
      others.map Token.terminal = tokens.map Token.terminal := by
  obtain ⟨others, hothers, hterminals⟩ :=
    (spaced_render hlexemes).exists_lexes hlexemes hallowed hapart 0
  refine ⟨others, Lexer.tokenize_eq_ok ?_ hothers, hterminals⟩
  rintro rfl
  exact hne (List.map_eq_nil_iff.mp hterminals.symm)

end LayerBlend
