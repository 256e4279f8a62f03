import LayerBlend.Proofs.Formula.Likeness
import LayerBlend.Proofs.Formula.NormalForm

/-!
# Formulas with the layers exchanged

* `Channel.mirror` is the same component of the other layer, and `mirrorName` exchanges the names of
  channels and the shorthands of layers.
* `mirrorText` exchanges them in a text, name by name, whether or not the text is a formula. Doing
  so twice changes nothing (`mirrorText_mirrorText`).
* `Lexer.Alike` relates characters that scanning does not tell apart. A mirrored text is alike to
  the text (`alike_mirrorFrom`), so the same lexemes stand at the same places of both
  (`Lexer.lexeme?_alike`).
* `tokenize_mirrorText`: the tokens of a mirrored text are the mirrored tokens, at the same places,
  and `expandShorthand_mirror`: their expansion is the mirrored expansion.
* `compile_mirrorText`: a mirrored formula compiles to a tree that is the same but for exchanged
  channels.
-/

namespace LayerBlend

/-! ## Names -/

/-- The other layer. -/
def Side.mirror : Side → Side
  | .base => .blend
  | .blend => .base

/-- The same component of the other layer. -/
def Channel.mirror (c : Channel) : Channel :=
  ⟨c.component, c.side.mirror⟩

/-- The other layer of the other layer is the layer. -/
@[simp] theorem Side.mirror_mirror (side : Side) : side.mirror.mirror = side := by
  cases side <;> rfl

/-- The channel of the other layer belongs to the channel again. -/
@[simp] theorem Channel.mirror_mirror (c : Channel) : c.mirror.mirror = c := by
  simp [mirror]

/-- A name with the layers exchanged, if it is that of a channel or a layer. -/
def mirrorName (name : String) : String :=
  match Channel.ofName? name, Side.ofShorthand? name with
  | some c, _ => c.mirror.name
  | none, some side => side.mirror.shorthand
  | none, none => name

/-- No shorthand is the name of a channel. -/
@[simp] theorem Side.channel_ofName?_shorthand (side : Side) :
    Channel.ofName? side.shorthand = none := by
  cases side <;> rfl

/-- The name of a channel becomes that of the other layer's. -/
@[simp] theorem mirrorName_channel (c : Channel) : mirrorName c.name = c.mirror.name := by
  simp [mirrorName]

/-- The shorthand of a layer becomes that of the other layer. -/
@[simp] theorem mirrorName_shorthand (side : Side) :
    mirrorName side.shorthand = side.mirror.shorthand := by
  simp [mirrorName]

/-- A name is that of a channel or a layer, or it stays. -/
theorem mirrorName_cases (name : String) :
    (∃ c : Channel, name = c.name) ∨ (∃ side : Side, name = side.shorthand) ∨
      Channel.ofName? name = none ∧ Side.ofShorthand? name = none ∧ mirrorName name = name := by
  cases hchannel : Channel.ofName? name with
  | some c => exact .inl ⟨c, Channel.eq_name_of_ofName? hchannel⟩
  | none =>
    cases hside : Side.ofShorthand? name with
    | some side => exact .inr (.inl ⟨side, Side.eq_shorthand_of_ofShorthand? hside⟩)
    | none => exact .inr (.inr ⟨rfl, rfl, by simp [mirrorName, hchannel, hside]⟩)

/-- Exchanging the layers twice changes no name. -/
@[simp] theorem mirrorName_mirrorName (name : String) : mirrorName (mirrorName name) = name := by
  rcases mirrorName_cases name with ⟨c, rfl⟩ | ⟨side, rfl⟩ | ⟨_, _, hsame⟩
  · simp
  · simp
  · rw [hsame, hsame]

/-- Exchanging the layers keeps a name on the whitelist, and off it. -/
theorem isAllowed_mirrorName (name : String) : isAllowed (mirrorName name) = isAllowed name := by
  rcases mirrorName_cases name with ⟨c, rfl⟩ | ⟨side, rfl⟩ | ⟨_, _, hsame⟩
  · simp [isAllowed]
  · simp [isAllowed]
  · rw [hsame]

/-! ## Characters -/

namespace Lexer

/-- Two characters that scanning does not tell apart: they are the same, or words start with
both. -/
def Alike (x y : Char) : Prop :=
  x = y ∨ isWordStart x = true ∧ isWordStart y = true

/-- Characters that are alike both start words, or neither does. -/
theorem Alike.isWordStart_eq {x y : Char} (h : Alike x y) : isWordStart x = isWordStart y := by
  rcases h with rfl | ⟨hx, hy⟩
  · rfl
  · rw [hx, hy]

/-- Characters that are alike are both digits, or neither is. -/
theorem Alike.isDigit_eq {x y : Char} (h : Alike x y) : x.isDigit = y.isDigit := by
  rcases h with rfl | ⟨hx, hy⟩
  · rfl
  · rw [isDigit_eq_false_of_isWordStart hx, isDigit_eq_false_of_isWordStart hy]

/-- Characters that are alike are both parts of words, or neither is. -/
theorem Alike.isWordPart_eq {x y : Char} (h : Alike x y) : isWordPart x = isWordPart y := by
  rcases h with rfl | ⟨hx, hy⟩
  · rfl
  · rw [isWordPart_of_isWordStart hx, isWordPart_of_isWordStart hy]

/-- Characters that are alike are both a mark that starts no word, or neither is. -/
theorem Alike.eq_iff {x y z : Char} (h : Alike x y) (hz : isWordStart z = false) :
    x = z ↔ y = z := by
  rcases h with rfl | ⟨hx, hy⟩
  · rfl
  · constructor
    · rintro rfl
      simp [hx] at hz
    · rintro rfl
      simp [hy] at hz

/-- Nothing that starts a word is blank. -/
theorem isBlank_eq_false_of_isWordStart {c : Char} (h : isWordStart c = true) :
    Text.isBlank c = false := by
  by_contra hblank
  have hrange := toNat_of_isBlank (by simpa using hblank)
  rcases isWordStart_iff.mp h with hupper | hlower | rfl
  · omega
  · omega
  · simp at hrange

/-- Runs of a class that does not tell alike characters apart are equally long in alike texts, and
what is behind them is alike. -/
theorem alike_span {p : Char → Bool} (hp : ∀ x y, Alike x y → p x = p y) {s t : List Char}
    (h : List.Forall₂ Alike s t) :
    (s.takeWhile p).length = (t.takeWhile p).length ∧
      List.Forall₂ Alike (s.dropWhile p) (t.dropWhile p) := by
  induction h with
  | nil => simp
  | @cons x y s t hxy hst ih =>
    have hsame := hp x y hxy
    cases hx : p x with
    | true => simpa [hx, ← hsame] using ih
    | false => simp [hx, ← hsame, hxy, hst]

/-- A text that is alike to a run of parts of a word is one. -/
theorem alike_isWordPart {s t : List Char} (h : List.Forall₂ Alike s t)
    (hs : ∀ c ∈ s, isWordPart c = true) : ∀ c ∈ t, isWordPart c = true := by
  induction h with
  | nil => simp
  | cons hxy _ ih =>
    rw [List.forall_mem_cons] at hs ⊢
    exact ⟨hxy.isWordPart_eq ▸ hs.1, ih hs.2⟩

/-- The rest of a numeral is equally long in alike texts. -/
theorem numeralTail_alike {s t : List Char} (h : List.Forall₂ Alike s t) :
    numeralTail s = numeralTail t := by
  have hdigits : ∀ x y, Alike x y → x.isDigit = y.isDigit := fun _ _ h => h.isDigit_eq
  obtain ⟨hlength, hbehind⟩ := alike_span hdigits h
  unfold numeralTail
  rw [hlength]
  generalize s.dropWhile Char.isDigit = u at hbehind
  generalize t.dropWhile Char.isDigit = v at hbehind
  cases hbehind with
  | nil => rfl
  | @cons x y u v hxy huv =>
    have hpoint : x = '.' ↔ y = '.' := hxy.eq_iff (by decide)
    by_cases hx : x = '.'
    · obtain rfl := hpoint.mp hx
      subst hx
      simp only [(alike_span hdigits huv).1]
    · have hy : y ≠ '.' := fun h => hx (hpoint.mpr h)
      simp [hx, hy]

/-- What is found in a text depends on it up to alike characters. -/
theorem lexeme?_alike {c d : Char} {s t : List Char} (hcd : Alike c d)
    (h : List.Forall₂ Alike s t) : lexeme? c s = lexeme? d t := by
  have hequals : s.head? = some '=' ↔ t.head? = some '=' := by
    cases h with
    | nil => rfl
    | cons hxy _ => simpa using hxy.eq_iff (by decide)
  unfold lexeme?
  rw [hcd.isDigit_eq, hcd.isWordStart_eq, numeralTail_alike h,
    (alike_span (fun _ _ h => h.isWordPart_eq) h).1]
  by_cases hword : isWordStart d = true
  · simp [hword]
  · obtain rfl := (hcd.eq_iff (by simpa using hword)).mpr rfl
    simp only [hequals]

end Lexer

/-! ## Texts -/

/-- The characters of a text with the layers exchanged in each of its names; a name goes on for as
long as it can. -/
def mirrorFrom : List Char → List Char
  | [] => []
  | c :: rest =>
    if Lexer.isWordStart c then
      (mirrorName (String.ofList (c :: rest.takeWhile Lexer.isWordPart))).toList ++
        mirrorFrom (rest.dropWhile Lexer.isWordPart)
    else c :: mirrorFrom rest
termination_by text => text.length
decreasing_by
  · have := (List.dropWhile_suffix (l := rest) Lexer.isWordPart).length_le
    simp only [List.length_cons]
    omega
  · simp

/-- A text with the layers exchanged in each of its names. -/
def mirrorText (text : String) : String :=
  String.ofList (mirrorFrom text.toList)

/-- Exchanging the layers replaces characters by alike ones in a name. -/
theorem alike_mirrorName (name : String) :
    List.Forall₂ Lexer.Alike name.toList (mirrorName name).toList := by
  rcases mirrorName_cases name with ⟨⟨component, side⟩, rfl⟩ | ⟨side, rfl⟩ | ⟨_, _, hsame⟩
  · rw [mirrorName_channel, Channel.name, Channel.name, String.toList_ofList, String.toList_ofList]
    refine .cons (.inl rfl) (.cons (.inr ?_) .nil)
    cases side <;> exact ⟨rfl, rfl⟩
  · rw [mirrorName_shorthand]
    cases side <;> exact .cons (.inr (by decide)) .nil
  · rw [hsame]
    exact List.forall₂_same.mpr fun _ _ => .inl rfl

/-- Exchanging the layers replaces characters by alike ones. -/
theorem alike_mirrorFrom (text : List Char) :
    List.Forall₂ Lexer.Alike text (mirrorFrom text) := by
  fun_induction mirrorFrom text with
  | case1 => exact .nil
  | case2 c rest hstart ih =>
    have hname := alike_mirrorName (String.ofList (c :: rest.takeWhile Lexer.isWordPart))
    rw [String.toList_ofList] at hname
    have hsplit : c :: rest =
        (c :: rest.takeWhile Lexer.isWordPart) ++ rest.dropWhile Lexer.isWordPart := by simp
    conv => lhs; rw [hsplit]
    exact List.rel_append hname ih
  | case3 c rest hstart ih => exact .cons (.inl rfl) ih

/-- What starts no word stays. -/
theorem mirrorFrom_cons {c : Char} (h : Lexer.isWordStart c = false) (rest : List Char) :
    mirrorFrom (c :: rest) = c :: mirrorFrom rest := by
  rw [mirrorFrom, h]
  simp

/-- Characters that start no word stay. -/
theorem mirrorFrom_append {marks : List Char} (h : ∀ c ∈ marks, Lexer.isWordStart c = false)
    (rest : List Char) : mirrorFrom (marks ++ rest) = marks ++ mirrorFrom rest := by
  induction marks with
  | nil => rfl
  | cons c marks ih =>
    rw [List.forall_mem_cons] at h
    rw [List.cons_append, mirrorFrom_cons h.1, ih h.2, List.cons_append]

/-- A whole name is exchanged at once. -/
theorem mirrorFrom_word {name : String} {first : Char} {others rest : List Char}
    (hname : name.toList = first :: others) (hfirst : Lexer.isWordStart first = true)
    (hothers : ∀ c ∈ others, Lexer.isWordPart c = true)
    (hrest : ∀ c ∈ rest.head?, Lexer.isWordPart c = false) :
    mirrorFrom (name.toList ++ rest) = (mirrorName name).toList ++ mirrorFrom rest := by
  obtain ⟨htake, hdrop⟩ := Lexer.span_run hothers hrest
  rw [hname, List.cons_append, mirrorFrom, if_pos hfirst, htake, hdrop, ← hname,
    String.ofList_toList]

/-- A mirrored text goes on with a part of a word exactly where the text does. -/
theorem isWordPart_head_mirrorFrom {text : List Char}
    (h : ∀ c ∈ text.head?, Lexer.isWordPart c = false) :
    ∀ c ∈ (mirrorFrom text).head?, Lexer.isWordPart c = false := by
  have halike := alike_mirrorFrom text
  generalize mirrorFrom text = mirrored at halike
  cases halike with
  | nil => simp
  | cons hxy _ =>
    intro c hc
    cases hc
    rw [← hxy.isWordPart_eq]
    exact h _ rfl

/-- Exchanging the layers twice changes no characters. -/
theorem mirrorFrom_mirrorFrom (text : List Char) : mirrorFrom (mirrorFrom text) = text := by
  fun_induction mirrorFrom text with
  | case1 => simp [mirrorFrom]
  | case2 c rest hstart ih =>
    generalize hname : String.ofList (c :: rest.takeWhile Lexer.isWordPart) = name
    have htext : name.toList = c :: rest.takeWhile Lexer.isWordPart := by
      rw [← hname, String.toList_ofList]
    -- the mirrored name is a word again, and what follows does not go on with it
    obtain ⟨d, others, hmirror, hd, hothers⟩ : ∃ d others, (mirrorName name).toList = d :: others ∧
        Lexer.isWordStart d = true ∧ ∀ x ∈ others, Lexer.isWordPart x = true := by
      have halike := alike_mirrorName name
      rw [htext] at halike
      cases hmirror : (mirrorName name).toList with
      | nil => simp [hmirror] at halike
      | cons d others =>
        rw [hmirror, List.forall₂_cons] at halike
        exact ⟨d, others, rfl, halike.1.isWordStart_eq ▸ hstart,
          Lexer.alike_isWordPart halike.2 (List.all_eq_true.mp List.all_takeWhile)⟩
    have hrest : ∀ x ∈ (rest.dropWhile Lexer.isWordPart).head?, Lexer.isWordPart x = false := by
      intro x hx
      have hhead := List.head?_dropWhile_not Lexer.isWordPart rest
      rwa [Option.mem_def.mp hx] at hhead
    rw [mirrorFrom_word hmirror hd hothers (isWordPart_head_mirrorFrom hrest),
      mirrorName_mirrorName, ih, htext]
    simp
  | case3 c rest hstart ih => rw [mirrorFrom_cons (by simpa using hstart), ih]

/-- Exchanging the layers twice changes no text. -/
@[simp] theorem mirrorText_mirrorText (text : String) : mirrorText (mirrorText text) = text := by
  simp [mirrorText, mirrorFrom_mirrorFrom]

/-! ## Tokens -/

namespace Token

/-- A token with the layers exchanged, if it is a name. -/
def mirror (t : Token) : Token :=
  if t.kind = .identifier then { t with text := mirrorName t.text } else t

/-- A mirrored token has the class of the token. -/
@[simp] theorem kind_mirror (t : Token) : t.mirror.kind = t.kind := by
  unfold mirror
  split <;> rfl

/-- A mirrored token stands where the token does. -/
@[simp] theorem position_mirror (t : Token) : t.mirror.position = t.position := by
  unfold mirror
  split <;> rfl

/-- A mirrored token is as long as the token, and alike. -/
theorem alike_mirror (t : Token) :
    List.Forall₂ Lexer.Alike t.text.toList t.mirror.text.toList := by
  unfold mirror
  split
  · exact alike_mirrorName t.text
  · exact List.forall₂_same.mpr fun _ _ => .inl rfl

/-- Only names have characters that start words. -/
theorem IsLexeme.isWordStart_eq_false {t : Token} (h : t.IsLexeme) (hkind : t.kind ≠ .identifier) :
    ∀ c ∈ t.text.toList, Lexer.isWordStart c = false := by
  have hdigit : ∀ c : Char, c.isDigit = true → Lexer.isWordStart c = false := by
    intro c hc
    by_contra hstart
    have hnot := Lexer.isDigit_eq_false_of_isWordStart (by simpa using hstart)
    simp [hc] at hnot
  have hmarks : ∀ marks : List Char, marks.all (fun c => !Lexer.isWordStart c) = true →
      ∀ c ∈ marks, Lexer.isWordStart c = false := by
    intro marks hall c hc
    simpa using List.all_eq_true.mp hall c hc
  unfold IsLexeme at h
  split at h
  case h_1 =>
    obtain ⟨whole, tail, htext, _, hwhole, htail⟩ := h
    intro c hc
    rw [htext, List.mem_append] at hc
    rcases hc with hc | hc
    · exact hdigit c (hwhole c hc)
    · rcases htail with rfl | ⟨fraction, rfl, _, hfraction⟩
      · simp at hc
      · rcases List.mem_cons.mp hc with rfl | hc
        · decide
        · exact hdigit c (hfraction c hc)
  case h_2 hidentifier => exact absurd hidentifier hkind
  case h_3 =>
    obtain ⟨op, htext⟩ := h
    rw [htext]
    cases op <;> exact hmarks _ rfl
  all_goals
    rw [h]
    exact hmarks _ rfl

/-- A token at the front of a text is exchanged by itself. -/
theorem IsLongest.mirrorFrom_append {t : Token} {rest : List Char}
    (h : t.IsLongest (t.text.toList ++ rest)) :
    mirrorFrom (t.text.toList ++ rest) = t.mirror.text.toList ++ mirrorFrom rest := by
  by_cases hkind : t.kind = .identifier
  · obtain ⟨first, others, htext, hfirst, hothers⟩ :
        ∃ first others, t.text.toList = first :: others ∧ Lexer.isWordStart first = true ∧
          ∀ c ∈ others, Lexer.isWordPart c = true := by
      have hlexeme := h.isLexeme
      rwa [IsLexeme, hkind] at hlexeme
    -- what follows does not go on with the name, or the name would be longer
    have hrest : ∀ c ∈ rest.head?, Lexer.isWordPart c = false := by
      intro c hc
      by_contra hpart
      obtain ⟨behind, rfl⟩ := List.head?_eq_some_iff.mp hc
      have hlonger := h.length_le ⟨.identifier, String.ofList (first :: (others ++ [c])), 0⟩
        hkind.symm ⟨first, others ++ [c], String.toList_ofList, hfirst, ?_⟩ ?_
      · rw [String.length_ofList, ← String.length_toList, htext] at hlonger
        simp only [List.length_cons, List.length_append, List.length_nil] at hlonger
        omega
      · intro x hx
        rcases List.mem_append.mp hx with hx | hx
        · exact hothers x hx
        · simpa [List.mem_singleton.mp hx] using hpart
      · rw [String.toList_ofList, htext]
        exact ⟨behind, by simp⟩
    rw [mirror, if_pos hkind]
    exact mirrorFrom_word htext hfirst hothers hrest
  · rw [mirror, if_neg hkind, LayerBlend.mirrorFrom_append (h.isLexeme.isWordStart_eq_false hkind)]

/-- The longest lexeme at its place is so in the mirrored text. -/
theorem IsLongest.mirror {t : Token} {rest : List Char}
    (h : t.IsLongest (t.text.toList ++ rest)) :
    t.mirror.IsLongest (t.mirror.text.toList ++ mirrorFrom rest) := by
  obtain ⟨c, v, hcv, hfound⟩ := Lexer.lexeme?_append h
  have halike := t.alike_mirror
  rw [hcv] at halike
  cases hmirror : t.mirror.text.toList with
  | nil => simp [hmirror] at halike
  | cons d w =>
    rw [hmirror, List.forall₂_cons] at halike
    have hlength : v.length = w.length := halike.2.length_eq
    rw [Lexer.lexeme?_alike halike.1 (List.rel_append halike.2 (alike_mirrorFrom rest)),
      hlength] at hfound
    have hlongest := Lexer.isLongest_of_lexeme? hfound t.position
    have hself : Token.mk t.kind (String.ofList (d :: (w ++ mirrorFrom rest).take w.length))
        t.position = t.mirror := by
      rw [List.take_left, ← hmirror, String.ofList_toList, ← kind_mirror t, ← position_mirror t]
    rwa [hself] at hlongest

/-- A token on the whitelist stays on it. -/
theorem IsAllowed.mirror {t : Token} (h : t.IsAllowed) : t.mirror.IsAllowed := by
  intro hkind
  rw [kind_mirror] at hkind
  rw [Token.mirror, if_pos hkind]
  exact isAllowed_iff.mp ((isAllowed_mirrorName t.text).trans (isAllowed_iff.mpr (h hkind)))

end Token

/-- A mirrored text consists of the mirrored tokens. -/
theorem Lexer.Lexes.mirror {position : Nat} {text : List Char} {tokens : List Token}
    (h : Lexes [] position text tokens) :
    Lexes [] position (mirrorFrom text) (tokens.map Token.mirror) := by
  have hblank : ∀ {w : List Char}, (∀ c ∈ w, Text.isBlank c = true) →
      ∀ c ∈ w, isWordStart c = false := by
    intro w hw c hc
    by_contra hstart
    have hnot := isBlank_eq_false_of_isWordStart (by simpa using hstart)
    simp [hw c hc] at hnot
  induction h with
  | @blanks position w hw =>
    have hsame := mirrorFrom_append (hblank hw) []
    rw [List.append_nil, mirrorFrom, List.append_nil] at hsame
    rw [hsame]
    exact .blanks hw
  | @token position w rest t tokens hw hlongest hallowed hposition _ ih =>
    rw [List.append_nil] at hlongest
    rw [mirrorFrom_append (hblank hw), hlongest.mirrorFrom_append]
    have hlength : t.text.length = t.mirror.text.length := by
      rw [← String.length_toList, ← String.length_toList, t.alike_mirror.length_eq]
    rw [hlength] at ih
    refine .token hw ?_ hallowed.mirror ((Token.position_mirror t).trans hposition) ih
    rw [List.append_nil]
    exact hlongest.mirror

/-- The tokens of a mirrored text are the mirrored tokens. -/
theorem tokenize_mirrorText {text : String} {tokens : List Token}
    (h : tokenize text = .ok tokens) :
    tokenize (mirrorText text) = .ok (tokens.map Token.mirror) := by
  rcases Lexer.tokenize_cases text with
    ⟨_, hblank⟩ | ⟨others, hne, hlexes, hok⟩ | ⟨_, _, _, hrefused⟩
  · cases h.symm.trans hblank
  · cases h.symm.trans hok
    refine Lexer.tokenize_eq_ok (by simpa using hne) ?_
    rw [mirrorText, String.toList_ofList]
    exact hlexes.mirror
  · cases h.symm.trans hrefused

/-! ## Expansions -/

namespace Token

/-- A mirrored shorthand is that of the other layer. -/
theorem side?_mirror (t : Token) : t.mirror.side? = t.side?.map Side.mirror := by
  by_cases hkind : t.kind = .identifier
  · rw [side?, kind_mirror, if_pos hkind, side?, if_pos hkind, mirror, if_pos hkind]
    dsimp only
    rcases mirrorName_cases t.text with ⟨⟨component, side⟩, htext⟩ | ⟨side, htext⟩ |
      ⟨_, hside, hsame⟩
    · rw [htext, mirrorName_channel]
      cases component <;> cases side <;> rfl
    · simp [htext]
    · rw [hsame, hside]
      rfl
  · rw [side?, kind_mirror, if_neg hkind, side?, if_neg hkind]
    rfl

/-- A copy of a mirrored token is the mirrored copy. -/
theorem select_mirror (c : Component) (t : Token) : t.mirror.select c = (t.select c).mirror := by
  unfold select
  rw [side?_mirror]
  cases hside : t.side? with
  | none => rfl
  | some side => simp [mirror, kind_of_side? hside, Channel.mirror]

end Token

/-- Mirrored tokens use shorthands exactly when the tokens do. -/
theorem usesShorthand_mirror (tokens : List Token) :
    usesShorthand (tokens.map Token.mirror) = usesShorthand tokens := by
  simp [usesShorthand, List.any_map, Function.comp_def, Token.side?_mirror]

/-- The expansion of mirrored tokens is the mirrored expansion. -/
theorem expandShorthand_mirror (tokens : List Token) :
    expandShorthand (tokens.map Token.mirror) = (expandShorthand tokens).map Token.mirror := by
  have hmarks : Token.openingBracket.mirror = Token.openingBracket ∧
      Token.separator.mirror = Token.separator ∧
      Token.closingBracket.mirror = Token.closingBracket := ⟨rfl, rfl, rfl⟩
  unfold expandShorthand
  rw [usesShorthand_mirror]
  cases usesShorthand tokens with
  | false => rfl
  | true =>
    simp [Component.all, List.intercalate, Function.comp_def, Token.select_mirror, hmarks]

/-- The channels that mirroring relates. -/
def IsMirror (c d : Channel) : Prop :=
  d = c.mirror

/-- A token that is no shorthand is like the mirrored one, up to exchanged channels. -/
theorem Token.like_mirror {t : Token} (h : t.side? = none) : t.Like IsMirror t.mirror := by
  have hsame : t.mirror = t → (∀ c : Channel, t.terminal ≠ .word c.name) →
      t.Like IsMirror t.mirror := by
    intro heq hnone
    rw [heq]
    exact .same hnone
  by_cases hkind : t.kind = .identifier
  · have hterminal : t.terminal = .word t.text := by rw [terminal, hkind]
    rw [side?, if_pos hkind] at h
    rcases mirrorName_cases t.text with ⟨c, htext⟩ | ⟨side, htext⟩ | ⟨hchannel, _, hname⟩
    · have hmirror : t.mirror.terminal = .word c.mirror.name := by
        rw [terminal, kind_mirror, hkind, mirror, if_pos hkind, htext, mirrorName_channel]
      rw [Like, hterminal, hmirror, htext]
      exact .channel rfl
    · simp [htext] at h
    · refine hsame (by rw [mirror, if_pos hkind, hname]) fun c hc => ?_
      rw [hterminal] at hc
      rw [Terminal.word.inj hc, Channel.ofName?_name] at hchannel
      cases hchannel
  · refine hsame (by rw [mirror, if_neg hkind]) fun c hc => hkind ?_
    exact Token.kind_eq hc

/-- Tokens without shorthands are like the mirrored ones, up to exchanged channels. -/
theorem tokensLike_mirror {tokens : List Token} (h : usesShorthand tokens = false) :
    TokensLike IsMirror tokens (tokens.map Token.mirror) := by
  refine List.forall₂_map_right_iff.mpr (List.forall₂_same.mpr fun t ht => ?_)
  have hnone := List.any_eq_false.mp h t ht
  exact Token.like_mirror (by simpa using hnone)

open Grammar in
/-- The mirrored text of a formula that compiles does so too, to a tree that is the same but for
exchanged channels, and with the same arity. -/
theorem compile_mirrorText {text : String} {engine : Engine} (h : compile text = .ok engine) :
    ∃ other, compile (mirrorText text) = .ok other ∧ engine.tree.Like IsMirror other.tree ∧
      other.arity = engine.arity := by
  obtain ⟨tokens, htokens, htree, harity, hprobe, _, _⟩ := compile_eq_ok_iff.mp h
  have hmirror := tokenize_mirrorText htokens
  have hparse := Engine.parseTree_eq_ok_iff.mp htree
  have hagree := parseWithin_agrees (Nat.le_refl Engine.nestingLimit)
    (tokensLike_mirror (usesShorthand_expandShorthand tokens))
  rw [← expandShorthand_mirror, hparse] at hagree
  obtain ⟨tree, hother, hlike⟩ : ∃ tree, parseWithin Engine.nestingLimit
      (expandShorthand (tokens.map Token.mirror)) = .ok tree ∧ engine.tree.Like IsMirror tree := by
    generalize parseWithin Engine.nestingLimit _ = outcome at hagree
    cases hagree with
    | ok hlike => exact ⟨_, rfl, hlike⟩
  have hsame : tree.resultArity = engine.tree.resultArity := hlike.resultArity_eq.symm
  -- at one half every channel reads the same, so the probes of the two trees are the same
  have hprobes : engine.tree.probe = tree.probe :=
    (hlike.evaluatedAlike (fun _ _ _ => rfl) Engine.nestingLimit).2
  rw [Engine.checkProbe, hprobes, ← Engine.checkProbe] at hprobe
  rw [Engine.checkArity, ← hsame] at harity
  exact ⟨⟨mirrorText text, render (expandShorthand (tokens.map Token.mirror)), tree, engine.arity⟩,
    compile_eq_ok_iff.mpr ⟨_, hmirror, Engine.parseTree_eq_ok_iff.mpr hother, harity, hprobe, rfl,
      rfl⟩, hlike, rfl⟩

end LayerBlend
