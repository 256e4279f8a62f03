import LayerBlend.Proofs.Formula.ParserCompleteness

/-!
# Calls with any number of arguments

Whether a list of terminals is a phrase does not depend on how many arguments its calls have, while
the parser refuses a call that does not fit. With the name of a function that takes any number of
arguments in place of every other function's, the parser decides the grammar alone.

* `Terminal.loosen`, `Token.loosen` — that function's name in place of another one's.
* `Grammar.Derives.exists_loosen` — a phrase stays one when it is loosened, and its calls then fit.
* `Grammar.exists_read_loosen` — so a loosened phrase is read with any sufficient budget.
-/

namespace LayerBlend

/-- The terminal with the name of a function that takes any number of arguments in place of that of
another. -/
def Terminal.loosen : Terminal → Terminal
  | .word text => .word (if (Builtin.ofName? text).isSome then Builtin.min.name else text)
  | x => x

namespace Token

/-- The token with the name of a function that takes any number of arguments in place of that of
another. -/
def loosen (t : Token) : Token :=
  if t.kind = .identifier ∧ (Builtin.ofName? t.text).isSome then { t with text := Builtin.min.name }
  else t

@[simp] theorem kind_loosen (t : Token) : t.loosen.kind = t.kind := by
  unfold loosen
  split <;> rfl

/-- A token that is no name stays as it is. -/
theorem loosen_of_kind {t : Token} (h : t.kind ≠ .identifier) : t.loosen = t :=
  if_neg fun hname => h hname.1

/-- A name that is not that of a function stays as it is. -/
theorem loosen_of_ofName? {t : Token} (h : Builtin.ofName? t.text = none) : t.loosen = t := by
  refine if_neg fun hname => ?_
  rw [h] at hname
  exact absurd hname.2 Bool.false_ne_true

/-- The name of a function becomes that of one that takes any number of arguments. -/
theorem text_loosen {t : Token} {f : Builtin} (hkind : t.kind = .identifier)
    (h : Builtin.ofName? t.text = some f) : t.loosen.text = Builtin.min.name := by
  unfold loosen
  rw [if_pos ⟨hkind, by rw [h]; rfl⟩]

/-- The terminal of a loosened token. -/
theorem terminal_loosen (t : Token) : t.loosen.terminal = t.terminal.loosen := by
  by_cases hkind : t.kind = .identifier
  · have ht : t.terminal = .word t.text := by rw [terminal, hkind]
    rw [ht, terminal, kind_loosen, hkind]
    unfold loosen
    by_cases hname : (Builtin.ofName? t.text).isSome
    · rw [if_pos ⟨hkind, hname⟩, Terminal.loosen, if_pos hname]
    · rw [if_neg fun h => hname h.2, Terminal.loosen, if_neg hname]
  · rw [loosen_of_kind hkind]
    unfold terminal
    cases h : t.kind with
    | identifier => exact absurd h hkind
    | _ => rfl

/-- The terminals of loosened tokens. -/
theorem map_terminal_loosen (tokens : List Token) :
    (tokens.map loosen).map terminal = (tokens.map terminal).map Terminal.loosen := by
  rw [List.map_map, List.map_map]
  exact List.map_congr_left fun t _ => terminal_loosen t

end Token

/-- A channel has no function's name. -/
theorem Channel.builtin_ofName?_name (c : Channel) : Builtin.ofName? c.name = none := by
  obtain ⟨component, side⟩ := c
  cases component <;> cases side <;> rfl

/-- The least argument is taken of any number of arguments. -/
theorem Builtin.accepts_min (count : Nat) : Builtin.min.accepts count = true := by
  simp [accepts, arity]

namespace Grammar

open LayerBlend.Parser

/-- A loosened token is the same operator. -/
theorem operator?_loosen (operators : List BinaryOperator) (t : Token) :
    operator? operators t.loosen = operator? operators t := by
  by_cases hkind : t.kind = .operator
  · rw [Token.loosen_of_kind (by rw [hkind]; decide)]
  · rw [operator?_of_kind hkind, operator?_of_kind (by rwa [Token.kind_loosen])]

/-! ## Loosened phrases -/

/-- Loosened phrases, one for each of several. -/
theorem exists_parts_loosen {parts : List (List Terminal × Node)}
    (h : ∀ part ∈ parts, ∃ other, Derives .expression (part.1.map Terminal.loosen) other ∧
      other.CallsFit) :
    ∃ others : List (List Terminal × Node),
      others.map Prod.fst = (parts.map Prod.fst).map (List.map Terminal.loosen) ∧
      ∀ other ∈ others, Derives .expression other.1 other.2 ∧ other.2.CallsFit := by
  induction parts with
  | nil => exact ⟨[], rfl, by simp⟩
  | cons part parts ih =>
    rw [List.forall_mem_cons] at h
    obtain ⟨⟨tree, htree⟩, hparts⟩ := h
    obtain ⟨others, hothers, hall⟩ := ih hparts
    refine ⟨(part.1.map Terminal.loosen, tree) :: others, ?_,
      List.forall_mem_cons.mpr ⟨htree, hall⟩⟩
    rw [List.map_cons, hothers, List.map_cons, List.map_cons]

/-- Phrases with commas between them are loosened one by one. -/
theorem map_loosen_intercalate (parts : List (List Terminal)) :
    (List.intercalate [.comma] parts).map Terminal.loosen =
      List.intercalate [.comma] (parts.map (List.map Terminal.loosen)) := by
  cases parts with
  | nil => rfl
  | cons s others =>
    rw [List.map_cons, intercalate_comma_cons, intercalate_comma_cons, List.map_append,
      List.map_flatMap, List.flatMap_map]
    rfl

/-- A phrase stays one when it is loosened, and its calls then fit. -/
theorem Derives.exists_loosen {level : Level} {s : List Terminal} {tree : Node}
    (h : Derives level s tree) :
    ∃ other, Derives level (s.map Terminal.loosen) other ∧ other.CallsFit := by
  induction h with
  | tighter hlevel _ ih =>
    obtain ⟨other, hother, hfit⟩ := ih
    exact ⟨other, .tighter hlevel hother, hfit⟩
  | binary hop _ _ ihl ihr =>
    obtain ⟨left, hleft, hlfit⟩ := ihl
    obtain ⟨right, hright, hrfit⟩ := ihr
    rw [List.map_append]
    exact ⟨_, .binary hop hleft hright, Node.callsFit_binary.mpr ⟨hlfit, hrfit⟩⟩
  | conditional _ _ _ ihc ihp ihn =>
    obtain ⟨condition, hcondition, hcfit⟩ := ihc
    obtain ⟨positive, hpositive, hpfit⟩ := ihp
    obtain ⟨negative, hnegative, hnfit⟩ := ihn
    rw [List.map_append, List.map_cons, List.map_append]
    exact ⟨_, .conditional hcondition hpositive hnegative,
      Node.callsFit_choose.mpr ⟨hcfit, hpfit, hnfit⟩⟩
  | minus _ ih =>
    obtain ⟨other, hother, hfit⟩ := ih
    exact ⟨_, .minus hother, Node.callsFit_binary.mpr ⟨Node.callsFit_number _, hfit⟩⟩
  | plus _ ih =>
    obtain ⟨other, hother, hfit⟩ := ih
    exact ⟨other, .plus hother, hfit⟩
  | number hvalue => exact ⟨_, .number hvalue, Node.callsFit_number _⟩
  | channel c =>
    refine ⟨.channel c, ?_, Node.callsFit_channel _⟩
    rw [List.map_singleton, Terminal.loosen, Channel.builtin_ofName?_name]
    exact .channel c
  | call f _ ih =>
    obtain ⟨others, hothers, hall⟩ := exists_parts_loosen ih
    refine ⟨.call .min (others.map Prod.snd), ?_,
      Node.callsFit_call.mpr ⟨Builtin.accepts_min _, ?_⟩⟩
    · rw [List.map_cons, List.map_cons, List.map_append, map_loosen_intercalate, ← hothers,
        Terminal.loosen, Builtin.ofName?_name]
      exact .call .min fun other hother => (hall other hother).1
    · intro arg harg
      obtain ⟨other, hother, rfl⟩ := List.mem_map.mp harg
      exact (hall other hother).2
  | parentheses _ ih =>
    obtain ⟨other, hother, hfit⟩ := ih
    rw [List.map_cons, List.map_append]
    exact ⟨other, .parentheses hother, hfit⟩
  | array hne _ ih =>
    obtain ⟨others, hothers, hall⟩ := exists_parts_loosen ih
    refine ⟨.array (others.map Prod.snd), ?_, Node.callsFit_array.mpr ?_⟩
    · rw [List.map_cons, List.map_append, map_loosen_intercalate, ← hothers]
      refine .array ?_ fun other hother => (hall other hother).1
      rintro rfl
      exact hne (by simpa using hothers.symm)
    · intro item hitem
      obtain ⟨other, hother, rfl⟩ := List.mem_map.mp hitem
      exact (hall other hother).2

/-- The loosened tokens of a phrase are read with any sufficient budget. -/
theorem exists_read_loosen {level : Level} {tokens : List Token} {tree : Node}
    (h : Derives level (tokens.map Token.terminal) tree) {budget : Nat}
    (hbudget : need level tokens.length ≤ budget) :
    ∃ other, reader level budget (tokens.map Token.loosen) = .ok (other, []) := by
  obtain ⟨other, hother, hfit⟩ := h.exists_loosen
  refine ⟨other, ?_⟩
  rw [← List.append_nil (tokens.map Token.loosen)]
  refine (reads_of_derives hother hfit).1 ?_ (Token.map_terminal_loosen tokens) (stops_nil level)
  rwa [List.length_map, List.length_map]

end Grammar

end LayerBlend
