import LayerBlend.Proofs.Formula.Compilation

/-!
# Like trees have like values

Two trees that are the same but for their channels (`Node.Like R`) have the same arity
(`Node.Like.resultArity_eq`). When related channels read the same blocks, they are evaluated alike
within any number of nesting levels (`Node.Like.evaluatedAlike`), and so are formulas that are
compiled to them (`Engine.call_eq_of_like`).
-/

namespace LayerBlend

namespace Node

variable {R : Channel → Channel → Prop}

/-- Like trees have the same arity. -/
theorem Like.resultArity_eq {a b : Node} (h : a.Like R b) : a.resultArity = b.resultArity := by
  refine like_induct (motive := fun a b => a.resultArity = b.resultArity) ?number ?channel ?call
    ?binary ?choose ?array h
  case number => exact fun value => rfl
  case channel => exact fun c d _ => rfl
  case call => exact fun f xs ys _ => rfl
  case binary => exact fun op a b c d _ _ => rfl
  case choose =>
    intro a b c x y z _ hb hc
    rw [resultArity, resultArity, hb, hc]
  case array =>
    intro xs ys hall
    rw [resultArity, resultArity, hall.length_eq]

/-- Expressions that are evaluated alike one by one are evaluated alike together. -/
theorem mapM_eq {β : Type} {f g : Node → Except EvalFault β} {xs ys : List Node}
    (h : List.Forall₂ (fun x y => f x = g y) xs ys) : xs.mapM f = ys.mapM g := by
  induction h with
  | nil => rfl
  | cons hxy _ ih => rw [List.mapM_cons, List.mapM_cons, hxy, ih]

variable {α : Type} [Arithmetic α] {channels others : Channels α}

/-- Two trees have the same blocks as expressions, and the same values as formulas, within any
number of nesting levels. -/
def EvaluatedAlike (channels others : Channels α) (a b : Node) : Prop :=
  ∀ room, a.samplesWithin channels room = b.samplesWithin others room ∧
    a.valueWithin channels room = b.valueWithin others room

/-- Trees are evaluated alike when they are with room for their roots; without it both fail. -/
theorem EvaluatedAlike.of_roots {a b : Node}
    (h : ∀ room, a.samplesWithin channels (room + 2) = b.samplesWithin others (room + 2) ∧
      a.valueWithin channels (room + 2) = b.valueWithin others (room + 2)) :
    EvaluatedAlike channels others a b
  | 0 => ⟨rfl, rfl⟩
  | 1 => ⟨rfl, rfl⟩
  | room + 2 => h room

/-- Like trees are evaluated alike when related channels read the same. -/
theorem Like.evaluatedAlike (hread : ∀ c d, R c d → channels.read c = others.read d) {a b : Node}
    (h : a.Like R b) : EvaluatedAlike channels others a b := by
  have hplain : ∀ {x y : Except EvalFault (Samples α)}, x = y →
      x = y ∧ x.map Value.plain = y.map Value.plain := by
    intro x y hxy
    exact ⟨hxy, congrArg (Except.map Value.plain) hxy⟩
  refine like_induct (motive := EvaluatedAlike channels others) ?number ?channel ?call ?binary
    ?choose ?array h
  case number =>
    intro value
    apply EvaluatedAlike.of_roots
    intro room
    exact ⟨rfl, rfl⟩
  case channel =>
    intro c d hcd
    apply EvaluatedAlike.of_roots
    intro room
    exact hplain (congrArg Except.ok (hread c d hcd))
  case call =>
    intro f xs ys hall
    apply EvaluatedAlike.of_roots
    intro room
    have hargs : xs.mapM (samplesWithin channels room) = ys.mapM (samplesWithin others room) :=
      mapM_eq (hall.imp fun _ _ hxy => (hxy room).1)
    exact hplain (congrArg (· >>= f.apply) hargs)
  case binary =>
    intro op a b c d ha hb
    apply EvaluatedAlike.of_roots
    intro room
    have hsamples : (Node.binary op a b).samplesWithin channels (room + 2) =
        (Node.binary op c d).samplesWithin others (room + 2) := by
      rw [samplesWithin, samplesWithin, samplesBy, samplesBy, (ha room).1, (hb room).1]
    exact hplain hsamples
  case choose =>
    intro a b c x y z ha hb hc
    apply EvaluatedAlike.of_roots
    intro room
    rw [samplesWithin, samplesWithin, valueWithin, valueWithin, samplesBy, samplesBy, valueBy,
      valueBy, (ha room).1, (hb room).1, (hc room).1, (hb room).2, (hc room).2]
    exact ⟨rfl, rfl⟩
  case array =>
    intro xs ys hall
    apply EvaluatedAlike.of_roots
    intro room
    have hitems : xs.mapM (samplesWithin channels room) = ys.mapM (samplesWithin others room) :=
      mapM_eq (hall.imp fun _ _ hxy => (hxy room).1)
    exact ⟨rfl, congrArg (Except.map Value.parts) hitems⟩

end Node

/-- Formulas with like trees have the same clipped values when related channels read the same. -/
theorem Engine.call_eq_of_like {R : Channel → Channel → Prop} {α : Type} [Arithmetic α]
    {channels others : Channels α} {engine other : Engine}
    (hread : ∀ c d, R c d → channels.read c = others.read d) (h : engine.tree.Like R other.tree) :
    engine.call channels = other.call others := by
  unfold call
  rw [(h.evaluatedAlike hread nestingLimit).2]

end LayerBlend
