import LayerBlend.Proofs.Formula.ParserCompleteness

/-!
# Brackets and commas of a phrase

* `Grammar.net s` — how many more parentheses and brackets `s` opens than it closes;
  `Grammar.commas depth s` — how many of its commas stand outside brackets when `depth` of them are
  open in front of it.
* `Grammar.Closed s` — `s` closes what it opens, and none of its commas stands outside brackets.
  Every phrase is closed (`Grammar.Derives.closed`).
* `Grammar.commas_intercalate` — so the commas between phrases tell how many phrases there are, and
  `Grammar.intercalate_injective` — which ones.
* `Grammar.Derives.exists_items` — a formula that starts with a bracket is one array.
-/

namespace LayerBlend

/-- How many brackets a token of a class opens; one that it closes counts as minus one. -/
def TokenKind.opens : TokenKind → Int
  | .leftParen | .leftBracket => 1
  | .rightParen | .rightBracket => -1
  | _ => 0

namespace Grammar

/-- How many more brackets terminals open than they close. -/
def net : List Terminal → Int
  | [] => 0
  | x :: s => x.kind.opens + net s

/-- How many commas stand outside brackets when so many brackets are open in front. -/
def commas (depth : Int) : List Terminal → Nat
  | [] => 0
  | x :: s => (if x.kind = .comma ∧ depth ≤ 0 then 1 else 0) + commas (depth + x.kind.opens) s

/-- Terminals close what they open, and none of their commas stands outside brackets. -/
structure Closed (s : List Terminal) : Prop where
  /-- As many brackets are closed as are opened. -/
  net : net s = 0
  /-- No comma stands outside brackets. -/
  commas : commas 0 s = 0

/-! ## Counting -/

theorem net_append (s u : List Terminal) : net (s ++ u) = net s + net u := by
  induction s with
  | nil => simp [net]
  | cons x s ih =>
    simp only [List.cons_append, net, ih]
    omega

theorem commas_append (depth : Int) (s u : List Terminal) :
    commas depth (s ++ u) = commas depth s + commas (depth + net s) u := by
  induction s generalizing depth with
  | nil => simp [commas, net]
  | cons x s ih => simp only [List.cons_append, commas, net, ih, Int.add_assoc, Nat.add_assoc]

/-- Fewer commas stand outside brackets when more brackets are open in front. -/
theorem commas_le {depth deeper : Int} (h : depth ≤ deeper) (s : List Terminal) :
    commas deeper s ≤ commas depth s := by
  induction s generalizing depth deeper with
  | nil => exact Nat.le_refl _
  | cons x s ih =>
    simp only [commas]
    refine Nat.add_le_add ?_ (ih (by omega))
    split
    · next hx =>
      exact Nat.le_of_eq (if_pos ⟨hx.1, by omega⟩).symm
    · exact Nat.zero_le _

/-- Terminals of the same classes open the same brackets. -/
theorem net_congr {s u : List Terminal} (h : s.map Terminal.kind = u.map Terminal.kind) :
    net s = net u := by
  induction s generalizing u with
  | nil =>
    obtain rfl : u = [] := List.map_eq_nil_iff.mp h.symm
    rfl
  | cons x s ih =>
    obtain ⟨y, u, rfl, hy, hu⟩ := List.map_eq_cons_iff.mp h.symm
    rw [net, net, ih hu.symm, hy]

/-- Terminals of the same classes have the same commas. -/
theorem commas_congr (depth : Int) {s u : List Terminal}
    (h : s.map Terminal.kind = u.map Terminal.kind) : commas depth s = commas depth u := by
  induction s generalizing u depth with
  | nil =>
    obtain rfl : u = [] := List.map_eq_nil_iff.mp h.symm
    rfl
  | cons x s ih =>
    obtain ⟨y, u, rfl, hy, hu⟩ := List.map_eq_cons_iff.mp h.symm
    rw [commas, commas, ih _ hu.symm, hy]

/-! ## Closed pieces -/

/-- No comma of a closed piece stands outside brackets, whatever number of them is open. -/
theorem Closed.commas_eq_zero {s : List Terminal} (h : Closed s) {depth : Int} (hd : 0 ≤ depth) :
    Grammar.commas depth s = 0 := by
  have := commas_le hd s
  have := h.commas
  omega

theorem Closed.append {s u : List Terminal} (hs : Closed s) (hu : Closed u) : Closed (s ++ u) := by
  refine ⟨?_, ?_⟩
  · rw [net_append, hs.net, hu.net]
    rfl
  · rw [commas_append, hs.commas, hs.net, hu.commas_eq_zero (by omega)]

/-- A terminal that is neither a bracket nor a comma may stand in front of a closed piece. -/
theorem Closed.cons {x : Terminal} {s : List Terminal} (h : Closed s) (hopens : x.kind.opens = 0)
    (hcomma : x.kind ≠ .comma) : Closed (x :: s) := by
  refine ⟨?_, ?_⟩
  · rw [Grammar.net, hopens, h.net]
    rfl
  · rw [Grammar.commas, if_neg fun hx => hcomma hx.1, h.commas_eq_zero (by omega)]

/-- Terminals between two brackets are closed when they close what they open, and none of their
commas stands outside the two. -/
theorem closed_between {x y : Terminal} {s : List Terminal} (hx : x.kind.opens = 1)
    (hy : y.kind.opens = -1) (hnet : net s = 0) (hcommas : commas 1 s = 0) :
    Closed (x :: (s ++ [y])) := by
  have hxcomma : x.kind ≠ .comma := by
    intro h
    rw [h] at hx
    cases hx
  have hycomma : y.kind ≠ .comma := by
    intro h
    rw [h] at hy
    cases hy
  refine ⟨?_, ?_⟩
  · simp only [net, net_append, hx, hy, hnet]
    rfl
  · simp only [commas, commas_append, hx, hnet, hxcomma, hycomma, false_and, if_false]
    simpa using hcommas

/-! ## Pieces with commas between them -/

/-- Pieces that open equally many brackets open so many times as many together. -/
theorem net_intercalate {parts : List (List Terminal)} {m : Int} (h : ∀ s ∈ parts, net s = m) :
    net (List.intercalate [.comma] parts) = parts.length * m := by
  cases parts with
  | nil => simp [List.intercalate, net]
  | cons s parts =>
    rw [List.forall_mem_cons] at h
    rw [intercalate_comma_cons, net_append, h.1]
    have hrest : net (parts.flatMap (Terminal.comma :: ·)) = parts.length * m := by
      induction parts with
      | nil => simp [net]
      | cons u parts ih =>
        obtain ⟨hs, hmore⟩ := h
        rw [List.forall_mem_cons] at hmore
        rw [List.flatMap_cons, List.cons_append, net, net_append, hmore.1, ih ⟨hs, hmore.2⟩,
          List.length_cons, Int.natCast_add, Int.add_mul]
        simp only [Terminal.kind, TokenKind.opens]
        omega
    rw [hrest, List.length_cons, Int.natCast_add, Int.add_mul]
    omega

/-- Commas between pieces that close what they open stand outside brackets, unless a bracket is
open in front of all. -/
theorem commas_flatMap {parts : List (List Terminal)} {depth : Int} {k : Nat}
    (hnet : ∀ s ∈ parts, net s = 0) (hcommas : ∀ s ∈ parts, commas depth s = k) :
    commas depth (parts.flatMap (Terminal.comma :: ·)) =
      parts.length * (k + if depth ≤ 0 then 1 else 0) := by
  induction parts with
  | nil => simp [commas]
  | cons s parts ih =>
    rw [List.forall_mem_cons] at hnet hcommas
    rw [List.flatMap_cons, List.cons_append, commas, commas_append]
    simp only [Terminal.kind, TokenKind.opens, Int.add_zero, hnet.1, hcommas.1, ih hnet.2 hcommas.2,
      true_and, List.length_cons, Nat.succ_mul]
    omega

/-- The commas outside brackets tell how many pieces there are. -/
theorem commas_intercalate {parts : List (List Terminal)} {k : Nat} (hne : parts ≠ [])
    (hnet : ∀ s ∈ parts, net s = 0) (hcommas : ∀ s ∈ parts, commas 0 s = k) :
    commas 0 (List.intercalate [.comma] parts) + 1 = parts.length * (k + 1) := by
  cases parts with
  | nil => exact absurd rfl hne
  | cons s parts =>
    rw [List.forall_mem_cons] at hnet hcommas
    have hmore := commas_flatMap hnet.2 hcommas.2
    rw [if_pos (Int.le_refl 0)] at hmore
    rw [intercalate_comma_cons, commas_append, hcommas.1, hnet.1, Int.add_zero, hmore,
      List.length_cons, Nat.succ_mul]
    omega

/-- Closed pieces between two brackets are closed. -/
theorem closed_list {x y : Terminal} {parts : List (List Terminal)} (hx : x.kind.opens = 1)
    (hy : y.kind.opens = -1) (h : ∀ s ∈ parts, Closed s) :
    Closed (x :: (List.intercalate [.comma] parts ++ [y])) := by
  refine closed_between hx hy ?_ ?_
  · rw [net_intercalate fun s hs => (h s hs).net]
    exact Int.mul_zero _
  · cases parts with
    | nil => rfl
    | cons s parts =>
      rw [List.forall_mem_cons] at h
      rw [intercalate_comma_cons, commas_append, h.1.commas_eq_zero (by omega), h.1.net,
        Int.add_zero, commas_flatMap (fun u hu => (h.2 u hu).net)
          fun u hu => (h.2 u hu).commas_eq_zero (by omega)]
      simp

/-- Closed pieces in front of a comma that stands outside brackets can be told. -/
theorem append_comma_injective {s p u v : List Terminal} (hs : Closed s) (hp : Closed p)
    (h : s ++ .comma :: u = p ++ .comma :: v) : s = p ∧ u = v := by
  -- a longer piece would have the comma behind the shorter one outside its brackets
  have hlonger : ∀ {s r u v : List Terminal}, Closed s → Closed (s ++ r) →
      .comma :: u = r ++ .comma :: v → r = [] ∧ u = v := by
    intro s r u v hs hsr hu
    cases r with
    | nil => exact ⟨rfl, (List.cons.inj hu).2⟩
    | cons x r =>
      obtain rfl : Terminal.comma = x := (List.cons.inj hu).1
      have := hsr.commas
      rw [commas_append, hs.net, Int.add_zero, commas, if_pos ⟨rfl, Int.le_refl 0⟩] at this
      omega
  rcases List.append_eq_append_iff.mp h with ⟨r, rfl, hu⟩ | ⟨r, rfl, hv⟩
  · obtain ⟨rfl, huv⟩ := hlonger hs hp hu
    exact ⟨(List.append_nil s).symm, huv⟩
  · obtain ⟨rfl, hvu⟩ := hlonger hp hs hv
    exact ⟨List.append_nil p, hvu.symm⟩

/-- Closed pieces with commas between them can be told, when it is known how many there are. -/
theorem intercalate_injective :
    ∀ {parts others : List (List Terminal)}, parts.length = others.length →
      (∀ s ∈ parts, Closed s) → (∀ s ∈ others, Closed s) →
      List.intercalate [.comma] parts = List.intercalate [.comma] others → parts = others
  | [], [], _, _, _, _ => rfl
  | [s], [p], _, _, _, h => by simpa [List.intercalate] using h
  | s :: s' :: parts, p :: p' :: others, hlength, hs, hp, h => by
    rw [List.forall_mem_cons] at hs hp
    rw [List.intercalate_cons_cons, List.intercalate_cons_cons, List.append_assoc,
      List.append_assoc] at h
    obtain ⟨rfl, hrest⟩ := append_comma_injective hs.1 hp.1 h
    rw [intercalate_injective (Nat.succ.inj hlength) hs.2 hp.2 hrest]

/-! ## Phrases -/

/-- A phrase closes what it opens, and none of its commas stands outside brackets. -/
theorem Derives.closed {level : Level} {s : List Terminal} {tree : Node}
    (h : Derives level s tree) : Closed s := by
  have hlist : ∀ {parts : List (List Terminal × Node)}, (∀ part ∈ parts, Closed part.1) →
      ∀ s ∈ parts.map Prod.fst, Closed s := by
    intro parts hparts s hs
    obtain ⟨part, hpart, rfl⟩ := List.mem_map.mp hs
    exact hparts part hpart
  induction h with
  | tighter _ _ ih => exact ih
  | binary _ _ _ ihl ihr => exact ihl.append (ihr.cons rfl (by simp [Terminal.kind]))
  | conditional _ _ _ ihc ihp ihn =>
    exact ihc.append ((ihp.append (ihn.cons rfl (by decide))).cons rfl (by decide))
  | minus _ ih | plus _ ih => exact ih.cons rfl (by simp [Terminal.kind])
  | number _ => exact ⟨rfl, rfl⟩
  | channel c => exact ⟨rfl, rfl⟩
  | call f _ ih => exact (closed_list rfl rfl (hlist ih)).cons rfl (by simp [Terminal.kind])
  | parentheses _ ih => exact closed_between rfl rfl ih.net (ih.commas_eq_zero (by omega))
  | array _ _ ih => exact closed_list rfl rfl (hlist ih)

/-- A phrase that starts with a bracket has an array in its tree. -/
theorem Derives.not_arrayFree {level : Level} {s u : List Terminal} {tree : Node}
    (h : Derives level s tree) (hs : s = .leftBracket :: u) : ¬ tree.ArrayFree := by
  induction h generalizing u with
  | tighter _ _ ih => exact ih hs
  | binary _ hleft _ ihl _ =>
    obtain ⟨x, v, rfl, _⟩ := hleft.exists_first
    obtain rfl : x = .leftBracket := (List.cons.inj hs).1
    exact fun hfree => ihl rfl (Node.arrayFree_binary.mp hfree).1
  | conditional hc _ _ ihc _ _ =>
    obtain ⟨x, v, rfl, _⟩ := hc.exists_first
    obtain rfl : x = .leftBracket := (List.cons.inj hs).1
    exact fun hfree => ihc rfl (Node.arrayFree_choose.mp hfree).1
  | array _ _ _ => exact Node.not_arrayFree_array _
  | minus _ _ | plus _ _ | number _ | channel _ | call _ _ _ | parentheses _ _ =>
    cases (List.cons.inj hs).1

/-- A phrase that starts with a bracket and has its arrays at the result position is one array: the
bracket can neither start an operand nor a condition. -/
theorem Derives.exists_items {level : Level} {s u : List Terminal} {tree : Node}
    (h : Derives level s tree) (hs : s = .leftBracket :: u) (hplaced : tree.ArraysPlaced) :
    ∃ items : List (List Terminal × Node), items ≠ [] ∧
      (∀ item ∈ items, Derives .expression item.1 item.2) ∧
      u = List.intercalate [.comma] (items.map Prod.fst) ++ [.rightBracket] ∧
      tree = .array (items.map Prod.snd) := by
  induction h generalizing u with
  | tighter _ _ ih => exact ih hs hplaced
  | binary _ hleft _ _ _ =>
    obtain ⟨x, v, rfl, _⟩ := hleft.exists_first
    obtain rfl : x = .leftBracket := (List.cons.inj hs).1
    exact absurd (Node.arraysPlaced_binary.mp hplaced).1 (hleft.not_arrayFree rfl)
  | conditional hc _ _ _ _ _ =>
    obtain ⟨x, v, rfl, _⟩ := hc.exists_first
    obtain rfl : x = .leftBracket := (List.cons.inj hs).1
    exact absurd (Node.arraysPlaced_choose.mp hplaced).1 (hc.not_arrayFree rfl)
  | @array items hne hitems _ => exact ⟨items, hne, hitems, (List.cons.inj hs).2.symm, rfl⟩
  | minus _ _ | plus _ _ | number _ | channel _ | call _ _ _ | parentheses _ _ =>
    cases (List.cons.inj hs).1

end Grammar

end LayerBlend
