import LayerBlend.Proofs.Formula.Compilation
import Mathlib.Data.List.Forall2

/-!
# Formulas over pictures

When every channel is a block, a condition is a single value only if it reads no channel, so that
the branches that are evaluated depend on the formula alone.

* `Channels.Painted S` — every channel is given as a block of shape `S`, which has an axis.
* `Samples.Alike` — the outcomes of one expression for two pictures: they are the same, or neither
  is a single value (`Node.samples_alike`).
* `Node.pictureLevels` — the nesting levels that an evaluation over a picture takes, whatever its
  size and its pixels (`Node.levels_eq_pictureLevels`).
* `compile_longSum` — a formula that compiles and nests too deeply over pictures.
-/

namespace LayerBlend

variable {α : Type}

/-! ## Blocks that are alike -/

namespace Samples

/-- Two blocks that fit a shape each are the same, or neither is a single value. -/
def Alike (S T : Shape) (a b : Samples α) : Prop :=
  a.Fits S ∧ b.Fits T ∧ (a = b ∨ ¬a.isSingle = true ∧ ¬b.isSingle = true)

variable {S T : Shape}

theorem Alike.eq_of_isSingle {a b : Samples α} (h : a.Alike S T b) (ha : a.isSingle = true) :
    a = b :=
  h.2.2.elim id fun hblocks => absurd ha hblocks.1

theorem Alike.not_isSingle {a b : Samples α} (h : a.Alike S T b) (ha : ¬a.isSingle = true) :
    ¬b.isSingle = true := by
  rcases h.2.2 with rfl | hblocks
  · exact ha
  · exact hblocks.2

/-- Single values that are alike one by one are the same. -/
theorem eq_of_alike {xs ys : List (Samples α)} (h : List.Forall₂ (Alike S T) xs ys)
    (hsingle : ∀ s ∈ xs, s.isSingle = true) : xs = ys := by
  induction h with
  | nil => rfl
  | cons hxy _ ih =>
    rw [List.forall_mem_cons] at hsingle
    rw [hxy.eq_of_isSingle hsingle.1, ih hsingle.2]

/-- Of two lists of blocks that are alike one by one, each block of the first has its like. -/
theorem exists_alike {xs ys : List (Samples α)} (h : List.Forall₂ (Alike S T) xs ys)
    {x : Samples α} (hx : x ∈ xs) : ∃ y ∈ ys, x.Alike S T y := by
  obtain ⟨i, rfl⟩ := List.get_of_mem hx
  obtain ⟨hlength, hall⟩ := List.forall₂_iff_get.mp h
  have hi : i.val < ys.length := hlength ▸ i.isLt
  exact ⟨ys.get ⟨i, hi⟩, List.get_mem _ _, hall i i.isLt hi⟩

/-- The blocks of two lists that are alike one by one fit the shapes. -/
theorem fits_of_alike {xs ys : List (Samples α)} (h : List.Forall₂ (Alike S T) xs ys) :
    (∀ s ∈ xs, s.Fits S) ∧ ∀ s ∈ ys, s.Fits T := by
  induction h with
  | nil => simp
  | cons hxy _ ih =>
    exact ⟨List.forall_mem_cons.mpr ⟨hxy.1, ih.1⟩, List.forall_mem_cons.mpr ⟨hxy.2.1, ih.2⟩⟩

variable [Arithmetic α]

/-- A function of blocks gives a single value only for single values. -/
theorem isSingle_of_lift {f : List α → α} {blocks : List (Samples α)} {block : Samples α}
    (hfits : ∀ s ∈ blocks, s.Fits S) (h : lift f blocks = .ok block)
    (hsingle : block.isSingle = true) {s : Samples α} (hs : s ∈ blocks) : s.isSingle = true := by
  have hshapes : ∀ t ∈ blocks.map Samples.shape, t = [] ∨ t = S := by
    intro t ht
    obtain ⟨s, hs, rfl⟩ := List.mem_map.mp ht
    exact hfits s hs
  obtain ⟨T, hT, -, hempty⟩ := Shape.foldlM_join?_fits _ [] (Or.inl rfl) hshapes
  have hblock : block.shape = T := by
    unfold lift lift? Shape.joinAll? at h
    rw [hT] at h
    cases h
    rfl
  have hnil : T = [] := hblock.symm.trans (isSingle_iff.mp hsingle)
  exact isSingle_iff.mpr ((hempty hnil).2 _ (List.mem_map_of_mem hs))

/-- A function of blocks that are alike gives blocks that are alike. -/
theorem lift_alike (f : List α → α) {xs ys : List (Samples α)}
    (h : List.Forall₂ (Alike S T) xs ys) :
    ∃ a b, lift f xs = .ok a ∧ lift f ys = .ok b ∧ a.Alike S T b := by
  obtain ⟨hxs, hys⟩ := fits_of_alike h
  obtain ⟨a, ha, hafits, -⟩ := lift_represents f hxs
  obtain ⟨b, hb, hbfits, -⟩ := lift_represents f hys
  refine ⟨a, b, ha, hb, hafits, hbfits, ?_⟩
  by_cases hsingle : ∀ s ∈ xs, s.isSingle = true
  · rw [eq_of_alike h hsingle, hb] at ha
    exact Or.inl (Except.ok.inj ha).symm
  · obtain ⟨x, hx, hblock⟩ : ∃ x ∈ xs, ¬x.isSingle = true := by
      simpa using hsingle
    obtain ⟨y, hy, hxy⟩ := exists_alike h hx
    refine Or.inr ⟨fun hs => hblock ?_, fun hs => hxy.not_isSingle hblock ?_⟩
    · exact isSingle_of_lift hxs ha hs hx
    · exact isSingle_of_lift hys hb hs hy

end Samples

variable [Arithmetic α]

/-- A function that takes the number of blocks it is given is lifted to them. -/
theorem Builtin.apply_eq_lift {f : Builtin} {args : List (Samples α)}
    (h : f.accepts args.length = true) : f.apply args = Samples.lift f.compute args := by
  unfold Builtin.apply
  rw [if_pos h]
  rfl

/-! ## Pictures -/

namespace Channels

/-- Every channel is given as a block of the shape, which has an axis. -/
def Painted (channels : Channels α) (S : Shape) : Prop :=
  S ≠ [] ∧ ∀ c, ∃ block, channels c = some block ∧ block.shape = S

/-- The picture of one pixel whose channels are zero. -/
def blank : Channels α :=
  fun _ => some ⟨[1], #[Arithmetic.zero], rfl⟩

theorem painted_blank : (blank : Channels α).Painted [1] :=
  ⟨List.cons_ne_nil 1 [], fun _ => ⟨_, rfl, rfl⟩⟩

variable {channels : Channels α} {S : Shape}

omit [Arithmetic α] in
theorem Painted.uniform (h : channels.Painted S) : channels.Uniform S := by
  intro c block hblock
  obtain ⟨given, hgiven, hshape⟩ := h.2 c
  cases hgiven.symm.trans hblock
  exact Or.inr hshape

/-- What is read for a channel of a picture is a block. -/
theorem Painted.read (h : channels.Painted S) (c : Channel) :
    (channels.read c).Fits S ∧ ¬(channels.read c).isSingle = true := by
  obtain ⟨block, hblock, hshape⟩ := h.2 c
  have hread : (channels.read c).shape = S := by
    unfold Channels.read
    rw [hblock]
    exact hshape
  refine ⟨Or.inr hread, fun hsingle => h.1 ?_⟩
  rw [← hread, Samples.isSingle_iff.mp hsingle]

end Channels

namespace Node

variable {channels others : Channels α} {S T : Shape}

/-- The blocks of several expressions for two pictures are alike when those of each are. -/
theorem samplesOf_alike {nodes : List Node}
    (h : ∀ node ∈ nodes, ∃ a b, node.samples channels = .ok a ∧ node.samples others = .ok b ∧
      a.Alike S T b) :
    ∃ xs ys, samplesOf channels nodes = .ok xs ∧ samplesOf others nodes = .ok ys ∧
      xs.length = nodes.length ∧ List.Forall₂ (Samples.Alike S T) xs ys := by
  induction nodes with
  | nil => exact ⟨[], [], by rw [samplesOf], by rw [samplesOf], rfl, .nil⟩
  | cons node nodes ih =>
    obtain ⟨a, b, ha, hb, halike⟩ := h node List.mem_cons_self
    obtain ⟨xs, ys, hxs, hys, hlength, hall⟩ :=
      ih fun other hother => h other (List.mem_cons_of_mem _ hother)
    refine ⟨a :: xs, b :: ys, ?_, ?_, ?_, .cons halike hall⟩
    · rw [samplesOf, ha, hxs]
      rfl
    · rw [samplesOf, hb, hys]
      rfl
    · rw [List.length_cons, List.length_cons, hlength]

/-- The blocks of an expression for two pictures are the same, or neither is a single value. -/
theorem samples_alike (hS : channels.Painted S) (hT : others.Painted T) {tree : Node}
    (hfree : tree.ArrayFree) (hcalls : tree.CallsFit) :
    ∃ a b, tree.samples channels = .ok a ∧ tree.samples others = .ok b ∧ a.Alike S T b := by
  induction tree using induct with
  | number value =>
    refine ⟨_, _, by rw [samples], by rw [samples], ?_, ?_, Or.inl rfl⟩
    · exact Samples.fits_single S _
    · exact Samples.fits_single T _
  | channel c =>
    obtain ⟨hfits, hblock⟩ := hS.read c
    obtain ⟨hotherfits, hotherblock⟩ := hT.read c
    exact ⟨_, _, by rw [samples], by rw [samples], hfits, hotherfits, Or.inr ⟨hblock, hotherblock⟩⟩
  | call f args ih =>
    have hargs := arrayFree_call.mp hfree
    obtain ⟨haccepts, hfit⟩ := callsFit_call.mp hcalls
    obtain ⟨xs, ys, hxs, hys, hlength, hall⟩ :=
      samplesOf_alike fun arg harg => ih arg harg (hargs arg harg) (hfit arg harg)
    obtain ⟨a, b, ha, hb, hab⟩ := Samples.lift_alike f.compute hall
    refine ⟨a, b, ?_, ?_, hab⟩
    · rw [samples, hxs, ← ha]
      exact Builtin.apply_eq_lift (by rw [hlength, haccepts])
    · rw [samples, hys, ← hb]
      exact Builtin.apply_eq_lift (by rw [← hall.length_eq, hlength, haccepts])
  | binary op left right ihl ihr =>
    obtain ⟨hl, hr⟩ := arrayFree_binary.mp hfree
    obtain ⟨hlcalls, hrcalls⟩ := callsFit_binary.mp hcalls
    obtain ⟨a, b, ha, hb, hab⟩ := ihl hl hlcalls
    obtain ⟨c, d, hc, hd, hcd⟩ := ihr hr hrcalls
    obtain ⟨x, y, hx, hy, hxy⟩ := Samples.lift_alike _ (.cons hab (.cons hcd .nil))
    refine ⟨x, y, ?_, ?_, hxy⟩
    · rw [samples, ha, hc]
      exact hx
    · rw [samples, hb, hd]
      exact hy
  | choose condition positive negative ihc ihp ihn =>
    obtain ⟨hcfree, hpfree, hnfree⟩ := arrayFree_choose.mp hfree
    obtain ⟨hccalls, hpcalls, hncalls⟩ := callsFit_choose.mp hcalls
    obtain ⟨c, d, hc, hd, hcd⟩ := ihc hcfree hccalls
    obtain ⟨p, q, hp, hq, hpq⟩ := ihp hpfree hpcalls
    obtain ⟨m, n, hm, hn, hmn⟩ := ihn hnfree hncalls
    by_cases hsingle : c.isSingle = true
    · -- both evaluations take the same branch
      have hsame := hcd.eq_of_isSingle hsingle
      subst hsame
      rw [samples_choose_of_single hc hsingle, samples_choose_of_single hd hsingle]
      split
      · exact ⟨p, q, hp, hq, hpq⟩
      · exact ⟨m, n, hm, hn, hmn⟩
    · obtain ⟨x, y, hx, hy, hxy⟩ :=
        Samples.lift_alike Samples.select (.cons hcd (.cons hpq (.cons hmn .nil)))
      refine ⟨x, y, ?_, ?_, hxy⟩
      · rw [samples_choose_of_block hc hsingle hp hm]
        exact hx
      · rw [samples_choose_of_block hd (hcd.not_isSingle hsingle) hq hn]
        exact hy
  | array items _ => exact absurd hfree (not_arrayFree_array items)

/-- A condition over a picture that is decided is decided alike over every other one. -/
theorem decides_of_painted (hS : channels.Painted S) (hT : others.Painted T) :
    channels.Decides others := by
  intro condition hfree hcalls
  obtain ⟨a, b, ha, hb, hab⟩ := samples_alike hS hT hfree hcalls
  refine ⟨a, b, ha, hb, fun hsingle => ?_⟩
  have hsame := hab.eq_of_isSingle hsingle
  subst hsame
  exact ⟨hsingle, Iff.rfl⟩

variable (α) in
/-- The nesting levels that the evaluation of a formula over a picture takes. -/
def pictureLevels (tree : Node) : Nat :=
  tree.levels (Channels.blank : Channels α)

/-- The evaluation over a picture takes as many nesting levels as over any other. -/
theorem levels_eq_pictureLevels (h : channels.Painted S) {tree : Node}
    (hplaced : tree.ArraysPlaced) (hcalls : tree.CallsFit) :
    tree.levels channels = tree.pictureLevels α := by
  have hblank := Channels.painted_blank (α := α)
  apply Nat.le_antisymm
  · exact levels_le_of_decides (decides_of_painted hblank h) hplaced hcalls
  · exact levels_le_of_decides (decides_of_painted h hblank) hplaced hcalls

end Node

/-! ## A branch that is not probed -/

/-- A formula that adds up `count + 1` ones where the red of the base layer is zero. -/
def longSum (count : Nat) : String :=
  String.ofList ("[rb ? 0 : 1".toList ++ (List.replicate count ['+', '1']).flatten ++
    ", 0, 0]".toList)

/-- The probe does not add them up, so the formula compiles with more of them than an evaluation has
nesting levels for: without any channel, or over a picture. -/
theorem compile_longSum : ∃ engine, compile (longSum 600) = .ok engine ∧
    Engine.nestingLimit < engine.tree.levels (fun _ => none : Channels Float) ∧
    Engine.nestingLimit < engine.tree.pictureLevels Float := by
  apply exists_eq_ok_and
  unfold compile tokenize longSum
  rw [String.toList_ofList]
  decide +kernel

end LayerBlend
