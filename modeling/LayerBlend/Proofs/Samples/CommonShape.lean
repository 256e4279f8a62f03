import LayerBlend.Samples

/-!
# Blocks of one common shape

When every block is a single value or has the shape `S`, stretching never fails and a lifted
function acts at each place of `S` on its own.

* `Samples.Fits S s` — the block `s` is a single value or has the shape `S`.
* `Samples.read_single`, `Samples.read_own` — what such a block shows at a place of `S`
  (`Samples.cell_stretch` for the stretched block).
* `Samples.Represents S g s` — such a block shows `g p` at each place `p` of `S`;
  `Samples.RepresentsAll` says the same of a list of blocks.
* `Samples.lift?_represents` — lifting a function to such blocks gives such a block, whose value at
  each place of `S` is the function of the values there.
-/

namespace LayerBlend

namespace Shape

/-- Two shapes that are empty or `S` have a common shape, which is empty or `S`. -/
theorem join?_fits {S a b : Shape} (ha : a = [] ∨ a = S) (hb : b = [] ∨ b = S) :
    ∃ c, join? a b = some c ∧ (c = [] ∨ c = S) ∧ (c = [] → a = [] ∧ b = []) := by
  have hself : ∀ s : Shape, join? s s = some s := by
    intro s
    induction s with
    | nil => rfl
    | cons n s ih => simp [join?, ih]
  have hright : ∀ s : Shape, join? s [] = some s := by
    intro s
    cases s <;> rfl
  rcases ha with rfl | rfl
  · exact ⟨b, rfl, hb, fun h => ⟨rfl, h⟩⟩
  · rcases hb with rfl | rfl
    · exact ⟨a, hright a, Or.inr rfl, fun h => ⟨h, rfl⟩⟩
    · exact ⟨b, hself b, Or.inr rfl, fun h => ⟨h, h⟩⟩

/-- Several shapes that are empty or `S` have a common shape with `start`, which is empty or `S`. -/
theorem foldlM_join?_fits {S : Shape} :
    ∀ (shapes : List Shape) (start : Shape), (start = [] ∨ start = S) →
      (∀ s ∈ shapes, s = [] ∨ s = S) →
      ∃ c, shapes.foldlM join? start = some c ∧ (c = [] ∨ c = S) ∧
        (c = [] → start = [] ∧ ∀ s ∈ shapes, s = [])
  | [], start, hstart, _ => ⟨start, rfl, hstart, fun h => ⟨h, by simp⟩⟩
  | s :: shapes, start, hstart, hshapes => by
    obtain ⟨mid, hmid, hfits, hempty⟩ := join?_fits hstart (hshapes s List.mem_cons_self)
    obtain ⟨c, hc, hcfits, hcempty⟩ :=
      foldlM_join?_fits shapes mid hfits fun t ht => hshapes t (List.mem_cons_of_mem _ ht)
    refine ⟨c, ?_, hcfits, fun h => ?_⟩
    · rw [List.foldlM_cons, hmid]
      exact hc
    · obtain ⟨hmidnil, hrest⟩ := hcempty h
      obtain ⟨hs, ht⟩ := hempty hmidnil
      exact ⟨hs, fun t hmem => (List.mem_cons.mp hmem).elim (fun h => h ▸ ht) (hrest t)⟩

end Shape

namespace Samples

variable {α : Type}

/-- The block is a single value or has the given shape. -/
def Fits (S : Shape) (s : Samples α) : Prop :=
  s.shape = [] ∨ s.shape = S

/-- The block fits the shape and shows `g p` at each place `p` of it. -/
def Represents [Arithmetic α] (S : Shape) (g : Nat → α) (s : Samples α) : Prop :=
  s.Fits S ∧ ∀ p < S.size, s.read S p = g p

/-- The blocks fit the shape and together show the list `g p` at each place `p` of it. -/
def RepresentsAll [Arithmetic α] (S : Shape) (g : Nat → List α) (blocks : List (Samples α)) :
    Prop :=
  (∀ s ∈ blocks, s.Fits S) ∧ ∀ p < S.size, (blocks.map fun s => s.read S p) = g p

@[simp] theorem shape_build (shape : Shape) (f : Nat → α) : (build shape f).shape = shape := rfl

@[simp] theorem shape_single (x : α) : (single x).shape = [] := rfl

@[simp] theorem shape_map {β : Type} (f : α → β) (s : Samples α) : (s.map f).shape = s.shape := rfl

theorem fits_single (S : Shape) (x : α) : (single x).Fits S := Or.inl rfl

theorem Fits.map {β : Type} {S : Shape} {s : Samples α} (h : s.Fits S) (f : α → β) :
    (s.map f).Fits S := h

theorem isSingle_iff {s : Samples α} : s.isSingle = true ↔ s.shape = [] := by
  simp [isSingle]

variable [Arithmetic α]

/-! ## Reading cells -/

theorem cell_build {shape : Shape} {f : Nat → α} {i : Nat} (h : i < shape.size) :
    (build shape f).cell i = f i := by
  simp [cell, build, h]

omit [Arithmetic α] in
theorem map_single (f : α → α) (x : α) : (single x).map f = single (f x) := by
  simp [map, single]

@[simp] theorem cell_single (x : α) : (single x).cell 0 = x := rfl

theorem cell_map {β : Type} [Arithmetic β] (f : α → β) {s : Samples α} {i : Nat}
    (h : i < s.shape.size) : (s.map f).cell i = f (s.cell i) := by
  have hi : i < s.cells.size := by rw [s.size_cells]; exact h
  simp [cell, map, hi]

/-- A single value shows itself everywhere. -/
theorem read_single {s : Samples α} (h : s.shape = []) (S : Shape) (p : Nat) :
    s.read S p = s.cell 0 := by
  rw [read, h, Shape.source]

/-- A single value represents a constant. -/
theorem represents_single (S : Shape) (x : α) : (single x).Represents S fun _ => x :=
  ⟨fits_single S x, fun p _ => read_single rfl S p⟩

/-- A block shows its own cells at the places of its shape. -/
theorem read_own {s : Samples α} {S : Shape} {p : Nat} (h : s.shape = S) (hp : p < S.size) :
    s.read S p = s.cell p := by
  rw [read, h, Shape.source_self hp]

/-- A block of the shape represents the numbers that it is built from. -/
theorem represents_build (S : Shape) (f : Nat → α) : (build S f).Represents S f :=
  ⟨Or.inr rfl, fun p hp => by rw [read_own (shape_build S f) hp, cell_build hp]⟩

theorem Fits.read_map {β : Type} [Arithmetic β] {S : Shape} {s : Samples α} (h : s.Fits S)
    (f : α → β) {p : Nat} (hp : p < S.size) : (s.map f).read S p = f (s.read S p) := by
  rcases h with h | h
  · rw [read_single (by simpa using h), read_single h, cell_map f (by rw [h]; exact Nat.one_pos)]
  · rw [read_own (by simpa using h) hp, read_own h hp, cell_map f (by rw [h]; exact hp)]

/-- A single value that represents numbers is the same number at every place. -/
theorem Represents.cell_eq {S : Shape} {g : Nat → α} {s : Samples α} (h : s.Represents S g)
    (hsingle : s.isSingle = true) {p : Nat} (hp : p < S.size) : s.cell 0 = g p := by
  rw [← h.2 p hp, read_single (isSingle_iff.mp hsingle)]

theorem RepresentsAll.map {S : Shape} {g : Nat → List α} {blocks : List (Samples α)}
    (h : RepresentsAll S g blocks) (f : α → α) :
    RepresentsAll S (fun p => (g p).map f) (blocks.map (Samples.map f)) := by
  refine ⟨?_, fun p hp => ?_⟩
  · intro s hs
    obtain ⟨t, ht, rfl⟩ := List.mem_map.mp hs
    exact (h.1 t ht).map f
  · show _ = (g p).map f
    rw [← h.2 p hp, List.map_map, List.map_map]
    exact List.map_congr_left fun s hs => (h.1 s hs).read_map f hp

/-- The value that a stretched block has in a cell. -/
theorem cell_stretch {s : Samples α} {S : Shape} {p : Nat} (hp : p < S.size) :
    (s.stretch S).cell p = s.read S p :=
  cell_build hp

/-! ## Functions of several blocks -/

/-- A function lifted to blocks that fit one shape gives a block that fits it, and acts at each
place on the values there. -/
theorem lift?_represents {S : Shape} (f : List α → α) {blocks : List (Samples α)}
    (h : ∀ s ∈ blocks, s.Fits S) :
    ∃ block, lift? f blocks = some block ∧
      block.Represents S fun p => f (blocks.map fun s => s.read S p) := by
  have hshapes : ∀ t ∈ blocks.map Samples.shape, t = [] ∨ t = S := by
    intro t ht
    obtain ⟨s, hs, rfl⟩ := List.mem_map.mp ht
    exact h s hs
  obtain ⟨T, hT, hfits, hempty⟩ := Shape.foldlM_join?_fits _ [] (Or.inl rfl) hshapes
  have hlift : lift? f blocks =
      some (build T fun i => f (blocks.map fun s => s.read T i)) := by
    unfold lift? Shape.joinAll?
    rw [hT]
    rfl
  refine ⟨_, hlift, hfits, fun p hp => ?_⟩
  rcases hfits with hT | hT
  · -- the common shape is empty, so each block is a single value and shows it everywhere
    rw [read_single (by simpa using hT), cell_build (by rw [hT]; exact Nat.one_pos)]
    congr 1
    refine List.map_congr_left fun s hs => ?_
    have hs : s.shape = [] := (hempty hT).2 _ (List.mem_map_of_mem hs)
    rw [read_single hs, read_single hs]
  · subst hT
    rw [read_own (shape_build T _) hp, cell_build hp]

end Samples

end LayerBlend
