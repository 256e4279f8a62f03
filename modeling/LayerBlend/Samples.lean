import LayerBlend.Arithmetic

/-!
# Samples

`Samples α` is what a channel holds: one value, or a block of values with a shape. A shape lists
the lengths of the axes, the fastest running axis first, so that a picture of width `w` and height
`h` has the shape `[w, h]` and a single value the shape `[]`.

Blocks of different shapes meet by stretching: along an axis where one of them has length one, or
has no such axis, its value is repeated. `Shape.join?` is the common shape, `Shape.source` the cell
that a stretched block shows at a place, and `lift` applies a function of values place by place.
-/

namespace LayerBlend

/-- The lengths of the axes of a block, the fastest running axis first. -/
abbrev Shape := List Nat

namespace Shape

/-- The number of cells. -/
def size : Shape → Nat
  | [] => 1
  | n :: axes => n * size axes

/-- The shape that two blocks have in common after stretching. -/
def join? : Shape → Shape → Option Shape
  | [], b => some b
  | a, [] => some a
  | n :: a, m :: b =>
    if n = m || m = 1 then (join? a b).map (n :: ·)
    else if n = 1 then (join? a b).map (m :: ·)
    else none

/-- The shape that several blocks have in common after stretching. -/
def joinAll? (shapes : List Shape) : Option Shape :=
  shapes.foldlM join? []

/-- The cell of a block of shape `from` that place `i` of a block of shape `to` shows. -/
def source : Shape → Shape → Nat → Nat
  | [], _, _ => 0
  | _, [], _ => 0
  | n :: a, m :: b, i => (if n = 1 then 0 else i % m) + n * source a b (i / m)

/-- A block that is not stretched shows its own cells. -/
theorem source_self {s : Shape} {i : Nat} (h : i < size s) : source s s i = i := by
  induction s generalizing i with
  | nil => simp only [size] at h; simp only [source]; omega
  | cons n s ih =>
    have hi : i / n < size s := by
      simp only [size] at h
      exact Nat.div_lt_of_lt_mul h
    simp only [source, ih hi]
    split
    · next h1 => subst h1; simp
    · exact Nat.mod_add_div i n

end Shape

/-- One value, or a block of values with a shape. -/
structure Samples (α : Type) where
  /-- The lengths of the axes, the fastest running axis first. -/
  shape : Shape
  /-- The values, the first axis running fastest. -/
  cells : Array α
  /-- There is one value for each place of the shape. -/
  size_cells : cells.size = shape.size

namespace Samples

variable {α : Type}

/-- The block that holds `f i` at each place `i`. -/
def build (shape : Shape) (f : Nat → α) : Samples α :=
  ⟨shape, Array.ofFn fun i : Fin shape.size => f i, Array.size_ofFn⟩

/-- A single value. -/
def single (x : α) : Samples α :=
  ⟨[], #[x], rfl⟩

/-- The block holds one value and has no axis. -/
def isSingle (s : Samples α) : Bool :=
  s.shape.isEmpty

/-- The block with a function applied to each value. -/
def map {β : Type} (f : α → β) (s : Samples α) : Samples β :=
  ⟨s.shape, s.cells.map f, by rw [Array.size_map, s.size_cells]⟩

variable [Arithmetic α]

/-- The value in cell `i`. -/
def cell (s : Samples α) (i : Nat) : α :=
  s.cells.getD i Arithmetic.zero

/-- The value at place `i` of the block stretched to a larger shape. -/
def read (s : Samples α) (shape : Shape) (i : Nat) : α :=
  s.cell (Shape.source s.shape shape i)

/-- The block stretched to a larger shape. -/
def stretch (s : Samples α) (shape : Shape) : Samples α :=
  build shape (s.read shape)

/-- A function of several values applied at each place of the common shape. -/
def lift? (f : List α → α) (blocks : List (Samples α)) : Option (Samples α) :=
  (Shape.joinAll? (blocks.map Samples.shape)).map fun shape =>
    build shape fun i => f (blocks.map fun s => s.read shape i)

/-- The slices along the last axis; a single value has none. -/
def slices? (s : Samples α) : Option (List (Samples α)) :=
  match s.shape.getLast? with
  | none => none
  | some count =>
    let inner := s.shape.dropLast
    some ((List.range count).map fun k => build inner fun i => s.cell (k * Shape.size inner + i))

/-- Blocks of one shape laid side by side along a new last axis. -/
def stack? (parts : List (Samples α)) : Option (Samples α) :=
  let inner := (parts.head?.map Samples.shape).getD []
  if parts.all fun s => s.shape == inner then
    some (build (inner ++ [parts.length]) fun i =>
      (parts[i / Shape.size inner]?.map fun s => s.cell (i % Shape.size inner)).getD
        Arithmetic.zero)
  else none

end Samples

end LayerBlend
