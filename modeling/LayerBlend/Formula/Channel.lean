/-!
# Channels

A formula reads eight numbers of a pixel: red, green, blue and alpha of the base layer and the same
of the blend layer. A channel's name is the letter of its component and the letter of its layer,
as in `rb` and `as`. A layer's shorthand (`B` or `T`) stands for each of its components in turn.
-/

namespace LayerBlend

/-- One of the four numbers of a pixel. -/
inductive Component where
  /-- Red. -/
  | red
  /-- Green. -/
  | green
  /-- Blue. -/
  | blue
  /-- Alpha. -/
  | alpha
  deriving DecidableEq, Repr

/-- One of the two layers that a formula combines. -/
inductive Side where
  /-- The layer below. -/
  | base
  /-- The layer that is laid over it. -/
  | blend
  deriving DecidableEq, Repr

/-- A component of a layer. -/
structure Channel where
  /-- The component. -/
  component : Component
  /-- The layer. -/
  side : Side
  deriving DecidableEq, Repr

namespace Component

/-- The components in the order of a pixel's bytes. -/
def all : List Component := [.red, .green, .blue, .alpha]

/-- The letter of a component in channel names. -/
def letter : Component → Char
  | .red => 'r'
  | .green => 'g'
  | .blue => 'b'
  | .alpha => 'a'

end Component

namespace Side

/-- Both layers. -/
def all : List Side := [.base, .blend]

/-- The letter of a layer in channel names. -/
def letter : Side → Char
  | .base => 'b'
  | .blend => 's'

/-- The identifier that stands for each component of a layer in turn. -/
def shorthand : Side → String
  | .base => "B"
  | .blend => "T"

/-- The layer of a shorthand. -/
def ofShorthand? (name : String) : Option Side :=
  all.find? (·.shorthand == name)

end Side

namespace Channel

/-- The identifier of a channel. -/
def name (c : Channel) : String :=
  String.ofList [c.component.letter, c.side.letter]

/-- The channels, the base layer's first. -/
def all : List Channel :=
  Side.all.flatMap fun side => Component.all.map fun component => ⟨component, side⟩

/-- The channel of an identifier. -/
def ofName? (name : String) : Option Channel :=
  all.find? (·.name == name)

end Channel

end LayerBlend
