import LayerBlend.Formula.Token

/-!
# Layer shorthands

A formula that names a layer by its shorthand stands for four formulas, one for each component of a
pixel: `expandShorthand` writes the tokens once per component, with the layer's channel in the
place of each shorthand, as the items of one array. A formula without shorthands is left alone.
-/

namespace LayerBlend

namespace Token

/-- The bracket that opens an expansion. -/
def openingBracket : Token := ⟨.leftBracket, "[", nowhere⟩

/-- The bracket that closes an expansion. -/
def closingBracket : Token := ⟨.rightBracket, "]", nowhere⟩

/-- The comma between two components of an expansion. -/
def separator : Token := ⟨.comma, ",", nowhere⟩

/-- The token with a layer's channel in the place of the layer's shorthand. -/
def select (component : Component) (t : Token) : Token :=
  match t.side? with
  | none => t
  | some side => { t with text := (Channel.mk component side).name }

end Token

/-- Some token is the shorthand of a layer. -/
def usesShorthand (tokens : List Token) : Bool :=
  tokens.any fun t => t.side?.isSome

/-- The tokens with layer shorthands written out component by component. -/
def expandShorthand (tokens : List Token) : List Token :=
  if usesShorthand tokens then
    let parts := Component.all.map fun component => tokens.map (Token.select component)
    Token.openingBracket :: List.intercalate [Token.separator] parts ++ [Token.closingBracket]
  else tokens

/-- Tokens without shorthands are their own expansion. -/
theorem expandShorthand_of_not_usesShorthand {tokens : List Token}
    (h : usesShorthand tokens = false) : expandShorthand tokens = tokens := by
  simp [expandShorthand, h]

end LayerBlend
