/-!
# Powers of two and of ten

The binary and the decimal exponents of exact numbers are natural powers of two and of ten.
-/

namespace LayerBlend.Numeral

/-- Two to the power of `n`. -/
def twoTo (n : Nat) : Nat :=
  Nat.pow 2 n

/-- Ten to the power of `n`. -/
def tenTo (n : Nat) : Nat :=
  Nat.pow 10 n

end LayerBlend.Numeral
