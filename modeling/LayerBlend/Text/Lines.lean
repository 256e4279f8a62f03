/-!
# Line ends

Reading a text file turns each of the three line ends (return, return and newline, newline) into
one newline.
-/

namespace LayerBlend.Text

/-- The text with every line end written as one newline. -/
def unifyLineEnds : List Char → List Char
  | '\r' :: '\n' :: rest => '\n' :: unifyLineEnds rest
  | '\r' :: rest => '\n' :: unifyLineEnds rest
  | c :: rest => c :: unifyLineEnds rest
  | [] => []

/-- A text without returns stays as it is. -/
theorem unifyLineEnds_of_notMem {s : List Char} (h : '\r' ∉ s) : unifyLineEnds s = s := by
  fun_induction unifyLineEnds s <;> simp_all

end LayerBlend.Text
