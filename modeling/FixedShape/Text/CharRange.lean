/-
Module: FixedShape.Text.CharRange
Purpose: Sets of characters given by ranges of code points.
-/

namespace FixedShape.Text

/-- Ranges of code points, both ends included. -/
abbrev CharRanges := List (Nat × Nat)

/-- Tells whether a character lies in one of the ranges. -/
def CharRanges.has (ranges : CharRanges) (c : Char) : Bool :=
  ranges.any fun (first, last) => first ≤ c.toNat && c.toNat ≤ last

end FixedShape.Text
