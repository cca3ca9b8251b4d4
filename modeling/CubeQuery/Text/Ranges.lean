/-!
Sets of characters, given by the ranges of their code points.
-/

namespace CubeQuery.Text

/-- Disjoint ranges of code points in ascending order, both ends included. -/
abbrev Ranges := List (Nat × Nat)

/-- Whether a code point lies in one of the ranges. The order lets the search stop at the first
range above it. -/
def Ranges.covers : Ranges → Nat → Bool
  | [], _ => false
  | (first, last) :: rest, n => if n < first then false else n ≤ last || Ranges.covers rest n

end CubeQuery.Text
