import CubeQuery.Number.Fixed
import CubeQuery.Proofs.Number.Signs
import Mathlib

/-!
What a floating-point number is exactly, and which whole number a quotient is rounded to. Numbers
with fixed places rest on both: their digits are those of the whole number nearest to the exact
value in units of the last place.
-/

namespace CubeQuery.Number

open Float.Model Float.Model.UnpackedFloat

/-! ### Exact values -/

end CubeQuery.Number
