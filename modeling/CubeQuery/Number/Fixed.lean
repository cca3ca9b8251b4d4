import CubeQuery.Number.Decimal

/-!
Numbers with a fixed count of decimal places. The exact value is rounded once; a half goes to the
even neighbour.
-/

namespace CubeQuery.Number

/-- The magnitude in units of the last of `places` decimal places. -/
def Magnitude.unitsAt (x : Magnitude) (places : Nat) : Nat :=
  roundDiv (x.num * Nat.pow 10 places) x.den

/-- The digits before the point, at least one, and the digits after it, exactly `places`. -/
def fixedDigits (places units : Nat) : List Char × List Char :=
  let digits := digitsOf units
  let padded := List.replicate (places + 1 - digits.length) '0' ++ digits
  padded.splitAt (padded.length - places)

end CubeQuery.Number
