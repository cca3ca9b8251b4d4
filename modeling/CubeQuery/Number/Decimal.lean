import CubeQuery.Number.Binary

/-!
Decimal numbers, how they are read and how they are written without an exponent.
-/

namespace CubeQuery.Number

/-- The number `digits * 10 ^ scale`. -/
structure Decimal where
  digits : Nat
  scale : Int
  deriving DecidableEq

/-- The number that a row of decimal digits denotes. -/
def ofDigits (cs : List Char) : Nat :=
  cs.foldl (fun n c => 10 * n + (c.toNat - 48)) 0

/-- The digits of `n`, most significant first. -/
def digitsOf (n : Nat) : List Char :=
  Nat.toDigits 10 n

namespace Decimal

/-- Decimals with a scale beyond this lie far outside the range of finite numbers. -/
def scaleLimit : Int := 400

/-- The bits of the floating-point number nearest to `x`. A number with `n` binary digits has at
most `n` decimal ones, so the second test only stops what is far below the least number. -/
def bits (x : Decimal) : Nat :=
  if x.digits = 0 then 0
  else if scaleLimit < x.scale then infinityBits
  else if (x.digits.log2 : Int) + 1 + x.scale < -scaleLimit then 0
  else nearestBits (x.digits * Nat.pow 10 x.scale.toNat) (Nat.pow 10 (-x.scale).toNat)

/-- The floating-point number nearest to `x`, infinity included. -/
def toFloat (x : Decimal) : Float :=
  Float.ofBits (UInt64.ofNat x.bits)

/-- The same number without zeros at the end of its digits. -/
def strip (x : Decimal) : Decimal :=
  if x.digits ≠ 0 ∧ x.digits % 10 = 0 then strip ⟨x.digits / 10, x.scale + 1⟩ else x
termination_by x.digits
decreasing_by omega

/-- Digits and a point, never an exponent. A number below one starts with a zero, and a whole
number has no point. -/
def positional (x : Decimal) : String :=
  let digits := digitsOf x.digits
  if 0 ≤ x.scale then String.ofList (digits ++ List.replicate x.scale.toNat '0')
  else
    let places := (-x.scale).toNat
    let padded := List.replicate (places + 1 - digits.length) '0' ++ digits
    let whole := padded.length - places
    String.ofList (padded.take whole ++ '.' :: padded.drop whole)

end Decimal

end CubeQuery.Number
