import CubeQuery.Number.Rounding

/-!
The value of a floating-point number, and the number nearest to a quotient of naturals. A finite
number is a sign and a magnitude `significand * 2 ^ exponent`; the significand has at most 53 bits
and the exponent is at least -1074.
-/

namespace CubeQuery.Number

/-- The non-negative number `significand * 2 ^ exponent`. -/
structure Magnitude where
  significand : Nat
  exponent : Int
  deriving DecidableEq

/-- What a floating-point number stands for. -/
inductive Reading
  | notANumber
  | infinite (negative : Bool)
  | finite (negative : Bool) (magnitude : Magnitude)
  deriving DecidableEq

namespace Magnitude

/-- The magnitude as a quotient: its numerator. -/
def num (x : Magnitude) : Nat :=
  x.significand * Nat.pow 2 x.exponent.toNat

/-- The magnitude as a quotient: its denominator, a power of two. -/
def den (x : Magnitude) : Nat :=
  Nat.pow 2 (-x.exponent).toNat

/-- The natural number that the magnitude is, unless it has a fraction. -/
def whole? (x : Magnitude) : Option Nat :=
  if x.num % x.den = 0 then some (x.num / x.den) else none

end Magnitude

/-- The bits of infinity, which are those of the first number too large to be finite. -/
def infinityBits : Nat := 2047 * Nat.pow 2 52

/-- Reads the sign (1 bit), the exponent (11 bits) and the fraction (52 bits). -/
def readBits (bits : Nat) : Reading :=
  let negative := bits / Nat.pow 2 63 % 2 == 1
  let exponent : Nat := bits / Nat.pow 2 52 % Nat.pow 2 11
  let fraction := bits % Nat.pow 2 52
  if exponent = 2047 then
    if fraction = 0 then .infinite negative else .notANumber
  else if exponent = 0 then .finite negative ⟨fraction, -1074⟩
  else .finite negative ⟨Nat.pow 2 52 + fraction, (exponent : Int) - 1075⟩

def reading (x : Float) : Reading :=
  readBits x.toBits.toNat

/-- The greatest `e` with `2 ^ e ≤ num / den`, for `num` and `den` above zero. -/
def floorLog (num den : Nat) : Int :=
  let e : Int := (num.log2 : Int) - den.log2
  if den * Nat.pow 2 e.toNat ≤ num * Nat.pow 2 (-e).toNat then e else e - 1

/-- The bits of the non-negative number nearest to `num / den`, a half to the even significand.
Adding a significand of 53 bits carries into the exponent field by itself. -/
def nearestBits (num den : Nat) : Nat :=
  if num = 0 then 0
  else
    let exponent := max (floorLog num den - 52) (-1074)
    let significand := roundDiv (num * Nat.pow 2 (-exponent).toNat) (den * Nat.pow 2 exponent.toNat)
    min ((exponent + 1074).toNat * Nat.pow 2 52 + significand) infinityBits

end CubeQuery.Number
