import CubeQuery.Number.Decimal

/-!
The shortest decimal for a magnitude: of all decimals that read back to it, one with the fewest
digits, and of those the nearest. An exact tie goes to the larger one.
-/

namespace CubeQuery.Number

namespace Magnitude

/-- The bits of the number itself. -/
def bits (x : Magnitude) : Nat :=
  nearestBits x.num x.den

/-- The least `k` with `x < 10 ^ k`, for `x` above zero. -/
def decimalPoint (x : Magnitude) : Int :=
  if x.den ≤ x.num then (digitsOf (x.num / x.den)).length
  else
    let zeros := (digitsOf (x.den / x.num)).length
    if x.den ≤ x.num * Nat.pow 10 (zeros - 1) then 2 - (zeros : Int) else 1 - (zeros : Int)

/-- The whole multiples of `10 ^ scale` in `x`. -/
def floorAt (x : Magnitude) (scale : Int) : Nat :=
  x.num * Nat.pow 10 (-scale).toNat / (x.den * Nat.pow 10 scale.toNat)

/-- Whether `x` lies nearer to `(below + 1) * 10 ^ scale` than to `below * 10 ^ scale`, or halfway
between the two. -/
def leansUp (x : Magnitude) (scale : Int) (below : Nat) : Bool :=
  (2 * below + 1) * x.den * Nat.pow 10 scale.toNat ≤ 2 * x.num * Nat.pow 10 (-scale).toNat

/-- A neighbour of `x` among the multiples of `10 ^ scale` that reads back to `x`; the nearer one
if both do. -/
def neighbour? (x : Magnitude) (scale : Int) : Option Decimal :=
  let below := x.floorAt scale
  let lower : Decimal := ⟨below, scale⟩
  let upper : Decimal := ⟨below + 1, scale⟩
  match lower.bits == x.bits, upper.bits == x.bits with
  | true, true => some (if x.leansUp scale below then upper else lower)
  | true, false => some lower
  | false, true => some upper
  | false, false => none

/-- The decimal that equals `x`. -/
def exact (x : Magnitude) : Decimal :=
  ⟨x.num * Nat.pow 5 (-x.exponent).toNat, -((-x.exponent).toNat : Int)⟩

/-- Tries one digit, then two, and so on. Seventeen are always enough; the exact value stands
behind them. -/
def shortest (x : Magnitude) : Decimal :=
  if x.significand = 0 then ⟨0, 0⟩
  else
    let point := x.decimalPoint
    match (List.range 17).findSome? fun (n : Nat) => x.neighbour? (point - (n + 1 : Nat)) with
    | some d => d.strip
    | none => x.exact.strip

end Magnitude

end CubeQuery.Number
