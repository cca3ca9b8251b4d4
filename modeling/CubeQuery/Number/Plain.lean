import CubeQuery.Number.Shortest

/-!
The two plain texts of a number. The shortest text is positional whatever the size of the number.
The general text differs from it only for negative zero, which it writes without a sign.
-/

namespace CubeQuery.Number

def signed (negative : Bool) (text : String) : String :=
  if negative then "-" ++ text else text

/-- The fewest digits that read back, without an exponent. -/
def shortestText (x : Float) : String :=
  match reading x with
  | .notANumber => "NaN"
  | .infinite negative => signed negative "inf"
  | .finite negative magnitude => signed negative magnitude.shortest.positional

/-- Whole numbers of at most fifteen digits are written as integers. -/
def wholeLimit : Nat := Nat.pow 10 15

/-- The whole number that `x` is, with its sign, when it is below the limit. -/
def smallWhole? (x : Float) : Option (Bool × Nat) :=
  match reading x with
  | .finite negative magnitude =>
    match magnitude.whole? with
    | some n => if n < wholeLimit then some (negative, n) else none
    | none => none
  | _ => none

/-- An integer where the number is a small whole one, else the shortest text. -/
def generalText (x : Float) : String :=
  match smallWhole? x with
  | some (negative, n) => signed (negative && n != 0) (String.ofList (digitsOf n))
  | none => shortestText x

end CubeQuery.Number
