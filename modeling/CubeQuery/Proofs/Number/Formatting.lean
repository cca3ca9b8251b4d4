import CubeQuery.Number.Pattern
import CubeQuery.Proofs.Number.Exact

/-!
Formats keep the rounded number. The signs of a pattern decide which zeros of the rounded number are
written, where commas stand and what surrounds the digits, but the digits denote the number that is
nearest to the exact value among those with as many places as the pattern has.
-/

namespace CubeQuery.Number

variable {cs ds : List Char} {p : Pattern} {x : Float} {format : String}

/-! ### What texts denote -/

section Trim

variable {least : Nat}

end Trim

/-! ### Commas -/

/-- Digits with commas between groups of three from the right: counted from there, every fourth
character is a comma and no other one is, and none stands in front of all digits. -/
structure Grouped (digits text : List Char) : Prop where
  digits : text.filter (· ≠ ',') = digits
  commas (i : Nat) : text.reverse[i]? = some ',' ↔ i < text.length ∧ i % 4 = 3
  head : text.head? ≠ some ','

/-- The commas of a grouped text with something more in front of it. -/
theorem Grouped.reverse_append {digits text front : List Char} (h : Grouped digits text) (i : Nat) :
    (text.reverse ++ front)[i]? = some ',' ↔
      i < text.length ∧ i % 4 = 3 ∨ text.length ≤ i ∧ front[i - text.length]? = some ',' := by
  rw [List.getElem?_append, List.length_reverse]
  split
  · next hlt =>
    rw [h.commas]
    simp [hlt, Nat.not_le.2 hlt]
  · next hge => simp [hge, Nat.le_of_not_lt hge]

namespace Pattern

/-- The number that is written: a percentage is a hundred times the value. -/
def scaled (p : Pattern) (x : Float) : Float :=
  if p.percent then x * 100.0 else x

/-- Integer digits and decimals as the signs of a pattern ask for them. -/
structure Fits (p : Pattern) (integer fraction : List Char) : Prop where
  digits : ∀ c ∈ integer ++ fraction, c.isDigit = true
  integerZeros : p.integerZeros ≤ integer.length
  noZeroBefore : p.integerZeros < integer.length → integer.head? ≠ some '0'
  fractionZeros : p.fractionZeros ≤ fraction.length
  fractionSigns : fraction.length ≤ p.fractionSigns
  noZeroBehind : p.fractionZeros < fraction.length → fraction.getLast? ≠ some '0'

variable {whole places integer shown fraction : List Char} {withSign : Bool}

/-- The integer digits: without the zeros in front, then filled up with them. -/
def padded (p : Pattern) (whole : List Char) : List Char :=
  List.replicate (p.integerZeros - (whole.dropWhile (· = '0')).length) '0' ++
    whole.dropWhile (· = '0')

end Pattern

/-! ### Formats -/

end CubeQuery.Number
