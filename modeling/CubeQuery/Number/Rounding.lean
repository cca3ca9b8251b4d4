/-!
Division of naturals rounded to the nearest natural. It is the one rounding rule of the library:
reading a decimal, writing fixed places and finding the shortest decimal all rest on it.
-/

namespace CubeQuery.Number

/-- `num / den` rounded to nearest, a half to the even neighbour. -/
def roundDiv (num den : Nat) : Nat :=
  let down := num / den
  let twice := 2 * (num % den)
  if den < twice ∨ (twice = den ∧ down % 2 = 1) then down + 1 else down

theorem roundDiv_of_dvd {num den : Nat} (pos : 0 < den) (h : den ∣ num) :
    roundDiv num den = num / den := by
  have zero : num % den = 0 := Nat.mod_eq_zero_of_dvd h
  simp only [roundDiv, zero]
  rw [if_neg]
  omega

theorem le_roundDiv (num den : Nat) : num / den ≤ roundDiv num den := by
  unfold roundDiv
  dsimp only
  split <;> omega

end CubeQuery.Number
