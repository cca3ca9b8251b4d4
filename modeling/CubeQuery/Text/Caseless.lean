/-!
Names that are compared without regard to the case of the letters A to Z. Letters of other
alphabets keep their case here.
-/

namespace CubeQuery.Text

/-- `s` with A to Z in lower case. -/
def caseless (s : String) : String :=
  String.ofList (s.toList.map Char.toLower)

/-- Whether two names differ at most in the case of A to Z. -/
def sameName (a b : String) : Bool :=
  caseless a == caseless b

theorem sameName_iff {a b : String} : sameName a b = true ↔ caseless a = caseless b := by
  simp [sameName]

@[simp] theorem sameName_refl (a : String) : sameName a a = true := by
  simp [sameName]

theorem sameName_comm (a b : String) : sameName a b = sameName b a := by
  simp only [sameName, Bool.beq_comm]

end CubeQuery.Text
