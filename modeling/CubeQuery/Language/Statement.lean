import CubeQuery.Language.Expr

/-!
A query: definitions that hold for this query only, one set for each axis, the cube, and a slicer
that every cell shares.
-/

namespace CubeQuery.Language

/-- A member computed by a formula. -/
structure MemberDefinition where
  path : Path
  expr : Expr
  format? : Option String
  /-- Where calculated members meet, the one with the highest order decides. -/
  solveOrder : Int

/-- A name for a set. -/
structure SetDefinition where
  path : Path
  expr : Expr

inductive Definition
  | member (definition : MemberDefinition)
  | set (definition : SetDefinition)

structure AxisClause where
  index : Nat
  nonEmpty : Bool
  set : Expr
  properties : List String

structure Statement where
  definitions : List Definition
  /-- Ordered by index, and the indices are 0, 1, 2 and so on. -/
  axes : List AxisClause
  cube : String
  slicer? : Option Expr
  cellProperties : List String

/-- The first five axes have names. -/
def axisName : Nat → String
  | 0 => "COLUMNS"
  | 1 => "ROWS"
  | 2 => "PAGES"
  | 3 => "SECTIONS"
  | 4 => "CHAPTERS"
  | n => "AXIS(" ++ toString n ++ ")"

end CubeQuery.Language
