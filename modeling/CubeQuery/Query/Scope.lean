import CubeQuery.Cube.Basic
import CubeQuery.Language.Printer
import CubeQuery.Text.Lowercase

/-!
Tuples of members, and the definitions that hold for one query. A tuple may hold stored members,
measures and calculated members; the measures stand beside the hierarchies as one more direction in
which a cube extends.
-/

namespace CubeQuery

open CubeQuery.Language

/-- A member of a tuple. -/
inductive Element
  | member (id : MemberId)
  | measure (id : MeasureId)
  /-- By its place among the calculated members of the query. -/
  | calculated (index : Nat)
  deriving DecidableEq, Hashable

/-- A direction in which a cube extends. -/
inductive Facet
  | measures
  | hierarchy (id : HierarchyId)
  deriving DecidableEq, Hashable

/-- The measures come before all hierarchies. -/
def Facet.rank : Facet → Nat
  | measures => 0
  | hierarchy id => id.index + 1

abbrev Tuple := List Element

/-- Tuples in order; a tuple may occur more than once. -/
abbrev TupleSet := List Tuple

/-- The formula of a calculated member, its names already resolved. -/
inductive Formula
  | number (x : Float)
  | text (s : String)
  /-- The value of the current cell with these members in place of those on their facets. -/
  | tuple (members : Tuple)
  | negate (operand : Formula)
  | binary (operator : Operator) (left right : Formula)

structure CalculatedMember where
  caption : String
  uniqueName : String
  facet : Facet
  /-- Missing for calculated measures. -/
  parent? : Option MemberId
  format? : Option String
  solveOrder : Int

structure NamedSet where
  uniqueName : String
  tuples : TupleSet

/-- The calculated members and named sets of a query. -/
structure Scope where
  members : Array CalculatedMember
  /-- The formulas of the calculated members, as far as they have been read. -/
  formulas : Array Formula
  sets : Array NamedSet

namespace Scope

def empty : Scope := ⟨#[], #[], #[]⟩

/-- Defined names are found without regard to case, in any script. -/
def nameKey (path : Path) : String :=
  Text.lowercase path.render

def findMember? (scope : Scope) (path : Path) : Option Nat :=
  let key := nameKey path
  scope.members.toList.findIdx? fun m => Text.lowercase m.uniqueName == key

def findSet? (scope : Scope) (path : Path) : Option Nat :=
  let key := nameKey path
  scope.sets.toList.findIdx? fun s => Text.lowercase s.uniqueName == key

/-- A calculated member by its index; a blank one where there is none. -/
def member (scope : Scope) (index : Nat) : CalculatedMember :=
  scope.members.getD index ⟨"", "", .measures, none, none, 0⟩

/-- The tuples of a named set by its index. -/
def tuples (scope : Scope) (index : Nat) : TupleSet :=
  (scope.sets[index]?.map (·.tuples)).getD []

end Scope

end CubeQuery
