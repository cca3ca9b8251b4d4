import CubeQuery.Layout.Aggregation
import CubeQuery.Table.Basic
import Std.Data.HashMap

/-!
The multidimensional model. All objects of one kind are numbered over the whole cube, in the order
in which they were created, and refer to each other by these numbers.

These numbers, and those of the fact rows, are natural numbers here. A program keeps them in words
of 32 bits: a cube is taken to have fewer than `2 ^ 32` objects of each kind and fewer than `2 ^ 32`
fact rows, so that no number is cut off.
-/

namespace CubeQuery

structure DimensionId where
  index : Nat
  deriving DecidableEq, Hashable

structure HierarchyId where
  index : Nat
  deriving DecidableEq, Hashable

structure LevelId where
  index : Nat
  deriving DecidableEq, Hashable

/-- Below `2 ^ 32`, as the number of members is taken to be. -/
structure MemberId where
  index : Nat
  deriving DecidableEq, Hashable

structure MeasureId where
  index : Nat
  deriving DecidableEq, Hashable

structure Dimension where
  name : String
  uniqueName : String
  table : String
  hierarchies : List HierarchyId

inductive HierarchyKind
  /-- One level for each declared column. -/
  | regular
  /-- Levels that arise from rows nested through a parent column. -/
  | parentChild
  deriving DecidableEq

structure Hierarchy where
  name : String
  uniqueName : String
  dimension : DimensionId
  kind : HierarchyKind
  /-- From the level of the All member down, so that a level stands at its ordinal. -/
  levels : List LevelId
  allMember : MemberId

structure Level where
  name : String
  uniqueName : String
  hierarchy : HierarchyId
  ordinal : Nat
  /-- In source order. -/
  members : Array MemberId
  sourceColumn? : Option String

structure Member where
  caption : String
  uniqueName : String
  level : LevelId
  hierarchy : HierarchyId
  /-- Missing for All members only. -/
  parent? : Option MemberId
  /-- The position within the level. -/
  position : Nat
  /-- The captions from the top level down to this member; none for an All member. -/
  captions : List String

structure Measure where
  name : String
  uniqueName : String
  column : String
  columnIndex : Nat
  aggregation : Aggregation
  format? : Option String

/-- Any object of a cube that has a unique name. -/
inductive Entity
  | dimension (id : DimensionId)
  | hierarchy (id : HierarchyId)
  | level (id : LevelId)
  | member (id : MemberId)
  | measure (id : MeasureId)
  deriving DecidableEq

structure Cube where
  name : String
  dimensions : Array Dimension
  hierarchies : Array Hierarchy
  levels : Array Level
  members : Array Member
  measures : Array Measure
  factTable : Table
  /-- The fact rows attached to each member itself, without those of members below it. Like members,
  rows are taken to have numbers below `2 ^ 32`. -/
  factRows : Array (Array Nat)
  /-- The object of each unique name. -/
  names : Std.HashMap String Entity
  /-- The object that first took each unique name, in lower case. -/
  foldedNames : Std.HashMap String Entity

/-- The display property that clients receive for stored members. -/
def memberDisplayInfo : Nat := 131076

namespace Member

def isAll (m : Member) : Bool :=
  m.parent?.isNone

end Member

namespace Cube

/-! Objects by number. A number that is not in use yields a blank object. -/

def dimension (cube : Cube) (id : DimensionId) : Dimension :=
  cube.dimensions.getD id.index ⟨"", "", "", []⟩

def hierarchy (cube : Cube) (id : HierarchyId) : Hierarchy :=
  cube.hierarchies.getD id.index ⟨"", "", ⟨0⟩, .regular, [], ⟨0⟩⟩

def level (cube : Cube) (id : LevelId) : Level :=
  cube.levels.getD id.index ⟨"", "", ⟨0⟩, 0, #[], none⟩

def member (cube : Cube) (id : MemberId) : Member :=
  cube.members.getD id.index ⟨"", "", ⟨0⟩, ⟨0⟩, none, 0, []⟩

def measure (cube : Cube) (id : MeasureId) : Measure :=
  cube.measures.getD id.index ⟨"", "", "", 0, .sum, none⟩

/-- The fact rows attached to a member itself. -/
def rowsAt (cube : Cube) (id : MemberId) : Array Nat :=
  cube.factRows.getD id.index #[]

/-! All objects of a kind. -/

def hierarchyIds (cube : Cube) : List HierarchyId :=
  (List.range cube.hierarchies.size).map HierarchyId.mk

def measureIds (cube : Cube) : List MeasureId :=
  (List.range cube.measures.size).map MeasureId.mk

/-- The measure of a cell that names none: the one declared first. -/
def defaultMeasure (_ : Cube) : MeasureId := ⟨0⟩

end Cube

end CubeQuery
