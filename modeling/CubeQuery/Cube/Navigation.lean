import CubeQuery.Cube.Basic

/-!
Moving through a hierarchy: from a member to its children and to everything below it, and from a
member up to the All member.
-/

namespace CubeQuery

namespace Cube

/-- The level number of a member, 0 for an All member. -/
def depth (cube : Cube) (id : MemberId) : Nat :=
  (cube.level (cube.member id).level).ordinal

/-- The level below that of a member. -/
def levelBelow? (cube : Cube) (id : MemberId) : Option LevelId :=
  (cube.hierarchy (cube.member id).hierarchy).levels[cube.depth id + 1]?

/-- The members directly below a member, in source order. -/
def memberChildren (cube : Cube) (id : MemberId) : List MemberId :=
  match cube.levelBelow? id with
  | some below =>
    (cube.level below).members.toList.filter fun child => (cube.member child).parent? == some id
  | none => []

/-- How many levels lie below that of a member. -/
def levelsBelow (cube : Cube) (id : MemberId) : Nat :=
  (cube.hierarchy (cube.member id).hierarchy).levels.length - (cube.depth id + 1)

/-- The members of a generation and of so many generations after it. -/
def generations (cube : Cube) : Nat → List MemberId → List MemberId
  | 0, ids => ids
  | n + 1, ids => ids ++ cube.generations n (ids.flatMap cube.memberChildren)

/-- A member and every member below it, level by level. -/
def descendants (cube : Cube) (id : MemberId) : List MemberId :=
  cube.generations (cube.levelsBelow id) [id]

/-- A member, the member above it and so on, so many steps at most. -/
def lineageWithin (cube : Cube) : Nat → MemberId → List MemberId
  | 0, id => [id]
  | n + 1, id =>
    match (cube.member id).parent? with
    | some parent => id :: cube.lineageWithin n parent
    | none => [id]

/-- A member and all members above it, up to the All member. -/
def lineage (cube : Cube) (id : MemberId) : List MemberId :=
  cube.lineageWithin (cube.depth id) id

/-- Whether `id` is `ancestor` or lies below it. -/
def isAncestorOrSelf (cube : Cube) (ancestor id : MemberId) : Bool :=
  (cube.lineage id).contains ancestor

/-- The positions on the way from the top level down to a member, none for an All member. Those of a
member start with those of its parent. -/
def positions (cube : Cube) (id : MemberId) : List Nat :=
  ((cube.lineage id).filter fun id => !(cube.member id).isAll).reverse.map
    fun id => (cube.member id).position

/-! ### Any object -/

def uniqueName (cube : Cube) : Entity → String
  | .dimension id => (cube.dimension id).uniqueName
  | .hierarchy id => (cube.hierarchy id).uniqueName
  | .level id => (cube.level id).uniqueName
  | .member id => (cube.member id).uniqueName
  | .measure id => (cube.measure id).uniqueName

def caption (cube : Cube) : Entity → String
  | .dimension id => (cube.dimension id).name
  | .hierarchy id => (cube.hierarchy id).name
  | .level id => (cube.level id).name
  | .member id => (cube.member id).caption
  | .measure id => (cube.measure id).name

/-- The object that an object belongs to; the parent of a member is a member. -/
def parent? (cube : Cube) : Entity → Option Entity
  | .dimension _ | .measure _ => none
  | .hierarchy id => some (.dimension (cube.hierarchy id).dimension)
  | .level id => some (.hierarchy (cube.level id).hierarchy)
  | .member id => (cube.member id).parent?.map .member

/-- The objects that belong to an object, in order. -/
def children (cube : Cube) : Entity → List Entity
  | .dimension id => (cube.dimension id).hierarchies.map .hierarchy
  | .hierarchy id => (cube.hierarchy id).levels.map .level
  | .level id => (cube.level id).members.toList.map .member
  | .member id => (cube.memberChildren id).map .member
  | .measure _ => []

end Cube

end CubeQuery
