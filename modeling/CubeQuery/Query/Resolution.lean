import CubeQuery.Cube.Lookup
import CubeQuery.Query.Context
import CubeQuery.Query.Noted

/-!
What a dotted name denotes. Definitions of the query come first, then unique names of the cube, then
names that are walked from a dimension down, and last shortened names that leave out the dimension.
-/

namespace CubeQuery

open CubeQuery.Language CubeQuery.Text

inductive Referent
  | dimension (id : DimensionId)
  | hierarchy (id : HierarchyId)
  | level (id : LevelId)
  | element (e : Element)
  /-- All measures together. -/
  | measures
  | namedSet (index : Nat)
  deriving DecidableEq

def Referent.ofEntity : Entity → Referent
  | .dimension id => dimension id
  | .hierarchy id => hierarchy id
  | .level id => level id
  | .member id => element (.member id)
  | .measure id => element (.measure id)

namespace Cube

variable (cube : Cube)

/-- The member with exactly the given caption, else the first that differs from it in case alone. -/
def matchCaption? (members : List MemberId) (caption : String) : Option MemberId :=
  (members.find? fun m => (cube.member m).caption == caption).or
    (members.find? fun m => sameName (cube.member m).caption caption)

/-- Follows captions from a member down. -/
def walk? (m : MemberId) : List String → Option MemberId
  | [] => some m
  | caption :: rest => do
    walk? (← cube.matchCaption? (cube.memberChildren m) caption) rest

/-- Follows captions from the All member, which may itself be named first. -/
def walkFromAll? (allMember : MemberId) (captions : List String) : Option MemberId :=
  match captions with
  | first :: rest =>
    if sameName (cube.member allMember).caption first then cube.walk? allMember rest
    else cube.walk? allMember captions
  | [] => some allMember

/-- A name below a hierarchy: a level, or captions from the top level down, with or without a level
in front. A single caption after a level may also be one of that level. -/
def resolveBelow? (id : HierarchyId) : List String → Option Referent
  | [] => none
  | first :: rest =>
    let h := cube.hierarchy id
    match h.levels.find? fun l => sameName (cube.level l).name first with
    | some level =>
      if rest = [] then some (.level level)
      else
        let onLevel := match rest with
          | [caption] => cube.matchCaption? (cube.level level).members.toList caption
          | _ => none
        ((cube.walkFromAll? h.allMember rest).or onLevel).map fun m => .element (.member m)
    | none => (cube.walkFromAll? h.allMember (first :: rest)).map fun m => .element (.member m)

/-- A name below a dimension, with or without the hierarchy. -/
def resolveInDimension? (id : DimensionId) : List String → Option Referent
  | [] => some (.dimension id)
  | first :: rest =>
    let hierarchies := (cube.dimension id).hierarchies
    let throughHierarchy : Option Referent := do
      let h ← hierarchies.find? fun h => sameName (cube.hierarchy h).name first
      if rest = [] then some (.hierarchy h) else cube.resolveBelow? h rest
    throughHierarchy.or (hierarchies.findSome? fun h => cube.resolveBelow? h (first :: rest))

/-- What a name that starts with the name of the measures denotes. -/
def resolveMeasure? : List String → Option Referent
  | [] => some .measures
  | [name] => (cube.measureByName? name).map fun m => .element (.measure m)
  | _ => none

end Cube

namespace Context

variable (ctx : Context)

def unresolved (path : Path) : Error :=
  .unresolved path.render

/-- A shortened name, looked for in every hierarchy. The first match counts. -/
def resolveShortened (path : Path) : Noted Referent :=
  match ctx.cube.hierarchyIds.filterMap fun h => ctx.cube.resolveBelow? h path.segments with
  | [] => .fail (unresolved path)
  | [found] => pure found
  | found :: _ => do
    Noted.note (.ambiguousName path)
    return found

/-- What a name denotes when the query does not define it. -/
def resolveInCube (path : Path) : Noted Referent :=
  match path.segments with
  | [] => .fail (unresolved path)
  | first :: rest =>
    let orUnresolved (found? : Option Referent) : Noted Referent :=
      match found? with
      | some found => pure found
      | none => .fail (unresolved path)
    if sameName first "Measures" then orUnresolved (ctx.cube.resolveMeasure? rest)
    else
      match ctx.cube.find? path.render with
      | some entity => pure (.ofEntity entity)
      | none =>
        match ctx.cube.dimensionByName? first with
        | some dimension => orUnresolved (ctx.cube.resolveInDimension? dimension rest)
        | none => ctx.resolveShortened path

def resolve (path : Path) : Noted Referent :=
  match ctx.scope.findMember? path, ctx.scope.findSet? path with
  | some i, _ => pure (.element (.calculated i))
  | none, some i => pure (.namedSet i)
  | none, none => ctx.resolveInCube path

end Context

end CubeQuery
