import CubeQuery.Cube.Navigation
import CubeQuery.Error
import CubeQuery.Query.Scope

/-!
What the names and tuples of a query refer to: a cube together with the definitions of the query.
-/

namespace CubeQuery

open CubeQuery.Language

/-- A step down: which one of the elements below is taken. Steps of different facets compare too,
because a set may mix facets. -/
inductive Step
  | listed (position : Nat)
  /-- Behind all that is listed, in the order of definitions. -/
  | appended (index : Nat)
  deriving DecidableEq

instance : Ord Step where
  compare
    | .listed x, .listed y => compare x y
    | .listed _, .appended _ => .lt
    | .appended _, .listed _ => .gt
    | .appended x, .appended y => compare x y

structure Context where
  cube : Cube
  scope : Scope

namespace Context

variable (ctx : Context)

/-! ### Members of tuples -/

def facetOf : Element → Facet
  | .member id => .hierarchy (ctx.cube.member id).hierarchy
  | .measure _ => .measures
  | .calculated i => (ctx.scope.member i).facet

def parentOf? : Element → Option Element
  | .member id => (ctx.cube.member id).parent?.map .member
  | .measure _ => none
  | .calculated i => (ctx.scope.member i).parent?.map .member

/-- The stored children, in source order. Only stored members have any. -/
def childrenOf : Element → List Element
  | .member id => (ctx.cube.memberChildren id).map .member
  | .measure _ | .calculated _ => []

def uniqueName : Element → String
  | .member id => (ctx.cube.member id).uniqueName
  | .measure id => (ctx.cube.measure id).uniqueName
  | .calculated i => (ctx.scope.member i).uniqueName

def caption : Element → String
  | .member id => (ctx.cube.member id).caption
  | .measure id => (ctx.cube.measure id).name
  | .calculated i => (ctx.scope.member i).caption

def facetName : Facet → String
  | .measures => "[Measures]"
  | .hierarchy id => (ctx.cube.hierarchy id).uniqueName

/-- The level number, 0 for All members and for measures. -/
def depth : Element → Nat
  | .member id => ctx.cube.depth id
  | .measure _ => 0
  | .calculated i =>
    match (ctx.scope.member i).parent? with
    | some parent => ctx.cube.depth parent + 1
    | none => 0

/-- The steps from the top of a facet down to an element. Calculated measures go on counting where
the stored ones end. -/
def descent : Element → List Step
  | .member id => (ctx.cube.positions id).map .listed
  | .measure id => [.listed id.index]
  | .calculated i =>
    match (ctx.scope.member i).parent? with
    | some parent => (ctx.cube.positions parent).map .listed ++ [.appended i]
    | none => [.listed (ctx.cube.measures.size + i)]

/-! ### Tuples -/

def facets (t : Tuple) : List Facet :=
  t.map ctx.facetOf

def renderTuple (t : Tuple) : String :=
  "(" ++ ", ".intercalate (t.map ctx.uniqueName) ++ ")"

/-- The first facet that also stands earlier in the list. -/
def repeatedFacet? : (seen : List Facet) → List Facet → Option Facet
  | _, [] => none
  | seen, f :: rest => if f ∈ seen then some f else repeatedFacet? (f :: seen) rest

/-- A tuple may have one member of each facet. -/
def checkTuple (t : Tuple) : Except Error Unit :=
  match repeatedFacet? [] (ctx.facets t) with
  | some facet => .error (.repeatedHierarchy (ctx.renderTuple t) (ctx.facetName facet))
  | none => .ok ()

/-- All tuples of a set must span the same facets in the same order. -/
def checkUniform (set : TupleSet) (expr : Expr) : Except Error Unit :=
  match set with
  | [] => .ok ()
  | first :: rest =>
    match rest.find? fun t => ctx.facets t ≠ ctx.facets first with
    | some other =>
      .error (.evaluation (.mixedSet expr (ctx.renderTuple first) (ctx.renderTuple other)))
    | none => .ok ()

/-! ### Sets that belong to the cube -/

/-- All stored members of a hierarchy, level by level. -/
def hierarchyMembers (id : HierarchyId) : TupleSet :=
  (ctx.cube.hierarchy id).levels.flatMap fun level =>
    (ctx.cube.level level).members.toList.map fun m => [.member m]

def levelMembers (id : LevelId) : TupleSet :=
  (ctx.cube.level id).members.toList.map fun m => [.member m]

def measureMembers : TupleSet :=
  ctx.cube.measureIds.map fun m => [.measure m]

/-- The member that stands for a hierarchy. -/
def defaultMember (id : HierarchyId) : Element :=
  .member (ctx.cube.hierarchy id).allMember

/-- The calculated members of a facet, in the order of their definitions. -/
def calculatedOn (facet : Facet) : List Element :=
  (ctx.scope.members.toList.zipIdx.filter fun (m, _) => m.facet == facet).map
    fun (_, i) => .calculated i

end Context

end CubeQuery
