import CubeQuery.Query.Context

/-!
The functions on tuple sets. Each keeps the order of its input as far as its purpose allows, and
each may be applied to any sets, whether or not they are uniform.
-/

namespace CubeQuery

/-! ### Ordering by hierarchy -/

/-- Compares two descents step by step. Where one goes on below the other, the upper one comes
first, or last in post-order. -/
def compareDescents (post : Bool) : List Step → List Step → Ordering
  | [], [] => .eq
  | [], _ :: _ => if post then .gt else .lt
  | _ :: _, [] => if post then .lt else .gt
  | x :: xs, y :: ys => (compare x y).then (compareDescents post xs ys)

/-- Compares the descents of two tuples member by member; if one tuple runs out first, it comes
first. -/
def compareTuples (post : Bool) : List (List Step) → List (List Step) → Ordering
  | [], [] => .eq
  | [], _ :: _ => .lt
  | _ :: _, [] => .gt
  | x :: xs, y :: ys => (compareDescents post x y).then (compareTuples post xs ys)

namespace Context

variable (ctx : Context)

/-- The set in the order of the hierarchies: each member before the members below it, or after them
with `post`, and siblings in source order. Equal tuples keep their order. -/
def hierarchize (set : TupleSet) (post : Bool) : TupleSet :=
  let keyed := set.map fun t => (t.map ctx.descent, t)
  (keyed.mergeSort fun a b => compareTuples post a.1 b.1 != .gt).map (·.2)

/-! ### Products and combinations -/

/-- All pairs of a left and a right tuple, joined; the right one changes fastest. -/
def product (a b : TupleSet) : TupleSet :=
  a.flatMap fun l => b.map fun r => l ++ r

/-- The product of two sets that have no facet in common. The first tuples stand for all others. -/
def crossjoin (a b : TupleSet) : Except Error TupleSet :=
  match a, b with
  | l :: _, r :: _ => do
    ctx.checkTuple (l ++ r)
    return product a b
  | _, _ => .ok []

end Context

/-- Each tuple once, at its first place. -/
def distinct (set : TupleSet) : TupleSet :=
  set.eraseDups

def union (sets : List TupleSet) : TupleSet :=
  distinct sets.flatten

/-- The tuples of `a` that are not in `b`, each once. -/
def except (a b : TupleSet) : TupleSet :=
  distinct (a.filter fun t => !b.contains t)

/-! ### Drilling down -/

/-- Follows each tuple of a set with its block. A block is told which tuples the blocks before it
hold. -/
def interleave (block : (emitted : TupleSet) → Tuple → TupleSet) :
    (emitted : TupleSet) → TupleSet → TupleSet
  | _, [] => []
  | emitted, t :: rest =>
    t :: block emitted t ++ interleave block (emitted ++ block emitted t) rest

/-- A block: one tuple for each child of the member at a position, without the tuples that are
present or emitted already. Each new tuple is followed by what `further` makes of it. -/
def childTuples (present : TupleSet) (further : (emitted : TupleSet) → Tuple → Element → TupleSet)
    (t : Tuple) (position : Nat) (emitted : TupleSet) : List Element → TupleSet
  | [] => []
  | child :: rest =>
    let u := t.set position child
    if u ∈ present ∨ u ∈ emitted then childTuples present further t position emitted rest
    else
      let block := u :: further (emitted ++ [u]) u child
      block ++ childTuples present further t position (emitted ++ block) rest

namespace Context

variable (ctx : Context)

/-- The block of a tuple that holds a target: the first one is replaced by each of its children.
With `recursive`, children that are targets are drilled in their turn, at most so many levels
down. -/
def drillTuple (targets : List Element) (present : TupleSet) (recursive : Bool) :
    (levels : Nat) → (emitted : TupleSet) → Tuple → TupleSet
  | 0, _, _ => []
  | levels + 1, emitted, t =>
    match t.findIdx? (targets.contains ·) with
    | none => []
    | some position =>
      let children := (t[position]?.map ctx.childrenOf).getD []
      childTuples present
        (fun emitted u child =>
          if recursive && targets.contains child then
            drillTuple targets present recursive levels emitted u
          else [])
        t position emitted children

/-- The levels below the deepest of a tuple's members; drilling cannot go deeper. -/
def levelsBelow (t : Tuple) : Nat :=
  (t.map fun
    | .member id => ctx.cube.levelsBelow id
    | _ => 0).foldl max 0

/-- Follows every tuple that holds a target with one tuple for each child of the target. Tuples
that are in the set, or were added before, are not added. -/
def drilldownMember (set targets : TupleSet) (recursive : Bool) : TupleSet :=
  interleave (fun emitted t =>
    ctx.drillTuple targets.flatten set recursive (ctx.levelsBelow t) emitted t) [] set

/-- The deepest level number among the first members that are stored. -/
def deepestFirst? (set : TupleSet) : Option Nat :=
  (set.filterMap fun t =>
    match t with
    | .member id :: _ => some (ctx.cube.depth id)
    | _ => none).max?

/-- Drills the first member of every tuple where it lies at the given depth, and on the given
hierarchy if there is one. -/
def drillFirst (set : TupleSet) (depth : Nat) (hierarchy? : Option HierarchyId) : TupleSet :=
  interleave (fun emitted t =>
    match t with
    | .member id :: _ =>
      if ctx.cube.depth id = depth ∧ hierarchy?.all (· = (ctx.cube.member id).hierarchy) then
        childTuples set (fun _ _ _ => []) t 0 emitted (ctx.childrenOf (.member id))
      else []
    | _ => []) [] set

/-- Drills all first members on a level; without a level, those on the deepest level that
occurs. -/
def drilldownLevel (set : TupleSet) (level? : Option LevelId) : TupleSet :=
  match level? with
  | some id =>
    let level := ctx.cube.level id
    ctx.drillFirst set level.ordinal (some level.hierarchy)
  | none =>
    match ctx.deepestFirst? set with
    | some depth => ctx.drillFirst set depth none
    | none => set

/-! ### Calculated members -/

/-- Whether an element has its place next to a calculated member: the same parent, or for a
calculated measure any measure. -/
def isSibling (m : CalculatedMember) (e : Element) : Bool :=
  match m.parent? with
  | some parent => ctx.parentOf? e == some (.member parent)
  | none => ctx.facetOf e == m.facet && (ctx.parentOf? e).isNone

/-- Puts one calculated member after the last tuple that holds a sibling of it at the position of
its facet, unless it is there already. -/
def insertCalculated (position : Nat) (m : CalculatedMember) (e : Element) (set : TupleSet) :
    TupleSet :=
  if set.any fun t => t[position]? == some e then set
  else
    match (set.reverse.findIdx? fun t => t[position]?.any (ctx.isSibling m)) with
    | none => set
    | some fromEnd =>
      let last := set.length - 1 - fromEnd
      match set[last]? with
      | some t => set.take (last + 1) ++ t.set position e :: set.drop (last + 1)
      | none => set

/-- Adds every calculated member that has a sibling in the set, in the order of their
definitions. The first tuple tells which facet stands where. -/
def addCalculatedMembers (set : TupleSet) : TupleSet :=
  match set with
  | [] => []
  | first :: _ =>
    let facets := ctx.facets first
    ctx.scope.members.toList.zipIdx.foldl (fun set (m, i) =>
      match facets.findIdx? (· = m.facet) with
      | some position => ctx.insertCalculated position m (.calculated i) set
      | none => set) set

end Context

end CubeQuery
