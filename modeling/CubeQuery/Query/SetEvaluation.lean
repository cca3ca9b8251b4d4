import CubeQuery.Query.Resolution
import CubeQuery.Query.SetFunctions

/-!
From set expressions to tuple sets. Operands are evaluated from the left, and the first failure
ends the evaluation.
-/

namespace CubeQuery

open CubeQuery.Language

namespace Context

variable (ctx : Context)

/-- The tuples of what a name denotes. A hierarchy or dimension stands for its All member. -/
def referredSet : Referent → TupleSet
  | .element e => [[e]]
  | .level id => ctx.levelMembers id
  | .hierarchy id => [[ctx.defaultMember id]]
  | .dimension id =>
    ((ctx.cube.dimension id).hierarchies.head?.map fun h => [[ctx.defaultMember h]]).getD []
  | .measures => [[.measure ctx.cube.defaultMeasure]]
  | .namedSet i => ctx.scope.tuples i

/-- The calculated members of a facet as a set, if the property asks for them. -/
def calculatedIf (property : Property) (facet : Facet) : TupleSet :=
  if property = .allMembers then (ctx.calculatedOn facet).map fun e => [e] else []

/-- All members of a hierarchy, with the calculated ones if the property asks for them. -/
def hierarchyWith (id : HierarchyId) (property : Property) : TupleSet :=
  ctx.hierarchyMembers id ++ ctx.calculatedIf property (.hierarchy id)

/-- The members of a level; calculated ones belong to it if their depth is that of the level. -/
def levelWith (id : LevelId) (property : Property) : TupleSet :=
  let level := ctx.cube.level id
  ctx.levelMembers id ++
    (ctx.calculatedIf property (.hierarchy level.hierarchy)).filter
      fun t => t.head?.any fun e => ctx.depth e == level.ordinal

/-- The tuples that a property of a name denotes, if the name has that property. -/
def propertySet? (property : Property) (referent : Referent) : Option TupleSet :=
  match property, referent with
  | .members, .element e | .children, .element e => some ((ctx.childrenOf e).map fun c => [c])
  | .parent, .element e => some ((ctx.parentOf? e).toList.map fun p => [p])
  | .members, d | .allMembers, d =>
    match d with
    | .measures => some (ctx.measureMembers ++ ctx.calculatedIf property .measures)
    | .hierarchy id => some (ctx.hierarchyWith id property)
    | .dimension id =>
      (ctx.cube.dimension id).hierarchies.head?.map fun h => ctx.hierarchyWith h property
    | .level id => some (ctx.levelWith id property)
    | .namedSet i => some (ctx.scope.tuples i)
    | .element _ => none
  | _, _ => none

def evalProperty (path : Path) (property : Property) : Noted TupleSet := do
  match ctx.propertySet? property (← ctx.resolve path) with
  | some set => return set
  | none => .fail (.evaluation (.invalidProperty property path))

/-- An operand with what it evaluates to. Flags and level names are operands too; what they would
evaluate to is of no interest. -/
abbrev Operand := Expr × Noted TupleSet

/-- The value of the operand at a position of a call. -/
def argument (f : SetFunction) (operands : List Operand) (index : Nat) : Noted TupleSet :=
  match operands[index]? with
  | some (_, value) => value
  | none => .fail (.evaluation (.missingArgument f index))

/-- Whether a call has the flag at a position where nothing else may stand. -/
def flagged (f : SetFunction) (operands : List Operand) (index : Nat) (flag : Flag) : Noted Bool :=
  match operands[index]? with
  | none => return false
  | some (.flag other, _) =>
    if other = flag then return true
    else .fail (.evaluation (.unexpectedArgument f (.flag other)))
  | some (other, _) => .fail (.evaluation (.unexpectedArgument f other))

/-- The level that an operand names. -/
def levelArgument : Option Operand → Noted (Option LevelId)
  | none => return none
  | some (.path path, _) => do
    match ← ctx.resolve path with
    | .level id => return some id
    | _ => .fail (.evaluation (.notALevel (.path path)))
  | some (other, _) => .fail (.evaluation (.notALevel other))

/-- The product of a set with further operands, each evaluated when its turn comes. -/
def crossjoinAll (left : TupleSet) : List Operand → Noted TupleSet
  | [] => return left
  | (_, right) :: rest => do
    let joined ← Noted.ofResult (ctx.crossjoin left (← right))
    crossjoinAll joined rest

def evalCall (f : SetFunction) (operands : List Operand) : Noted TupleSet :=
  match f with
  | .hierarchize => do
    let set ← argument f operands 0
    return ctx.hierarchize set (← flagged f operands 1 .post)
  | .addCalculatedMembers => do
    return ctx.addCalculatedMembers (← argument f operands 0)
  | .drilldownMember => do
    let set ← argument f operands 0
    let targets ← argument f operands 1
    return ctx.drilldownMember set targets (← flagged f operands 2 .recursive)
  | .drilldownLevel => do
    let set ← argument f operands 0
    return ctx.drilldownLevel set (← ctx.levelArgument operands[1]?)
  | .crossJoin => do
    ctx.crossjoinAll (← argument f operands 0) operands.tail
  | .union => do
    let set := CubeQuery.union (← Noted.sequence (operands.map (·.2)))
    match operands with
    | (first, _) :: _ => Noted.ofResult (ctx.checkUniform set first)
    | [] => pure ()
    return set
  | .except => do
    let a ← argument f operands 0
    let b ← argument f operands 1
    return CubeQuery.except a b
  | .distinct => do
    return CubeQuery.distinct (← argument f operands 0)

/-- A tuple of single members, each evaluated when its turn comes. -/
def evalTuple : List Operand → Noted Tuple
  | [] => return []
  | (item, value) :: rest => do
    match ← value with
    | [members] => return members ++ (← evalTuple rest)
    | set => .fail (.evaluation (.compoundTupleItem item set.length))

mutual

/-- The tuples of a set expression. -/
def evalSet : Expr → Noted TupleSet
  | .path path => do
    return ctx.referredSet (← ctx.resolve path)
  | .property path property => ctx.evalProperty path property
  | .set items => do
    let set := (← Noted.sequence (evalEach items)).flatten
    Noted.ofResult (ctx.checkUniform set (.set items))
    return set
  | .tuple items => do
    let t ← evalTuple (items.zip (evalEach items))
    Noted.ofResult (ctx.checkTuple t)
    return [t]
  | .call f arguments => ctx.evalCall f (arguments.zip (evalEach arguments))
  | .binary .multiply left right => do
    let a ← evalSet left
    let b ← evalSet right
    Noted.ofResult (ctx.crossjoin a b)
  | .binary .add left right => do
    let a ← evalSet left
    let b ← evalSet right
    let set := CubeQuery.union [a, b]
    Noted.ofResult (ctx.checkUniform set (.binary .add left right))
    return set
  | e => .fail (.evaluation (.notASet e))

/-- What each of several expressions evaluates to. -/
def evalEach : List Expr → List (Noted TupleSet)
  | [] => []
  | e :: es => evalSet e :: evalEach es

end

theorem evalEach_eq_map (es : List Expr) : ctx.evalEach es = es.map ctx.evalSet := by
  induction es with
  | nil => rfl
  | cons e es ih => rw [evalEach, ih, List.map_cons]

/-- The cases of the evaluation; an expression that falls under none of the first seven fails. -/
@[elab_as_elim]
theorem evalSet_induction {motive : Expr → Prop} (path : ∀ p, motive (.path p))
    (property : ∀ p property, motive (.property p property))
    (set : ∀ items, (∀ e ∈ items, motive e) → motive (.set items))
    (tuple : ∀ items, (∀ e ∈ items, motive e) → motive (.tuple items))
    (call : ∀ f items, (∀ e ∈ items, motive e) → motive (.call f items))
    (multiply : ∀ left right, motive left → motive right → motive (.binary .multiply left right))
    (add : ∀ left right, motive left → motive right → motive (.binary .add left right))
    (other : ∀ e, (∀ ctx : Context, ctx.evalSet e = .fail (.evaluation (.notASet e))) → motive e)
    (e : Expr) : motive e := by
  refine evalSet.induct motive (fun es => ∀ e ∈ es, motive e) path property set tuple call multiply
    add ?other (List.forall_mem_nil _) (fun _ _ he hes => List.forall_mem_cons.2 ⟨he, hes⟩) e
  case other =>
    intro e hpath hproperty hset htuple hcall hmultiply hadd
    refine other e fun ctx => ?_
    rw [evalSet]
    all_goals assumption

end Context

end CubeQuery
