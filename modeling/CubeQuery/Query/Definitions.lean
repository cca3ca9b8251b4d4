import CubeQuery.Query.SetEvaluation

/-!
The scope of a query. All calculated members are declared before any definition is read, so that
formulas and sets may use members which are defined further on; a set sees the sets before it.
-/

namespace CubeQuery

open CubeQuery.Language

namespace Context

variable (ctx : Context)

/-- The formula of a calculated member. Names and tuples in it must denote one tuple each. -/
def formula : Expr → Noted Formula
  | .number x => return .number x
  | .text s => return .text s
  | .negate e => return .negate (← formula e)
  | .binary op left right => do
    let l ← formula left
    let r ← formula right
    return .binary op l r
  | .path path => single (.path path)
  | .property path property => single (.property path property)
  | .tuple items => single (.tuple items)
  | e => .fail (.evaluation (.notAScalar e))
where
  single (e : Expr) : Noted Formula := do
    match ← ctx.evalSet e with
    | [t] => return .tuple t
    | _ => .fail (.evaluation (.notASingleTuple e))

/-- The cases of a formula: what is written with numbers, texts and operators, what must denote one
tuple, and what fails. -/
@[elab_as_elim]
theorem formula_induction {motive : Expr → Prop} (number : ∀ x, motive (.number x))
    (text : ∀ s, motive (.text s)) (negate : ∀ e, motive e → motive (.negate e))
    (binary : ∀ op left right, motive left → motive right → motive (.binary op left right))
    (single : ∀ e, (∀ ctx : Context, ctx.formula e = formula.single ctx e) → motive e)
    (other : ∀ e, (∀ ctx : Context, ctx.formula e = .fail (.evaluation (.notAScalar e))) → motive e)
    (e : Expr) : motive e := by
  refine formula.induct motive number text negate binary ?path ?property ?tuple ?other e
  case path => exact fun path => single _ fun _ => rfl
  case property => exact fun path property => single _ fun _ => rfl
  case tuple => exact fun items => single _ fun _ => rfl
  case other =>
    intro e hnumber htext hnegate hbinary hpath hproperty htuple
    refine other e fun ctx => ?_
    rw [formula]
    all_goals assumption

/-- Where a calculated member belongs that is defined below the given name: its facet and the
member above it. -/
def place? (referent : Referent) : Option (Facet × Option MemberId) :=
  let belowAll (h : HierarchyId) := (Facet.hierarchy h, some (ctx.cube.hierarchy h).allMember)
  match referent with
  | .measures => some (.measures, none)
  | .element (.member parent) =>
    some (.hierarchy (ctx.cube.member parent).hierarchy, some parent)
  | .hierarchy h => some (belowAll h)
  | .dimension d => (ctx.cube.dimension d).hierarchies.head?.map belowAll
  | _ => none

/-- Whether a calculated member would take the name of an earlier one or of an object of the
cube. -/
def nameTaken (path : Path) (caption : String) (facet : Facet) : Bool :=
  (ctx.scope.findMember? path).isSome || (ctx.cube.find? path.render).isSome ||
    (facet == .measures && (ctx.cube.measureByName? caption).isSome)

/-- The calculated member that a definition declares: the last name is its caption, the names
before it say where it belongs. -/
def declared (d : MemberDefinition) : Noted CalculatedMember :=
  match d.path.segments.getLast? with
  | none => .fail (unresolved d.path)
  | some caption => do
    let above := d.path.segments.dropLast
    if above = [] then .fail (.evaluation (.unqualifiedMember d.path))
    else
      match ctx.place? (← ctx.resolve ⟨above, d.path.position⟩) with
      | none => .fail (.evaluation (.misplacedMember d.path))
      | some (facet, parent?) =>
        if ctx.nameTaken d.path caption facet then
          .fail (.evaluation (.memberRedefined d.path))
        else
          return { caption, uniqueName := d.path.render, facet, parent?, format? := d.format?
                   solveOrder := d.solveOrder }

end Context

namespace Scope

/-- Declares the member of a definition; sets declare nothing. -/
def declare (cube : Cube) (scope : Scope) : Definition → Noted Scope
  | .member d => do
    let m ← Context.declared ⟨cube, scope⟩ d
    return { scope with members := scope.members.push m }
  | .set _ => return scope

/-- Reads the formula or the set of a definition, in the scope of those read before it. -/
def read (cube : Cube) (scope : Scope) : Definition → Noted Scope
  | .member d => do
    let f ← Context.formula ⟨cube, scope⟩ d.expr
    return { scope with formulas := scope.formulas.push f }
  | .set d => do
    let tuples ← Context.evalSet ⟨cube, scope⟩ d.expr
    if (scope.findSet? d.path).isSome then .fail (.evaluation (.setRedefined d.path))
    else return { scope with sets := scope.sets.push ⟨d.path.render, tuples⟩ }

/-- The scope of a list of definitions. -/
def ofDefinitions (cube : Cube) (definitions : List Definition) : Noted Scope := do
  let declared ← definitions.foldlM (declare cube) Scope.empty
  definitions.foldlM (read cube) declared

end Scope

end CubeQuery
