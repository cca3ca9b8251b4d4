import CubeQuery.Query.Context

/-!
Coordinates of cells: what each facet contributes. A facet that contributes nothing is not
restricted.
-/

namespace CubeQuery

/-- What one facet contributes. -/
inductive Choice
  | one (e : Element)
  /-- Rows that belong to any of several members, as a slicer with several members asks for. -/
  | any (es : List Element)
  deriving DecidableEq

def Choice.elements : Choice → List Element
  | one e => [e]
  | any es => es

/-- Choices in the order of their facets, at most one for each. -/
abbrev Coordinate := List (Facet × Choice)

namespace Coordinate

/-- Sets the choice of a facet, in place of an earlier one. -/
def put (facet : Facet) (choice : Choice) : Coordinate → Coordinate
  | [] => [(facet, choice)]
  | (f, c) :: rest =>
    if facet.rank < f.rank then (facet, choice) :: (f, c) :: rest
    else if facet = f then (facet, choice) :: rest
    else (f, c) :: put facet choice rest

def choice? (facet : Facet) (coordinate : Coordinate) : Option Choice :=
  coordinate.lookup facet

end Coordinate

namespace Context

variable (ctx : Context)

/-- The coordinate with the members of a tuple in place of what their facets contributed. -/
def place (coordinate : Coordinate) (t : Tuple) : Coordinate :=
  t.foldl (fun c e => Coordinate.put (ctx.facetOf e) (.one e) c) coordinate

/-- The calculated member that decides the value of a cell: the one with the highest solve order,
and of those the first. -/
def leadingCalculated? (coordinate : Coordinate) : Option Nat :=
  coordinate.foldl (fun best (_, choice) =>
    match choice with
    | .one (.calculated i) =>
      match best with
      | some j =>
        if (ctx.scope.member j).solveOrder < (ctx.scope.member i).solveOrder then some i else best
      | none => some i
    | _ => best) none

/-- The measure of a cell without calculated members. -/
def measureOf (coordinate : Coordinate) : Except Error MeasureId :=
  match coordinate.choice? .measures with
  | none => .ok ctx.cube.defaultMeasure
  | some (.one (.measure m)) => .ok m
  | some (.any [.measure m]) => .ok m
  | some (.any _) => .error (.evaluation .severalMeasures)
  | some (.one other) => .error (.evaluation (.notAMeasure (ctx.uniqueName other)))

/-- The stored members that a choice restricts the rows to; an All member restricts nothing. -/
def restriction? (choice : Choice) : Option (List MemberId) :=
  let ids := choice.elements.filterMap fun
    | .member id => some id
    | _ => none
  if ids = [] ∨ ids.any fun id => (ctx.cube.member id).isAll then none
  else some ((ids.mergeSort fun a b => a.index ≤ b.index).eraseDups)

/-- The restrictions of a coordinate, hierarchy by hierarchy. -/
def restrictions (coordinate : Coordinate) : List (List MemberId) :=
  coordinate.filterMap fun (facet, choice) =>
    if facet = .measures then none else ctx.restriction? choice

end Context

end CubeQuery
