import CubeQuery.Query.CellValue
import CubeQuery.Query.SetEvaluation

/-!
The grid of a query: its cells before positions without values are left out. A cell belongs to one
tuple of each axis. Cells are numbered, and the first axis changes fastest. The numbers are machine
words, so that a grid with too many cells has fewer numbers than cells.
-/

namespace CubeQuery

open CubeQuery.Language

/-! ### Positions on several axes -/

/-- A number as a machine word, which wraps around at 64 bits. Sums and products are the same
whether they wrap at each step or at the end. -/
def wrap (n : Nat) : Nat :=
  n % UInt64.size

/-- The positions of a cell on axes of the given sizes, by its number. There are none where an axis
without positions would have to be divided by. -/
def positions? : (sizes : List Nat) → (ordinal : Nat) → Option (List Nat)
  | [], _ => some []
  | size :: sizes, ordinal =>
    if size = 0 then none
    else (positions? sizes (ordinal / size)).map fun others => ordinal % size :: others

/-- How many cells there are on axes of the given sizes. -/
def cellCount : (sizes : List Nat) → Nat
  | [] => 1
  | size :: sizes => wrap (size * cellCount sizes)

/-- The positions of all cells, in the order of their numbers. -/
def allPositions (sizes : List Nat) : List (List Nat) :=
  (List.range (cellCount sizes)).filterMap (positions? sizes)

/-- The number of the cell at some positions. -/
def ordinalOf : (sizes positions : List Nat) → Nat
  | size :: sizes, p :: positions => wrap (p + size * ordinalOf sizes positions)
  | _, _ => 0

/-- The number of the cell at a list of positions, if there is one position for each axis and each
is on its axis. -/
def ordinal? : (sizes positions : List Nat) → Option Nat
  | [], [] => some 0
  | size :: sizes, p :: positions =>
    if p < size then (ordinal? sizes positions).map fun others => wrap (p + size * others)
    else none
  | _, _ => none

/-! ### The slicer -/

def Element.isCalculated : Element → Bool
  | calculated _ => true
  | _ => false

namespace Context

variable (ctx : Context)

/-- What the members of a slicer on one facet ask for. Several stored members ask for the rows of
any of them. -/
def slicerChoice (facet : Facet) : List Element → Except Error Choice
  | [e] => .ok (.one e)
  | es =>
    if facet = .measures then .error (.evaluation .severalSlicerMeasures)
    else
      match es.find? Element.isCalculated with
      | some e => .error (.evaluation (.combinedCalculated (ctx.uniqueName e)))
      | none => .ok (.any es)

/-- The facets that some elements lie on, each once. -/
def facetsOf (es : List Element) : List Facet :=
  (es.map ctx.facetOf).eraseDups.mergeSort fun f g => f.rank ≤ g.rank

/-- The coordinate that all cells share. The members of the slicer are taken facet by facet,
wherever in its tuples they stand. -/
def slicerCoordinate (set : TupleSet) : Except Error Coordinate :=
  let es := set.flatten.eraseDups
  (ctx.facetsOf es).mapM fun facet => do
    return (facet, ← ctx.slicerChoice facet (es.filter fun e => ctx.facetOf e = facet))

/-! ### Axes and cells -/

/-- The sets of the axes, none of which may have a facet of an axis before it. -/
def axisSets (used : List Facet) : List AxisClause → Noted (List TupleSet)
  | [] => return []
  | axis :: rest => do
    let set ← ctx.evalSet axis.set
    let first := set.head?.getD []
    match repeatedFacet? used (ctx.facets first) with
    | some facet => .fail (.repeatedHierarchy (ctx.renderTuple first) (ctx.facetName facet))
    | none => return set :: (← axisSets (ctx.facets first ++ used) rest)

end Context

/-- What a statement asks for. -/
structure Plan where
  /-- The sets of the axes. -/
  sets : List TupleSet
  /-- The tuples of the slicer, if there is one. -/
  slicer? : Option TupleSet
  /-- The coordinate that all cells share. -/
  base : Coordinate

namespace Plan

/-- The numbers of tuples on the axes. -/
def sizes (plan : Plan) : List Nat :=
  plan.sets.map List.length

/-- Without a slicer all rows count; an explicit slicer without tuples selects nothing. -/
def selectsNothing (plan : Plan) : Bool :=
  plan.slicer? == some []

/-- The members of the tuples at some positions. -/
def membersAt (plan : Plan) (positions : List Nat) : Tuple :=
  (plan.sets.zipWith (fun set p => set.getD p []) positions).flatten

end Plan

structure GridCell where
  coordinate : Coordinate
  content : CellValue

namespace Context

variable (ctx : Context)

/-- The tuples of a slicer, if there is one. -/
def evalSlicer : Option Expr → Noted (Option TupleSet)
  | some e => do return some (← ctx.evalSet e)
  | none => return none

/-- Evaluates the axes and the slicer of a statement. -/
def plan (statement : Statement) : Noted Plan := do
  let sets ← ctx.axisSets [] statement.axes
  let slicer? ← ctx.evalSlicer statement.slicer?
  return { sets, slicer?, base := ← .ofResult (ctx.slicerCoordinate (slicer?.getD [])) }

/-- The cell at some positions. -/
def gridCell (plan : Plan) (positions : List Nat) : Recall GridCell := do
  let coordinate := ctx.place plan.base (plan.membersAt positions)
  if plan.selectsNothing then return ⟨coordinate, ⟨.null, true⟩⟩
  else return ⟨coordinate, ← ctx.evalCell coordinate⟩

/-- All cells in the order of their numbers, or the failure of the first that has no value. -/
def grid (plan : Plan) : Except Error (List GridCell) :=
  (((allPositions plan.sizes).mapM (ctx.gridCell plan)).run.run .empty).1

end Context

/-! ### Leaving out empty positions -/

/-- For each position of an axis, whether it is kept. -/
abbrev Mask := Array Bool

/-- The positions that are kept. -/
def Mask.kept (mask : Mask) : List Nat :=
  (List.range mask.size).filter fun p => mask.getD p false

/-- Keeps one more position of each axis. -/
def keepAt (masks : List Mask) (positions : List Nat) : List Mask :=
  masks.zipWith (fun mask p => mask.setIfInBounds p true) positions

/-- Which positions the axes keep: those at which some cell of the grid is not empty, and all where
empty ones need not be left out. All axes are looked at before any of them is shortened. -/
def masksOf (axes : List AxisClause) (sizes : List Nat) (grid : List GridCell) : List Mask :=
  let masks := axes.zipWith (fun axis size => Array.replicate size !axis.nonEmpty) sizes
  if axes.all fun axis => !axis.nonEmpty then masks
  else
    ((grid.zip (allPositions sizes)).filter fun (cell, _) => !cell.content.empty).foldl
      (fun masks (_, positions) => keepAt masks positions) masks

/-- The positions that the axes keep. -/
def keptOf (axes : List AxisClause) (sizes : List Nat) (grid : List GridCell) : List (List Nat) :=
  (masksOf axes sizes grid).map Mask.kept

/-- The positions in the grid of a cell that is kept. -/
def originals (kept : List (List Nat)) (positions : List Nat) : List Nat :=
  kept.zipWith (fun ps p => ps.getD p 0) positions

/-- The cell of the grid that a number among the cells which are kept belongs to. -/
def keptCell (sizes : List Nat) (kept : List (List Nat)) (grid : Array GridCell)
    (ordinal : Nat) : Except Error GridCell :=
  let cell? : Option GridCell := do
    let positions ← positions? (kept.map List.length) ordinal
    grid[ordinalOf sizes (originals kept positions)]?
  match cell? with
  | some cell => .ok cell
  | none => .error .beyondGrid

/-- The tuples of an axis at some positions. -/
def tuplesAt (set : TupleSet) (positions : List Nat) : TupleSet :=
  positions.map (set.getD · [])

end CubeQuery
