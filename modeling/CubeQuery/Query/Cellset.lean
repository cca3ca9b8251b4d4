import CubeQuery.Number.Pattern
import CubeQuery.Query.Definitions
import CubeQuery.Query.Grid
import CubeQuery.Query.Options

/-!
The answer to a query: axes with what clients display of their members, and cells with their
formatted values. Cells are numbered in the order of their positions, the first axis fastest.
-/

namespace CubeQuery

open CubeQuery.Language

structure AxisMember where
  uniqueName : String
  caption : String
  levelUniqueName : String
  levelNumber : Nat
  parentUniqueName? : Option String
  hierarchyUniqueName : String
  displayInfo : Nat
  deriving DecidableEq

structure Axis where
  name : String
  /-- Those that every tuple spans, in the order of its members. An axis keeps them when all of its
  tuples are left out. -/
  hierarchies : List String
  tuples : List (List AxisMember)
  properties : List String
  deriving DecidableEq

/-- A cell, with colours as red + 256 × green + 65536 × blue. -/
structure Cell where
  ordinal : Nat
  value? : Option Float
  formatted : String
  format : String
  language : Nat
  backColor : Nat := 0xFFFFFF
  foreColor : Nat := 0
  fontFlags : Nat := 0
  deriving DecidableEq

structure Cellset where
  cube : String
  axes : List Axis
  slicer : Axis
  cells : Array Cell
  cellProperties : List String
  deriving DecidableEq

/-- The numbers of tuples that the axes show. -/
def Cellset.sizes (cellset : Cellset) : List Nat :=
  cellset.axes.map (·.tuples.length)

/-- The cell at one position for each axis. -/
def Cellset.cellAt? (cellset : Cellset) (positions : List Nat) : Option Cell := do
  cellset.cells[← ordinal? cellset.sizes positions]?

namespace Context

variable (ctx : Context)

/-! ### Axes -/

def measuresLevelName : String := "[Measures].[MeasuresLevel]"

/-- The level that an element is shown on. A calculated member is shown below its parent, or on the
same level if that is the last. -/
def levelName : Element → String
  | .member id => (ctx.cube.level (ctx.cube.member id).level).uniqueName
  | .measure _ => measuresLevelName
  | .calculated i =>
    match (ctx.scope.member i).parent? with
    | some parent =>
      (ctx.cube.level
        ((ctx.cube.levelBelow? parent).getD (ctx.cube.member parent).level)).uniqueName
    | none => measuresLevelName

def axisMember (options : QueryOptions) (e : Element) : AxisMember where
  uniqueName := ctx.uniqueName e
  caption := ctx.caption e
  levelUniqueName := ctx.levelName e
  levelNumber := ctx.depth e
  parentUniqueName? := (ctx.parentOf? e).map ctx.uniqueName
  hierarchyUniqueName := ctx.facetName (ctx.facetOf e)
  displayInfo := match e with
    | .member _ => memberDisplayInfo
    | .measure _ | .calculated _ => options.displayInfo

/-- The axis of a set of which only some tuples are shown. -/
def axis (options : QueryOptions) (name : String) (properties : List String)
    (set shown : TupleSet) : Axis where
  name
  hierarchies := (ctx.facets (set.head?.getD [])).map ctx.facetName
  tuples := shown.map fun t => t.map (ctx.axisMember options)
  properties

/-! ### Cells -/

/-- The measure whose format a cell takes: the one it names, or the default measure. -/
def formatMeasure? (coordinate : Coordinate) : Option MeasureId :=
  match coordinate.choice? .measures with
  | none => some ctx.cube.defaultMeasure
  | some (.one (.measure id)) => some id
  | some _ => none

/-- The format of a cell: that of the calculated member which decides its value, that of its
measure, or the default, whichever is set first. -/
def cellFormat (options : QueryOptions) (coordinate : Coordinate) : String :=
  let calculated? := (ctx.leadingCalculated? coordinate).bind fun i => (ctx.scope.member i).format?
  let measure? := (ctx.formatMeasure? coordinate).bind fun id => (ctx.cube.measure id).format?
  (calculated?.or measure?).getD options.defaultFormat

def cell (options : QueryOptions) (ordinal : Nat) (content : GridCell) : Cell :=
  let format := ctx.cellFormat options content.coordinate
  let value? := content.content.value.number?
  { ordinal, value?, format, formatted := Number.formatValue value? format
    language := options.locale }

/-! ### Queries -/

/-- The name of the axis that shows the slicer. -/
def slicerAxisName : String := "SlicerAxis"

/-- The cells at the positions that are kept, numbered anew. -/
def cells (options : QueryOptions) (sizes : List Nat) (kept : List (List Nat))
    (grid : Array GridCell) : Except Error (List Cell) :=
  (List.range (cellCount (kept.map List.length))).mapM fun ordinal => do
    return ctx.cell options ordinal (← keptCell sizes kept grid ordinal)

/-- The cellset of a statement that shows some cells. -/
def cellset (options : QueryOptions) (statement : Statement) (plan : Plan)
    (kept : List (List Nat)) (cells : List Cell) : Cellset :=
  let slicer := plan.slicer?.getD []
  { cube := ctx.cube.name
    axes := (statement.axes.zip (plan.sets.zip kept)).map fun (clause, set, positions) =>
      ctx.axis options (axisName clause.index) clause.properties set (tuplesAt set positions)
    slicer := ctx.axis options slicerAxisName [] slicer slicer
    cells := cells.toArray
    cellProperties := statement.cellProperties }

/-- The answer to a statement whose definitions are in scope. -/
def answer (options : QueryOptions) (statement : Statement) : Noted Cellset := do
  let plan ← ctx.plan statement
  let grid ← .ofResult (ctx.grid plan)
  let kept := keptOf statement.axes plan.sizes grid
  let cells ← .ofResult (ctx.cells options plan.sizes kept grid.toArray)
  return ctx.cellset options statement plan kept cells

end Context

/-- The answer of a cube to a statement, which must name the cube in any case. -/
def Cube.execute (cube : Cube) (statement : Statement) (options : QueryOptions) :
    Noted Cellset := do
  if Text.sameName statement.cube cube.name then
    let scope ← Scope.ofDefinitions cube statement.definitions
    Context.answer ⟨cube, scope⟩ options statement
  else .fail (.unresolved (bracketed statement.cube))

end CubeQuery
