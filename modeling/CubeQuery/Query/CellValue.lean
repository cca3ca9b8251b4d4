import CubeQuery.Query.Coordinate
import CubeQuery.Query.Scalar
import CubeQuery.Table.RowSet

/-!
The value of a cell. Row sets and values that have been worked out are remembered while the cells
of one query are evaluated; what is remembered is what would be found again, so it changes no value.
-/

namespace CubeQuery

open CubeQuery.Language

structure CellValue where
  value : Scalar
  /-- No fact row contributes, or the value is missing. -/
  empty : Bool
  deriving DecidableEq

/-- What has been worked out so far. -/
structure CellMemory where
  /-- The fact rows below a member. -/
  subtrees : Std.HashMap MemberId RowSet
  /-- The fact rows of leading restrictions. -/
  rows : Std.HashMap (List (List MemberId)) RowSet
  /-- Values with the number of rows behind them. -/
  values : Std.HashMap (List (List MemberId) × MeasureId) (Scalar × Nat)

def CellMemory.empty : CellMemory := ⟨∅, ∅, ∅⟩

/-- A step in the evaluation of cells. What it remembers is kept when it fails. -/
abbrev Recall := ExceptT Error (StateM CellMemory)

namespace Context

variable (ctx : Context)

/-! ### Rows -/

/-- The fact rows attached to a member or to one below it. -/
def rowsBelow (id : MemberId) : RowSet :=
  .ofRows ctx.cube.factTable.rowCount
    ((ctx.cube.descendants id).flatMap fun m => (ctx.cube.rowsAt m).toList)

def recallSubtree (id : MemberId) : StateM CellMemory RowSet := do
  match (← get).subtrees[id]? with
  | some rows => return rows
  | none =>
    let rows := ctx.rowsBelow id
    modify fun memory => { memory with subtrees := memory.subtrees.insert id rows }
    return rows

/-- The fact rows below any of several members. -/
def recallUnion (ids : List MemberId) : StateM CellMemory RowSet :=
  ids.foldlM (fun rows id => return rows.union (← ctx.recallSubtree id))
    (.empty ctx.cube.factTable.rowCount)

/-- Restricts rows further, one restriction after another. `done` are the restrictions that led to
`rows`. -/
def recallRestricted (done : List (List MemberId)) (rows : RowSet) :
    List (List MemberId) → StateM CellMemory RowSet
  | [] => return rows
  | ids :: rest => do
    let leading := done ++ [ids]
    match (← get).rows[leading]? with
    | some rows => recallRestricted leading rows rest
    | none =>
      let rows ← if rows.isEmpty then pure rows else rows.inter <$> ctx.recallUnion ids
      modify fun memory => { memory with rows := memory.rows.insert leading rows }
      recallRestricted leading rows rest

/-- All fact rows. They are remembered as those that satisfy no restriction. -/
def recallAll : StateM CellMemory RowSet := do
  match (← get).rows[([] : List (List MemberId))]? with
  | some rows => return rows
  | none =>
    let rows := RowSet.full ctx.cube.factTable.rowCount
    modify fun memory => { memory with rows := memory.rows.insert [] rows }
    return rows

/-- The fact rows that satisfy all restrictions: those that are remembered for exactly these, or all
fact rows restricted step by step. -/
def recallRows (restrictions : List (List MemberId)) : StateM CellMemory RowSet := do
  match (← get).rows[restrictions]? with
  | some rows => return rows
  | none => ctx.recallRestricted [] (← ctx.recallAll) restrictions

/-! ### Values -/

/-- The values of a measure in the given rows, in row order, without the missing ones. -/
def measured (id : MeasureId) (rows : RowSet) : List Float :=
  rows.toList.filterMap fun row =>
    (ctx.cube.factTable.cell row (ctx.cube.measure id).columnIndex).number?

def aggregate (id : MeasureId) (rows : RowSet) : Scalar :=
  (ctx.cube.measure id).aggregation.aggregate (ctx.measured id rows)

/-- The value of a cell without calculated members. -/
def recallStored (coordinate : Coordinate) : Recall CellValue := do
  let measure ← ctx.measureOf coordinate
  let restrictions := ctx.restrictions coordinate
  match (← get).values[(restrictions, measure)]? with
  | some (value, count) => return ⟨value, count == 0 || value.isNull⟩
  | none =>
    let rows ← ctx.recallRows restrictions
    let value := ctx.aggregate measure rows
    modify fun memory => { memory with
      values := memory.values.insert (restrictions, measure) (value, rows.count) }
    return ⟨value, rows.isEmpty || value.isNull⟩

/-- The value of a formula. `valueAt` evaluates the cells that it refers to; `measure` is the
calculated member that the formula belongs to. -/
def evalFormula (valueAt : Coordinate → Recall CellValue) (coordinate : Coordinate)
    (measure : String) : Formula → Recall Scalar
  | .number x => return .number x
  | .text s => return .text s
  | .tuple t => return (← valueAt (ctx.place coordinate t)).value
  | .negate e => do
    let s ← evalFormula valueAt coordinate measure e
    s.negate measure
  | .binary op left right => do
    let l ← evalFormula valueAt coordinate measure left
    let r ← evalFormula valueAt coordinate measure right
    l.apply op r measure

/-- The value of a cell whose calculated members may refer to each other so many levels deep. -/
def evalWithin : (levels : Nat) → Coordinate → Recall CellValue
  | 0, _ => throw (.evaluation .calculationTooDeep)
  | levels + 1, coordinate =>
    match ctx.leadingCalculated? coordinate with
    | none => ctx.recallStored coordinate
    | some i => do
      let measure := (ctx.scope.member i).uniqueName
      let value ← match ctx.scope.formulas[i]? with
        | some f => ctx.evalFormula (evalWithin levels) coordinate measure f
        | none => pure .null
      match value with
      | .text s => throw (.aggregation measure (.textResult s))
      | value => return ⟨value, value.isNull⟩

/-- The value of a cell. -/
def evalCell (coordinate : Coordinate) : Recall CellValue :=
  ctx.evalWithin (calculationLimit + 1) coordinate

end Context

end CubeQuery
