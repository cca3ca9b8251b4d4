import CubeQuery.Table.Fault
import CubeQuery.Text.Caseless

/-!
Tables, stored column by column. A row is checked as a whole before any of its values is stored,
so the columns always have the same length.
-/

namespace CubeQuery

structure Column where
  name : String
  type : ColumnType
  deriving DecidableEq

structure Table where
  name : String
  schema : List Column
  /-- The values of each column of the schema, one for each row. -/
  columns : List (Array Value)
  rowCount : Nat

/-- The first string that also stands earlier in the list. -/
def firstRepeated? : (seen : List String) → List String → Option String
  | _, [] => none
  | seen, s :: rest => if s ∈ seen then some s else firstRepeated? (s :: seen) rest

namespace Table

/-- A table without rows. Column names may differ in case alone. -/
def create (name : String) (schema : List Column) : Except TableFault Table :=
  match firstRepeated? [] (schema.map (·.name)) with
  | some column => .error (.duplicateColumn name column)
  | none => .ok { name, schema, columns := schema.map fun _ => #[], rowCount := 0 }

/-- The first column that a row of the right width does not fit, with the type it has there. -/
def misfit? : List Column → List Value → Option (Column × ColumnType)
  | column :: schema, value :: row =>
    match value.type? with
    | some type => if type = column.type then misfit? schema row else some (column, type)
    | none => misfit? schema row
  | _, _ => none

/-- The table with one more row, which must have a value for each column, of its type or empty. -/
def push (t : Table) (row : List Value) : Except TableFault Table :=
  if row.length ≠ t.schema.length then
    .error (.wrongWidth t.name t.schema.length row.length)
  else
    match misfit? t.schema row with
    | some (column, actual) =>
      .error (.wrongType t.name column.name t.rowCount column.type actual)
    | none =>
      .ok { t with
        columns := t.columns.zipWith (fun values value => values.push value) row
        rowCount := t.rowCount + 1 }

/-- A change of a table in place. What it has done before a fault stays done. -/
abbrev InPlace := ExceptT TableFault (StateM Table)

/-- Puts a value at the end of one column in place. -/
def store (value : Value) (index : Nat) : InPlace Unit :=
  modify fun t => { t with columns := t.columns.modify index (·.push value) }

/-- Takes a row into the table in place. Its width and its types are looked at first. Then its
values go to their columns one after another, and the row is counted last. -/
def append (row : List Value) : InPlace Unit := do
  let t ← get
  if row.length ≠ t.schema.length then
    throw (.wrongWidth t.name t.schema.length row.length)
  if let some (column, actual) := misfit? t.schema row then
    throw (.wrongType t.name column.name t.rowCount column.type actual)
  row.zipIdx.forM fun (value, index) => store value index
  modify fun t => { t with rowCount := t.rowCount + 1 }

/-- What a table answers to one more row, and the table that is left behind. -/
def offer (t : Table) (row : List Value) : Except TableFault Unit × Table :=
  (append row).run.run t

/-- A table with the given rows, or the fault of the first row that has one. -/
def ofRows (name : String) (schema : List Column) (rows : List (List Value)) :
    Except TableFault Table := do
  rows.foldlM push (← create name schema)

/-- A column by its name: the one with exactly that name, else the first that differs from it in
case alone. -/
def columnIndex? (t : Table) (column : String) : Option Nat :=
  (t.schema.findIdx? (·.name == column)).or
    (t.schema.findIdx? fun c => Text.sameName c.name column)

/-- A column that has to be there. -/
def requireColumn (t : Table) (column : String) : Except TableFault Nat :=
  match t.columnIndex? column with
  | some index => .ok index
  | none => .error (.unknownColumn t.name column)

def columnType? (t : Table) (index : Nat) : Option ColumnType :=
  t.schema[index]?.map (·.type)

def column? (t : Table) (index : Nat) : Option (Array Value) :=
  t.columns[index]?

def cell? (t : Table) (row index : Nat) : Option Value :=
  t.columns[index]?.bind (·[row]?)

/-- A cell, empty where there is none. -/
def cell (t : Table) (row index : Nat) : Value :=
  (t.cell? row index).getD .null

def isEmpty (t : Table) : Bool :=
  t.rowCount == 0

end Table

end CubeQuery
