import CubeQuery.Table.Value

/-!
What can be wrong with a table, its columns and its rows.
-/

namespace CubeQuery

inductive TableFault
  | duplicateColumn (table column : String)
  | unknownColumn (table column : String)
  /-- A row has too few or too many values. -/
  | wrongWidth (table : String) (expected actual : Nat)
  | wrongType (table column : String) (row : Nat) (expected actual : ColumnType)
  deriving DecidableEq

def TableFault.message : TableFault → String
  | duplicateColumn table column => "duplicate column " ++ table ++ "[" ++ column ++ "]"
  | unknownColumn table column => "unknown column " ++ table ++ "[" ++ column ++ "]"
  | wrongWidth table expected actual =>
    "schema mismatch for " ++ table ++ ": expected " ++ toString expected ++ " values, got " ++
      toString actual
  | wrongType table column row expected actual =>
    "type mismatch in " ++ table ++ "[" ++ column ++ "] at row " ++ toString row ++
      ": expected " ++ expected.name ++ ", got " ++ actual.name

end CubeQuery
