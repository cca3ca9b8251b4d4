import CubeQuery.Json.Reader
import CubeQuery.Layout.Basic

/-!
Layouts in their JSON form. Only what may be absent in a layout may be null; lists and the
aggregation may be left out but not null.
-/

namespace CubeQuery

namespace JsonValue

/-- A text that has to be there. -/
def requiredText? (v? : Option JsonValue) : Option String := do
  (← v?).text?

/-- A text that may be absent or null. The outer option is the failure. -/
def optionalText? : Option JsonValue → Option (Option String)
  | none | some null => some none
  | some v => v.text?.map some

/-- Values of a list, all of which can be read. A list that is left out is empty. -/
def listOf? (item : JsonValue → Option α) : Option JsonValue → Option (List α)
  | none => some []
  | some v => do (← v.array?).mapM item

end JsonValue

open JsonValue

def DimensionLayout.ofJson? (v : JsonValue) : Option DimensionLayout := do
  let [name, table, keyColumn, foreignKey, levelColumns, parentColumn, allCaption] ←
    v.record? ["name", "table", "keyColumn", "foreignKey", "levelColumns", "parentColumn",
      "allCaption"] | none
  return {
    name := ← requiredText? name
    table := ← requiredText? table
    keyColumn := ← requiredText? keyColumn
    foreignKey := ← requiredText? foreignKey
    levelColumns := ← (← (← levelColumns).array?).mapM text?
    parentColumn? := ← optionalText? parentColumn
    allCaption? := ← optionalText? allCaption }

def MeasureLayout.ofJson? (v : JsonValue) : Option MeasureLayout := do
  let [name, column, aggregation, format] ←
    v.record? ["name", "column", "aggregation", "formatString"] | none
  return {
    name := ← requiredText? name
    column := ← requiredText? column
    aggregation := ← match aggregation with
      | none => some defaultAggregation
      | some v => v.text?
    format? := ← optionalText? format }

def CubeLayout.ofJson? (v : JsonValue) : Option CubeLayout := do
  let [name, factTable, dimensions, measures] ←
    v.record? ["name", "factTable", "dimensions", "measures"] | none
  return {
    name := ← requiredText? name
    factTable := ← requiredText? factTable
    dimensions := ← listOf? DimensionLayout.ofJson? dimensions
    measures := ← listOf? MeasureLayout.ofJson? measures }

/-- Reads a layout from the text of a JSON document. -/
def CubeLayout.ofText? (text : String) : Option CubeLayout := do
  CubeLayout.ofJson? (← JsonValue.ofText? text)

end CubeQuery
