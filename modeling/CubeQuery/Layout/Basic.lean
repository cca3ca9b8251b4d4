/-!
The layout of a cube: which table holds the facts, how the columns of dimension tables become
levels, and which fact columns are measures. A layout names tables and columns; the tables
themselves come separately, so that one layout serves fresh data.
-/

namespace CubeQuery

/-- One dimension table. -/
structure DimensionLayout where
  name : String
  table : String
  /-- The column that identifies a row of the dimension table. -/
  keyColumn : String
  /-- The column of the fact table that refers to the key. -/
  foreignKey : String
  /-- From the top level down. With a parent column there is one, which holds the captions. -/
  levelColumns : List String
  /-- The column with the key of the row above, for levels that arise from nesting. -/
  parentColumn? : Option String
  /-- The caption of the member that stands for all others. -/
  allCaption? : Option String
  deriving DecidableEq

/-- A fact column, and how its values are drawn together. -/
structure MeasureLayout where
  name : String
  column : String
  aggregation : String
  format? : Option String
  deriving DecidableEq

structure CubeLayout where
  name : String
  factTable : String
  dimensions : List DimensionLayout
  measures : List MeasureLayout
  deriving DecidableEq

/-- Measures are summed unless a layout says otherwise. -/
def defaultAggregation : String := "sum"

def DimensionLayout.allCaption (d : DimensionLayout) : String :=
  d.allCaption?.getD ("All " ++ d.name)

namespace CubeLayout

def create (name factTable : String) : CubeLayout :=
  { name, factTable, dimensions := [], measures := [] }

def withDimension (layout : CubeLayout) (d : DimensionLayout) : CubeLayout :=
  { layout with dimensions := layout.dimensions ++ [d] }

def withMeasure (layout : CubeLayout) (m : MeasureLayout) : CubeLayout :=
  { layout with measures := layout.measures ++ [m] }

end CubeLayout

namespace DimensionLayout

def create (name table keyColumn foreignKey : String) (levelColumns : List String) :
    DimensionLayout :=
  { name, table, keyColumn, foreignKey, levelColumns, parentColumn? := none, allCaption? := none }

def withParentColumn (d : DimensionLayout) (column : String) : DimensionLayout :=
  { d with parentColumn? := some column }

def withAllCaption (d : DimensionLayout) (caption : String) : DimensionLayout :=
  { d with allCaption? := some caption }

end DimensionLayout

namespace MeasureLayout

def create (name column : String) : MeasureLayout :=
  { name, column, aggregation := defaultAggregation, format? := none }

def withAggregation (m : MeasureLayout) (aggregation : String) : MeasureLayout :=
  { m with aggregation }

def withFormat (m : MeasureLayout) (format : String) : MeasureLayout :=
  { m with format? := some format }

end MeasureLayout

end CubeQuery
