import CubeQuery.Cube.Basic
import CubeQuery.Error
import CubeQuery.Layout.Basic
import CubeQuery.Table.Catalog
import CubeQuery.Text.Lowercase

/-!
Adding objects to a cube one at a time. Each takes its unique name when it is added, and no name
can be taken twice.
-/

namespace CubeQuery

open CubeQuery.Language

/-- A step that extends a cube, or fails. -/
abbrev Assembly := StateT Cube (Except Error)

/-- A cube without dimensions and measures over a fact table. -/
def Cube.empty (name : String) (factTable : Table) : Cube :=
  { name, factTable
    dimensions := #[], hierarchies := #[], levels := #[], members := #[], measures := #[]
    factRows := #[], names := ∅, foldedNames := ∅ }

namespace Assembly

def fail (fault : SchemaFault) : Assembly α :=
  throw (.schema fault)

/-- A step that only consults tables. -/
def consult : Except TableFault α → Assembly α
  | .ok x => pure x
  | .error fault => fail (.inTable fault)

/-- Gives a unique name to an object. -/
def register (uniqueName : String) (entity : Entity) : Assembly Unit := do
  let cube ← get
  if cube.names.contains uniqueName then fail (.duplicateMember uniqueName)
  else
    set { cube with
      names := cube.names.insert uniqueName entity
      foldedNames := cube.foldedNames.insertIfNew (Text.lowercase uniqueName) entity }

/-- Adds a dimension with its one hierarchy, still without levels. The hierarchy carries the name
of the dimension, and the next member to be added is its All member. -/
def addHierarchy (layout : DimensionLayout) (kind : HierarchyKind) : Assembly HierarchyId := do
  let dimension : DimensionId := ⟨(← get).dimensions.size⟩
  let hierarchy : HierarchyId := ⟨(← get).hierarchies.size⟩
  let dimensionName := bracketed layout.name
  let hierarchyName := bracketedPath [layout.name, layout.name]
  register dimensionName (.dimension dimension)
  register hierarchyName (.hierarchy hierarchy)
  modify fun cube => { cube with
    dimensions := cube.dimensions.push
      { name := layout.name, uniqueName := dimensionName, table := layout.table,
        hierarchies := [hierarchy] }
    hierarchies := cube.hierarchies.push
      { name := layout.name, uniqueName := hierarchyName, dimension, kind, levels := [],
        allMember := ⟨cube.members.size⟩ } }
  return hierarchy

/-- Adds the next level of a hierarchy. -/
def addLevel (hierarchy : HierarchyId) (name : String) (sourceColumn? : Option String) :
    Assembly LevelId := do
  let cube ← get
  let level : LevelId := ⟨cube.levels.size⟩
  let uniqueName := (cube.hierarchy hierarchy).uniqueName ++ "." ++ bracketed name
  register uniqueName (.level level)
  let ordinal := (cube.hierarchy hierarchy).levels.length
  modify fun cube => { cube with
    levels := cube.levels.push
      { name, uniqueName, hierarchy, ordinal, members := #[], sourceColumn? }
    hierarchies := cube.hierarchies.modify hierarchy.index fun h =>
      { h with levels := h.levels ++ [level] } }
  return level

/-- Adds a member at the end of a level. -/
def addMember (caption uniqueName : String) (level : LevelId) (parent? : Option MemberId)
    (captions : List String) : Assembly MemberId := do
  let cube ← get
  let id : MemberId := ⟨cube.members.size⟩
  register uniqueName (.member id)
  modify fun cube => { cube with
    members := cube.members.push
      { caption, uniqueName, level, hierarchy := (cube.level level).hierarchy, parent?,
        position := (cube.level level).members.size, captions }
    levels := cube.levels.modify level.index fun l => { l with members := l.members.push id }
    factRows := cube.factRows.push #[] }
  return id

/-- Adds the All member of a hierarchy to its level. Its unique name leaves out the level. -/
def addAllMember (hierarchy : HierarchyId) (level : LevelId) (caption : String) :
    Assembly MemberId := do
  let uniqueName := ((← get).hierarchy hierarchy).uniqueName ++ "." ++ bracketed caption
  addMember caption uniqueName level none []

/-- Adds a member below another one. Its unique name is that of its level, followed by the captions
from the top level down. -/
def addChild (caption : String) (level : LevelId) (parent : MemberId) : Assembly MemberId := do
  let cube ← get
  let captions := (cube.member parent).captions ++ [caption]
  let uniqueName := (cube.level level).uniqueName ++ "." ++ bracketedPath captions
  addMember caption uniqueName level (some parent) captions

/-- Attaches a fact row to a member. Rows come in ascending order. -/
def attachRow (row : Nat) (member : MemberId) : Assembly Unit :=
  modify fun cube => { cube with factRows := cube.factRows.modify member.index (·.push row) }

/-- Adds a measure over a column of the fact table. -/
def addMeasure (layout : MeasureLayout) : Assembly Unit := do
  let cube ← get
  if cube.measures.any fun m => Text.sameName m.name layout.name then
    fail (.duplicateMeasure layout.name)
  let columnIndex ← consult (cube.factTable.requireColumn layout.column)
  if !(cube.factTable.columnType? columnIndex).any ColumnType.isNumeric then
    fail (.nonNumericMeasure layout.name layout.column)
  match Aggregation.ofName? layout.aggregation with
  | none => throw (.aggregation layout.name (.unknownAggregation layout.aggregation))
  | some aggregation =>
    let uniqueName := bracketedPath ["Measures", layout.name]
    register uniqueName (.measure ⟨cube.measures.size⟩)
    modify fun cube => { cube with
      measures := cube.measures.push
        { name := layout.name, uniqueName, column := layout.column, columnIndex, aggregation,
          format? := layout.format? } }

end Assembly

end CubeQuery
