import CubeQuery.Cube.Assembly

/-!
Building a cube from a layout and loaded tables. A regular dimension gets one level for each level
column and one member for each distinct run of level values; a dimension with a parent column gets
one member for each row, on the level of its depth. Each fact row is attached to the member of the
dimension row that it refers to.
-/

namespace CubeQuery

open Assembly

/-- The caption of an empty level value. A text that reads like it is the same member. -/
def blankCaption : String := "(Blank)"

def captionOf (v : Value) : String :=
  if v.isNull then blankCaption else v.display

/-- What tells the members of a level below one parent apart. -/
def levelKey : Value → Key
  | .text s => if s = blankCaption then .null else .text s
  | v => .ofValue v

/-- The row of each key of a dimension table. -/
abbrev KeyRows := Std.HashMap Key Nat

/-- The rows of a table by the values of a column, which must all differ. -/
def keyRows (table : Table) (column : String) (index : Nat) : Except SchemaFault KeyRows :=
  (List.range table.rowCount).foldlM (fun rows row =>
    let value := table.cell row index
    if rows.contains (.ofValue value) then
      .error (.duplicateKey table.name column value.display)
    else .ok (rows.insert (.ofValue value) row)) ∅

/-! ### Levels from columns -/

/-- The children found so far, by their parents and keys. -/
abbrev ChildIndex := Std.HashMap (MemberId × Key) MemberId

/-- The member of a level value below a parent, added at its first appearance. -/
def childOf (level : LevelId) (value : Value) (parent : MemberId) (found : ChildIndex) :
    Assembly (MemberId × ChildIndex) := do
  match found[(parent, levelKey value)]? with
  | some child => return (child, found)
  | none =>
    let child ← addChild (captionOf value) level parent
    return (child, found.insert (parent, levelKey value) child)

/-- The deepest member of a row, found or added on the way down from the All member. -/
def memberOfRow (table : Table) (levels : List (LevelId × Nat)) (allMember : MemberId) (row : Nat)
    (found : ChildIndex) : Assembly (MemberId × ChildIndex) :=
  levels.foldlM (fun (parent, found) (level, index) =>
    childOf level (table.cell row index) parent found) (allMember, found)

/-- The members of all rows, in the order of the rows. -/
def membersOfRows (table : Table) (levels : List (LevelId × Nat)) (allMember : MemberId) :
    Assembly (Array MemberId) := do
  let (members, _) ← (List.range table.rowCount).foldlM (fun (members, found) row => do
    let (member, found) ← memberOfRow table levels allMember row found
    return (members.push member, found)) (#[], (∅ : ChildIndex))
  return members

/-- One level for each level column, and the deepest member of every row. -/
def addRegularLevels (layout : DimensionLayout) (table : Table) (hierarchy : HierarchyId)
    (allMember : MemberId) : Assembly (Array MemberId) := do
  let levels ← layout.levelColumns.mapM fun column => do
    let index ← consult (table.requireColumn column)
    let level ← addLevel hierarchy column (some column)
    return (level, index)
  membersOfRows table levels allMember

/-! ### Levels from nesting -/

/-- The row above each row, if there is one. -/
def parentRows (table : Table) (rows : KeyRows) (keyIndex parentIndex : Nat) :
    Except SchemaFault (List (Option Nat)) :=
  (List.range table.rowCount).mapM fun row =>
    let parent := table.cell row parentIndex
    if parent.isNull then .ok none
    else
      match rows[Key.ofValue parent]? with
      | some above => .ok (some above)
      | none =>
        .error (.unknownParent table.name (table.cell row keyIndex).display parent.display)

/-- The way up from a row, as far as no depth is known: its rows, the topmost one first, and the
depth of the row above them, 0 where there is none. A row that comes up twice is the error. -/
def climb (parents depths : Array (Option Nat)) (chain : List Nat) :
    Option Nat → Except Nat (List Nat × Nat)
  | none => .ok (chain, 0)
  | some row =>
    match (depths[row]?).join with
    | some depth => .ok (chain, depth)
    | none =>
      if row ∈ chain then .error row
      else if _ : row < parents.size then climb parents depths (row :: chain) parents[row]
      else .ok (row :: chain, 0)
termination_by ((List.range parents.size).filter (· ∉ chain)).length
decreasing_by
  -- The row has not been on the chain, and each row of the table gets there once at most.
  have hsplit : (List.range parents.size).filter (· ∉ row :: chain) =
      ((List.range parents.size).filter (· ∉ chain)).filter (· ≠ row) := by
    rw [List.filter_filter]
    exact List.filter_congr fun x _ => by simp
  rw [hsplit]
  exact List.length_filter_lt_length_iff_exists.2 ⟨row, by simp [*], by simp⟩

/-- Counts the rows of a chain on from a depth. -/
def countChain (depths : Array (Option Nat)) (depth : Nat) : List Nat → Array (Option Nat)
  | [] => depths
  | row :: rest => countChain (depths.setIfInBounds row (some (depth + 1))) (depth + 1) rest

/-- Counts the rows on the way up from a row, unless they have been counted before. -/
def countFrom (parents depths : Array (Option Nat)) (row : Nat) :
    Except Nat (Array (Option Nat)) := do
  let (chain, depth) ← climb parents depths [] (some row)
  return countChain depths depth chain

/-- The number of rows on the way up from each row, itself included, or a row that comes up twice on
the way up from the first row whose way never ends. -/
def depthsOf (parents : List (Option Nat)) : Except Nat (List Nat) := do
  let depths ← (List.range parents.length).foldlM (countFrom parents.toArray)
    (Array.replicate parents.length none)
  return depths.toList.map (·.getD 1)

/-- Levels of nested rows are numbered with two digits at least. -/
def depthName (depth : Nat) : String :=
  "Level " ++ (if depth < 10 then "0" else "") ++ toString depth

/-- The members of the rows at one depth, added in row order. `members` holds those of the rows
further up. -/
def addDepth (table : Table) (captionIndex : Nat) (allMember : MemberId)
    (parents : Array (Option Nat)) (depths : Array Nat) (members : Array MemberId)
    (levelAt : Nat × LevelId) : Assembly (Array MemberId) :=
  let (depth, level) := levelAt
  let rows := (List.range table.rowCount).filter fun row => depths[row]? == some depth
  rows.foldlM (fun members row => do
    let parent := ((parents[row]?).join.bind (members[·]?)).getD allMember
    let member ← addChild (captionOf (table.cell row captionIndex)) level parent
    return members.setIfInBounds row member) members

/-- One level for each depth, and the member of every row. -/
def addNestedLevels (layout : DimensionLayout) (parentColumn : String) (table : Table)
    (rows : KeyRows) (hierarchy : HierarchyId) (allMember : MemberId) :
    Assembly (Array MemberId) := do
  let parentIndex ← consult (table.requireColumn parentColumn)
  let keyIndex ← consult (table.requireColumn layout.keyColumn)
  let captionColumn := layout.levelColumns.headD ""
  let captionIndex ← consult (table.requireColumn captionColumn)
  match parentRows table rows keyIndex parentIndex with
  | .error fault => fail fault
  | .ok parents =>
    match depthsOf parents with
    | .error row => fail (.parentCycle table.name (table.cell row keyIndex).display)
    | .ok depths =>
      let deepest := depths.foldl max 0
      let levels ← ((List.range deepest).map (· + 1)).mapM fun depth => do
        return (depth, ← addLevel hierarchy (depthName depth) (some captionColumn))
      levels.foldlM (addDepth table captionIndex allMember parents.toArray depths.toArray)
        (Array.replicate table.rowCount allMember)

/-! ### The whole cube -/

/-- Attaches every fact row to the member of the dimension row that it refers to. -/
def attachFacts (layout : DimensionLayout) (rows : KeyRows) (members : Array MemberId) :
    Assembly Unit := do
  let fact := (← get).factTable
  let index ← consult (fact.requireColumn layout.foreignKey)
  (List.range fact.rowCount).forM fun row =>
    let value := fact.cell row index
    match (rows[Key.ofValue value]?).bind (members[·]?) with
    | some member => attachRow row member
    | none =>
      fail (.unmatchedForeignKey fact.name layout.foreignKey row value.display layout.name)

/-- The name that no dimension may have, in any case. -/
def measuresName : String := "Measures"

def requireTable (catalog : Catalog) (name : String) : Assembly Table :=
  match catalog.find? name with
  | some table => pure table
  | none => fail (.unknownTable name)

/-- What a dimension has to satisfy before its table is looked at. -/
def checkDimension (layout : DimensionLayout) : Assembly Unit := do
  if Text.sameName layout.name measuresName then fail (.reservedName layout.name)
  if (← get).dimensions.any fun d => Text.sameName d.name layout.name then
    fail (.duplicateDimension layout.name)
  if layout.levelColumns = [] then fail (.noLevels layout.name)
  if layout.parentColumn?.isSome && layout.levelColumns.length ≠ 1 then
    fail (.parentChildLevels layout.name)

/-- Adds a dimension with its hierarchy, levels and members, and attaches the fact rows. -/
def addDimension (catalog : Catalog) (layout : DimensionLayout) : Assembly Unit := do
  checkDimension layout
  let table ← requireTable catalog layout.table
  if table.isEmpty then fail (.emptyDimensionTable layout.name layout.table)
  let keyIndex ← consult (table.requireColumn layout.keyColumn)
  match keyRows table layout.keyColumn keyIndex with
  | .error fault => fail fault
  | .ok rows =>
    let kind := if layout.parentColumn?.isSome then .parentChild else .regular
    let hierarchy ← addHierarchy layout kind
    let allLevel ← addLevel hierarchy "(All)" none
    let allMember ← addAllMember hierarchy allLevel layout.allCaption
    let members ← match layout.parentColumn? with
      | none => addRegularLevels layout table hierarchy allMember
      | some column => addNestedLevels layout column table rows hierarchy allMember
    attachFacts layout rows members

/-- The cube of a layout over loaded tables. -/
def Cube.build (layout : CubeLayout) (catalog : Catalog) : Except Error Cube := do
  match catalog.find? layout.factTable with
  | none => throw (.schema (.unknownTable layout.factTable))
  | some fact =>
    if layout.measures = [] then throw (.schema (.noMeasures layout.name))
    let steps : Assembly Unit := do
      layout.dimensions.forM (addDimension catalog)
      layout.measures.forM addMeasure
    let (_, cube) ← steps.run (Cube.empty layout.name fact)
    return cube

end CubeQuery
