import CubeQuery.Language.Fault
import CubeQuery.Language.Printer
import CubeQuery.Table.Fault

/-!
Everything that can go wrong between loading tables and answering a query, by cause.
-/

namespace CubeQuery

open CubeQuery.Language

/-- Tables and a layout that make no cube. -/
inductive SchemaFault
  | unreadableLayout
  | unknownTable (name : String)
  | duplicateTable (name : String)
  | inTable (fault : TableFault)
  | emptyDimensionTable (dimension table : String)
  | noLevels (dimension : String)
  /-- A dimension with a parent column has more than one level column, or none. -/
  | parentChildLevels (dimension : String)
  | duplicateDimension (name : String)
  | reservedName (name : String)
  | noMeasures (cube : String)
  | duplicateMeasure (name : String)
  | nonNumericMeasure (measure column : String)
  | duplicateKey (table column key : String)
  | duplicateMember (uniqueName : String)
  | unknownParent (table key parent : String)
  | parentCycle (table key : String)
  | unmatchedForeignKey (factTable column : String) (row : Nat) (key dimension : String)
  deriving DecidableEq

def SchemaFault.message : SchemaFault → String
  | unreadableLayout => "invalid cube definition"
  | unknownTable name => "unknown table: " ++ name
  | duplicateTable name => "duplicate table: " ++ name
  | inTable fault => "table error: " ++ fault.message
  | emptyDimensionTable dimension table =>
    "dimension " ++ dimension ++ " has an empty table " ++ table
  | noLevels dimension => "dimension " ++ dimension ++ " declares no level columns"
  | parentChildLevels dimension =>
    "parent-child dimension " ++ dimension ++ " must declare exactly one level column"
  | duplicateDimension name => "duplicate dimension: " ++ name
  | reservedName name => "`" ++ name ++ "` is reserved and cannot name a dimension"
  | noMeasures cube => "cube " ++ cube ++ " declares no measures"
  | duplicateMeasure name => "duplicate measure: " ++ name
  | nonNumericMeasure measure column =>
    "measure " ++ measure ++ " uses non-numeric column " ++ column
  | duplicateKey table column key =>
    "duplicate key " ++ key ++ " in " ++ table ++ "[" ++ column ++ "]"
  | duplicateMember uniqueName => "duplicate member " ++ uniqueName
  | unknownParent table key parent =>
    "row with key " ++ key ++ " in " ++ table ++ " references unknown parent " ++ parent
  | parentCycle table key => "parent chain of key " ++ key ++ " in " ++ table ++ " is cyclic"
  | unmatchedForeignKey factTable column row key dimension =>
    "fact row " ++ toString row ++ " has key " ++ key ++ " in " ++ factTable ++ "[" ++ column ++
      "] with no match in dimension " ++ dimension

/-- Values that a measure or formula cannot work with. -/
inductive AggregationFault
  | unknownAggregation (name : String)
  | textOperand (s : String)
  | negatedText (s : String)
  | textResult (s : String)
  deriving DecidableEq

def AggregationFault.message : AggregationFault → String
  | unknownAggregation name => "unsupported aggregation function " ++ Text.quoted name
  | textOperand s => "cannot use text " ++ Text.quoted s ++ " in arithmetic"
  | negatedText s => "cannot negate text " ++ Text.quoted s
  | textResult s => "formula produced text " ++ Text.quoted s ++ " instead of a number"

/-- Calculated members may refer to each other at most this deep. -/
def calculationLimit : Nat := 32

/-- Expressions that do not mean what their place asks for. -/
inductive EvaluationFault
  | mixedSet (set : Expr) (first other : String)
  | compoundTupleItem (item : Expr) (count : Nat)
  | notASet (found : Expr)
  | notASingleTuple (found : Expr)
  | notAScalar (found : Expr)
  | invalidProperty (property : Property) (path : Path)
  | missingArgument (function : SetFunction) (index : Nat)
  | unexpectedArgument (function : SetFunction) (found : Expr)
  | notALevel (found : Expr)
  | unqualifiedMember (path : Path)
  | misplacedMember (path : Path)
  | memberRedefined (path : Path)
  | setRedefined (path : Path)
  | calculationTooDeep
  | severalMeasures
  | notAMeasure (uniqueName : String)
  | severalSlicerMeasures
  | combinedCalculated (uniqueName : String)

def EvaluationFault.message : EvaluationFault → String
  | mixedSet set first other =>
    "set " ++ set.render ++ " mixes tuples of different hierarchies: " ++ first ++ " and " ++ other
  | compoundTupleItem item count =>
    "tuple element " ++ item.render ++ " must be a single member, found " ++ toString count ++
      " tuples"
  | notASet found => "expected a set expression, found " ++ found.render
  | notASingleTuple found => found.render ++ " must denote a single member or tuple"
  | notAScalar found => "expected a scalar expression, found " ++ found.render
  | invalidProperty property path => property.name ++ " is not valid on " ++ path.render
  | missingArgument function index =>
    function.name ++ " is missing argument " ++ toString (index + 1)
  | unexpectedArgument function found =>
    "unexpected argument " ++ found.render ++ " to " ++ function.name
  | notALevel found => "DrilldownLevel expects a level, found " ++ found.render
  | unqualifiedMember path =>
    "calculated member " ++ path.render ++ " must be qualified by a hierarchy or parent member"
  | misplacedMember path =>
    "calculated member " ++ path.render ++
      " must be defined on a hierarchy, a member or [Measures]"
  | memberRedefined path => "member " ++ path.render ++ " is already defined"
  | setRedefined path => "set " ++ path.render ++ " is defined twice"
  | calculationTooDeep =>
    "calculated members nest deeper than " ++ toString calculationLimit ++ " levels"
  | severalMeasures => "a coordinate cannot aggregate several measures at once"
  | notAMeasure uniqueName => uniqueName ++ " is not a measure"
  | severalSlicerMeasures => "the slicer may select at most one measure"
  | combinedCalculated uniqueName =>
    "calculated member " ++ uniqueName ++ " cannot be combined with other slicer members"

inductive Error
  | schema (fault : SchemaFault)
  | parse (error : SyntaxError)
  | unresolved (path : String)
  | repeatedHierarchy (tuple hierarchy : String)
  | aggregation (measure : String) (fault : AggregationFault)
  | evaluation (fault : EvaluationFault)
  | noCube
  /-- Where there are more cells than numbers for them, the number of a cell leads beyond the grid.
  No caller is told: the program breaks off. -/
  | beyondGrid

def Error.message : Error → String
  | schema fault => "schema error: " ++ fault.message
  | parse error => error.message
  | unresolved path => "unresolved name " ++ path
  | repeatedHierarchy tuple hierarchy =>
    "tuple " ++ tuple ++ " uses hierarchy " ++ hierarchy ++ " more than once"
  | aggregation measure fault =>
    "aggregation error for measure " ++ measure ++ ": " ++ fault.message
  | evaluation fault => "evaluation error: " ++ fault.message
  | noCube => "no cube is bound to the engine"
  | beyondGrid => "index out of bounds"

end CubeQuery
