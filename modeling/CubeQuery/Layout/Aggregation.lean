import CubeQuery.Text.Blank
import CubeQuery.Text.Caseless

/-!
The ways in which the values of a measure are drawn together.
-/

namespace CubeQuery

inductive Aggregation
  | sum
  | count
  | average
  | min
  | max
  | distinctCount
  deriving DecidableEq

namespace Aggregation

def name : Aggregation → String
  | sum => "sum"
  | count => "count"
  | average => "average"
  | min => "min"
  | max => "max"
  | distinctCount => "distinctcount"

/-- Counting has an answer, zero, even where there is nothing to count. -/
def isCounting : Aggregation → Bool
  | count | distinctCount => true
  | _ => false

/-- Reads a name or one of its customary variants, in any case and between blanks. -/
def ofName? (s : String) : Option Aggregation :=
  match Text.caseless (Text.trim s) with
  | "sum" => some sum
  | "count" => some count
  | "average" | "avg" | "mean" => some average
  | "min" => some min
  | "max" => some max
  | "distinctcount" | "distinct_count" | "distinct-count" => some distinctCount
  | _ => none

theorem ofName?_name (a : Aggregation) : ofName? a.name = some a := by
  cases a <;> decide

end Aggregation

end CubeQuery
