import CubeQuery.Error
import CubeQuery.Layout.Aggregation
import CubeQuery.Table.Value

/-!
The values of cells and formulas: how the values of rows are drawn together, and arithmetic with
values that may be missing.
-/

namespace CubeQuery

open CubeQuery.Language

inductive Scalar
  | null
  | number (x : Float)
  | text (s : String)
  deriving DecidableEq

namespace Scalar

def isNull (s : Scalar) : Bool :=
  s == null

def number? : Scalar → Option Float
  | number x => some x
  | _ => none

def ofNumber? : Option Float → Scalar
  | some x => number x
  | none => null

/-- The number that an operand is, if it has a value. Text cannot be reckoned with. -/
def operand (measure : String) : Scalar → Except Error (Option Float)
  | null => .ok none
  | number x => .ok (some x)
  | text s => .error (.aggregation measure (.textOperand s))

/-- A missing term counts as zero, and two missing terms have no sum. -/
def addWith (sign : Float) : Option Float → Option Float → Option Float
  | none, none => none
  | some l, none => some l
  | none, some r => some (sign * r)
  | some l, some r => some (l + sign * r)

/-- A product with a missing factor is missing, and so is a quotient with a missing operand or a
divisor of zero. -/
def calculate : Operator → Option Float → Option Float → Option Float
  | .add, l, r => addWith 1.0 l r
  | .subtract, l, r => addWith (-1.0) l r
  | .multiply, some l, some r => some (l * r)
  | .divide, some l, some r => if r == 0.0 then none else some (l / r)
  | _, _, _ => none

/-- An operation of a formula; `measure` is the calculated member it belongs to. -/
def apply (op : Operator) (left right : Scalar) (measure : String) : Except Error Scalar := do
  let l ← left.operand measure
  let r ← right.operand measure
  return ofNumber? (calculate op l r)

def negate (s : Scalar) (measure : String) : Except Error Scalar :=
  match s with
  | null => .ok null
  | number x => .ok (number (-x))
  | text s => .error (.aggregation measure (.negatedText s))

end Scalar

namespace Aggregation

/-- The smaller of two numbers; what is not a number gives way to a number. -/
def lesser (x y : Float) : Float :=
  if x.isNaN then y else if y.isNaN then x else if y < x then y else x

def greater (x y : Float) : Float :=
  if x.isNaN then y else if y.isNaN then x else if x < y then y else x

/-- The aggregate of one or more numbers, in the order of their rows. -/
def combine (a : Aggregation) (first : Float) (rest : List Float) : Float :=
  let all := first :: rest
  let count := Float.ofNat all.length
  let sum := all.foldl (· + ·) 0.0
  match a with
  | .sum => sum
  | .count => count
  | .average => sum / count
  | .min => rest.foldl lesser first
  | .max => rest.foldl greater first
  | .distinctCount => Float.ofNat (all.map fun x => Key.ofValue (.number x)).eraseDups.length

/-- The aggregate of numbers, if there are any. Counts of nothing are zero. -/
def aggregate (a : Aggregation) : List Float → Scalar
  | [] => if a.isCounting then .number 0.0 else .null
  | first :: rest => .number (a.combine first rest)

end Aggregation

end CubeQuery
