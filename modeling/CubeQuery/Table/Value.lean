import CubeQuery.Number.Plain

/-!
The values that table cells hold, and the key under which two values count as the same.
-/

namespace CubeQuery

/-- The declared type of a column. -/
inductive ColumnType
  | number
  | text
  | boolean
  deriving DecidableEq

namespace ColumnType

def name : ColumnType → String
  | number => "number"
  | text => "string"
  | boolean => "boolean"

def isNumeric (t : ColumnType) : Bool :=
  t == number

end ColumnType

/-- The content of one table cell. The empty value belongs to every column type. -/
inductive Value
  | null
  | number (x : Float)
  | boolean (b : Bool)
  | text (s : String)
  deriving DecidableEq

namespace Value

def isNull (v : Value) : Bool :=
  v == null

def number? : Value → Option Float
  | number x => some x
  | _ => none

def text? : Value → Option String
  | text s => some s
  | _ => none

/-- The type a value belongs to; the empty value belongs to none in particular. -/
def type? : Value → Option ColumnType
  | null => none
  | number _ => some .number
  | boolean _ => some .boolean
  | text _ => some .text

/-- A value as captions and messages show it. Small whole numbers, such as years and ids, have no
fraction, and negative zero has no sign. -/
def display : Value → String
  | null => ""
  | number x => Number.generalText x
  | boolean true => "TRUE"
  | boolean false => "FALSE"
  | text s => s

/-- The number nearest to an integer. -/
def ofInt (n : Int) : Value :=
  let magnitude := (Number.Decimal.mk n.natAbs 0).toFloat
  number (if n < 0 then -magnitude else magnitude)

/-- A number that may be absent. -/
def ofNumber? : Option Float → Value
  | some x => number x
  | none => null

end Value

/-- A value as look-ups see it: the two zeros are one number, and what is not a number equals
itself. -/
inductive Key
  | null
  | number (x : Float)
  | boolean (b : Bool)
  | text (s : String)
  deriving DecidableEq

namespace Key

def ofFloat (x : Float) : Float :=
  if x == 0.0 then 0.0 else x

def ofValue : Value → Key
  | .null => null
  | .number x => number (ofFloat x)
  | .boolean b => boolean b
  | .text s => text s

instance : Hashable Key where
  hash
    | null => 11
    | number x => mixHash 13 (hash x.toBits)
    | boolean b => mixHash 17 (hash b)
    | text s => mixHash 19 (hash s)

end Key

end CubeQuery
