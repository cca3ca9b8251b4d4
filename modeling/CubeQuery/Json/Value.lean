/-!
JSON documents, kept as they are written: fields stay in order, a field may be given twice, and
numbers are their literals.
-/

namespace CubeQuery

inductive JsonValue
  | null
  | boolean (b : Bool)
  | number (literal : String)
  /-- The text is missing when an escape names half of a surrogate pair. -/
  | string (text? : Option String)
  | array (items : List JsonValue)
  | object (fields : List (Option String × JsonValue))
  deriving Inhabited

namespace JsonValue

def text? : JsonValue → Option String
  | string s? => s?
  | _ => none

/-- A natural number below a bound, written with digits alone. -/
def natBelow? (bound : Nat) : JsonValue → Option Nat
  | number literal => literal.toNat?.filter fun n => literal.toList.all Char.isDigit && n < bound
  | _ => none

def array? : JsonValue → Option (List JsonValue)
  | array items => some items
  | _ => none

/-- The fields of a record, in the order of their names. An object may have other fields besides,
but none of these twice; an array gives the fields from the first one on. -/
def record? (names : List String) : JsonValue → Option (List (Option JsonValue))
  | object fields =>
    let readable := fields.all fun (name?, _) => name?.isSome
    let single := names.all fun name => (fields.countP fun (name?, _) => name? == some name) ≤ 1
    if readable && single then
      some (names.map fun name => (fields.find? fun (name?, _) => name? == some name).map (·.2))
    else none
  | array items =>
    if items.length ≤ names.length then
      some (items.map some ++ List.replicate (names.length - items.length) none)
    else none
  | _ => none

end JsonValue

end CubeQuery
