import CubeQuery.Text.Caseless

/-!
Expressions of the query language: set expressions on axes and in the slicer, and the formulas of
calculated members. Both have the same form; what a given expression may be used for is decided
when it is evaluated.
-/

namespace CubeQuery.Language

open CubeQuery.Text

/-- A dotted name, and the byte position in the query at which it starts. -/
structure Path where
  segments : List String
  position : Nat
  deriving DecidableEq

/-- What may follow a path after a last dot. -/
inductive Property
  | members
  | allMembers
  | children
  | parent
  deriving DecidableEq

namespace Property

def name : Property → String
  | members => "Members"
  | allMembers => "AllMembers"
  | children => "Children"
  | parent => "Parent"

def all : List Property :=
  [members, allMembers, children, parent]

def ofName? (s : String) : Option Property :=
  all.find? fun p => sameName s p.name

end Property

/-- The functions on sets. -/
inductive SetFunction
  | hierarchize
  | addCalculatedMembers
  | drilldownMember
  | drilldownLevel
  | crossJoin
  | union
  | except
  | distinct
  deriving DecidableEq

namespace SetFunction

def name : SetFunction → String
  | hierarchize => "Hierarchize"
  | addCalculatedMembers => "AddCalculatedMembers"
  | drilldownMember => "DrilldownMember"
  | drilldownLevel => "DrilldownLevel"
  | crossJoin => "CrossJoin"
  | union => "Union"
  | except => "Except"
  | distinct => "Distinct"

def all : List SetFunction :=
  [hierarchize, addCalculatedMembers, drilldownMember, drilldownLevel, crossJoin, union, except,
    distinct]

def ofName? (s : String) : Option SetFunction :=
  all.find? fun f => sameName s f.name

def leastArguments : SetFunction → Nat
  | hierarchize | addCalculatedMembers | drilldownLevel | distinct => 1
  | drilldownMember | crossJoin | union | except => 2

/-- The greatest number of arguments; some functions take any number. -/
def mostArguments? : SetFunction → Option Nat
  | addCalculatedMembers | distinct => some 1
  | hierarchize | drilldownLevel | except => some 2
  | drilldownMember => some 3
  | crossJoin | union => none

def accepts (f : SetFunction) (count : Nat) : Bool :=
  f.leastArguments ≤ count && f.mostArguments?.all (count ≤ ·)

end SetFunction

/-- Words that switch the mode of a function. -/
inductive Flag
  | post
  | recursive
  deriving DecidableEq

namespace Flag

def name : Flag → String
  | post => "POST"
  | recursive => "RECURSIVE"

def all : List Flag :=
  [post, recursive]

def ofName? (s : String) : Option Flag :=
  all.find? fun f => sameName s f.name

end Flag

inductive Operator
  | add
  | subtract
  | multiply
  | divide
  deriving DecidableEq

namespace Operator

/-- Products bind more tightly than sums. -/
def precedence : Operator → Nat
  | add | subtract => 1
  | multiply | divide => 2

end Operator

inductive Expr
  | path (path : Path)
  | property (path : Path) (property : Property)
  | set (items : List Expr)
  /-- At least two items; one item in parentheses is that item. -/
  | tuple (items : List Expr)
  | call (function : SetFunction) (arguments : List Expr)
  | number (x : Float)
  | text (s : String)
  | flag (flag : Flag)
  | negate (operand : Expr)
  | binary (operator : Operator) (left right : Expr)

end CubeQuery.Language
