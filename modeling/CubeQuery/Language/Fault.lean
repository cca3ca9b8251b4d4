import CubeQuery.Language.Expr
import CubeQuery.Language.Token
import CubeQuery.Text.Quoted

/-!
What can be wrong with query text, and the messages about it.
-/

namespace CubeQuery.Language

/-- Expressions nest at most this deep. -/
def nestingLimit : Nat := 128

/-- What should have stood where something else stands. -/
inductive Expectation
  | keyword (word : String)
  | symbol (s : Symbol)
  | definition
  | name
  | nameAfterDot
  | axisName
  | axisNumber
  | cellProperty
  | formatText
  | solveOrder
  | exponentDigits
  deriving DecidableEq

def Expectation.message : Expectation → String
  | keyword word => word
  | symbol s => String.ofList ['\'', s.char, '\'']
  | definition => "MEMBER or SET after WITH"
  | name => "name"
  | nameAfterDot => "name after '.'"
  | axisName => "axis name"
  | axisNumber => "axis number"
  | cellProperty => "cell property name"
  | formatText => "format string literal"
  | solveOrder => "integer solve order"
  | exponentDigits => "exponent digits"

/-- Where a token stands that cannot stand there. -/
inductive Place
  | inExpression
  | inQuotedExpression
  | afterExpression
  | afterStatement
  deriving DecidableEq

def Place.message : Place → String
  | inExpression => "in expression"
  | inQuotedExpression => "in quoted expression"
  | afterExpression => "after expression"
  | afterStatement => "after statement"

inductive SyntaxFault
  | unclosedComment
  | unclosedName
  | unclosedText
  | unclosedQuote
  | strayCharacter
  | numberTooLarge
  | expected (what : Expectation)
  | unexpected (place : Place)
  | emptyTuple
  | nestingTooDeep
  | unknownFunction
  | wrongArity (function : SetFunction) (given : Nat)
  | unknownMemberProperty
  | unknownAxisName
  | invalidAxisNumber
  | repeatedAxis
  | axisGap
  | compoundCubeName
  deriving DecidableEq

/-- How many arguments a function takes, in words. -/
def SetFunction.arityText (f : SetFunction) : String :=
  let least := toString f.leastArguments
  match f.mostArguments? with
  | some most =>
    if most = f.leastArguments then least else least ++ " to " ++ toString most
  | none => "at least " ++ least

def SyntaxFault.message : SyntaxFault → String
  | unclosedComment => "unterminated block comment"
  | unclosedName => "unterminated bracketed identifier"
  | unclosedText => "unterminated string"
  | unclosedQuote => "unterminated quoted expression"
  | strayCharacter => "unexpected character"
  | numberTooLarge => "invalid number"
  | expected what => "expected " ++ what.message
  | unexpected place => "unexpected token " ++ place.message
  | emptyTuple => "empty tuple"
  | nestingTooDeep => "expression nests deeper than " ++ toString nestingLimit ++ " levels"
  | unknownFunction => "unsupported function"
  | wrongArity f given =>
    f.name ++ " expects " ++ f.arityText ++ " arguments, got " ++ toString given
  | unknownMemberProperty => "unsupported calculated member property"
  | unknownAxisName => "unknown axis name"
  | invalidAxisNumber => "invalid axis number"
  | repeatedAxis => "axis specified more than once"
  | axisGap => "axes must be numbered contiguously from 0"
  | compoundCubeName => "cube name must be a single identifier"

/-- A fault, where it was found and what stands there. -/
structure SyntaxError where
  /-- Bytes of the query text before it. -/
  position : Nat
  token : String
  fault : SyntaxFault
  deriving DecidableEq

def SyntaxError.message (e : SyntaxError) : String :=
  "parse error at position " ++ toString e.position ++ " near " ++ Text.quoted e.token ++ ": " ++
    e.fault.message

end CubeQuery.Language
