import CubeQuery.Language.Statement
import CubeQuery.Number.Plain

/-!
The standard text of expressions and statements. Every name is bracketed, every operation with two
operands stands in parentheses, and keywords are in capitals.
-/

namespace CubeQuery.Language

open CubeQuery.Number

/-- `s` with every `mark` written twice. -/
def doubled (mark : Char) (s : String) : List Char :=
  s.toList.flatMap fun c => if c = mark then [c, c] else [c]

/-- A name between brackets; a closing bracket inside it is doubled. -/
def bracketed (name : String) : String :=
  String.ofList ('[' :: doubled ']' name ++ [']'])

/-- Text between double quotes; a quote inside it is doubled. -/
def textLiteral (s : String) : String :=
  String.ofList ('"' :: doubled '"' s ++ ['"'])

def bracketedPath (segments : List String) : String :=
  ".".intercalate (segments.map bracketed)

def Path.render (p : Path) : String :=
  bracketedPath p.segments

def Operator.symbol : Operator → String
  | .add => "+"
  | .subtract => "-"
  | .multiply => "*"
  | .divide => "/"

mutual

def Expr.render : Expr → String
  | .path p => p.render
  | .property p relative => p.render ++ "." ++ relative.name
  | .set items => "\x7b" ++ ", ".intercalate (Expr.renderAll items) ++ "\x7d"
  | .tuple items => "(" ++ ", ".intercalate (Expr.renderAll items) ++ ")"
  | .call f arguments => f.name ++ "(" ++ ", ".intercalate (Expr.renderAll arguments) ++ ")"
  | .number x => shortestText x
  | .text s => textLiteral s
  | .flag f => f.name
  | .negate e => "-" ++ e.render
  | .binary op left right =>
    "(" ++ left.render ++ " " ++ op.symbol ++ " " ++ right.render ++ ")"

def Expr.renderAll : List Expr → List String
  | [] => []
  | e :: es => e.render :: Expr.renderAll es

end

/-- A whole number with its sign. -/
def renderInt (n : Int) : String :=
  signed (n < 0) (String.ofList (digitsOf n.natAbs))

def Definition.render : Definition → String
  | .member d =>
    let format := match d.format? with
      | some f => ", FORMAT_STRING = " ++ textLiteral f
      | none => ""
    let order := if d.solveOrder = 0 then "" else ", SOLVE_ORDER = " ++ renderInt d.solveOrder
    " MEMBER " ++ d.path.render ++ " AS " ++ d.expr.render ++ format ++ order
  | .set d => " SET " ++ d.path.render ++ " AS " ++ d.expr.render

/-- Property names are bracketed, so that any name reads back. -/
def renderNames (keyword : String) (names : List String) : String :=
  if names = [] then "" else keyword ++ ", ".intercalate (names.map bracketed)

def AxisClause.render (a : AxisClause) : String :=
  (if a.nonEmpty then "NON EMPTY " else "") ++ a.set.render ++
    renderNames " DIMENSION PROPERTIES " a.properties ++ " ON " ++ axisName a.index

def Statement.render (s : Statement) : String :=
  let definitions :=
    if s.definitions.isEmpty then ""
    else "WITH" ++ String.join (s.definitions.map Definition.render) ++ " "
  let axes := if s.axes.isEmpty then "" else " " ++ ", ".intercalate (s.axes.map AxisClause.render)
  let slicer := match s.slicer? with
    | some e => " WHERE " ++ e.render
    | none => ""
  definitions ++ "SELECT" ++ axes ++ " FROM " ++ bracketed s.cube ++ slicer ++
    renderNames " CELL PROPERTIES " s.cellProperties

end CubeQuery.Language
