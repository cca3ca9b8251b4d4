import CubeQuery.Language.Parser.Expr
import CubeQuery.Language.Printer

/-!
Reading whole statements.
-/

namespace CubeQuery.Language

open CubeQuery.Number CubeQuery.Text

/-! ### Definitions -/

/-- The body of a definition, plain or between single quotes. A quoted body is a text of its own
with its own nesting limit. -/
def definitionBody : Parser Expr := fun s =>
  match s.peek? with
  | some (.quoted text) => do
    let rest ← s.advance
    let inner ← (Lexemes.ofQuoted (s.position + 1) text).checked
    let (e, inner) ← expr inner
    if inner.atEnd then return (e, rest) else inner.fail (.unexpected .inQuotedExpression)
  | _ => expr s

/-- One of the settings after the formula of a calculated member. -/
inductive MemberSetting
  | format (s : String)
  | solveOrder (n : Int)

/-- Solve orders lie between these bounds, negative ones included. -/
def solveOrderLimit : Nat := Nat.pow 2 31 - 1

/-- A whole number that may serve as a solve order. -/
def solveOrder? (x : Float) : Option Int :=
  match smallWhole? x with
  | some (negative, n) =>
    if n ≤ solveOrderLimit then some (if negative then -(n : Int) else n) else none
  | none => none

def MemberDefinition.apply (d : MemberDefinition) : MemberSetting → MemberDefinition
  | .format s => { d with format? := some s }
  | .solveOrder n => { d with solveOrder := n }

/-- A comma and a setting. The token in place of a format text is dropped before it is judged. -/
def memberSetting : Parser MemberSetting := fun s => do
  let s ← s.advance
  if s.atKeyword "FORMAT_STRING" then
    let s ← s.advance
    let s ← s.expect .equals
    let rest ← s.advance
    match s.peek? with
    | some (.text t) | some (.quoted t) => return (.format t, rest)
    | _ => rest.fail (.expected .formatText)
  else if s.atKeyword "SOLVE_ORDER" then
    let s ← s.advance
    let s ← s.expect .equals
    let negative := s.startsWith .minus
    let s ← if negative then s.advance else pure s
    match s.peek? with
    | some (.number x) =>
      match solveOrder? x with
      | some n => do
        let s ← s.advance
        return (.solveOrder (if negative then -n else n), s)
      | none => s.fail (.expected .solveOrder)
    | _ => s.fail (.expected .solveOrder)
  else s.fail .unknownMemberProperty

def atDefinition (s : Lexemes) : Bool :=
  s.atKeyword "MEMBER" || s.atKeyword "SET"

def definition : Parser Definition := fun s => do
  let isMember := s.atKeyword "MEMBER"
  let s ← s.advance
  let (path, s) ← path s
  let s ← s.expectKeyword "AS"
  let (body, s) ← definitionBody s
  if isMember then
    let (settings, s) ← repeated (·.startsWith .comma) memberSetting s
    return (.member (settings.foldl MemberDefinition.apply ⟨path, body, none, 0⟩), s)
  else return (.set ⟨path, body⟩, s)

def definitions : Parser (List Definition) := fun s => do
  if s.atKeyword "WITH" then
    let s ← s.advance
    let (ds, s) ← repeated atDefinition definition s
    if ds.isEmpty then s.fail (.expected .definition) else return (ds, s)
  else return ([], s)

/-! ### Axes -/

/-- Axis numbers stay below this. -/
def axisLimit : Nat := 128

def axisNumber? (x : Float) : Option Nat :=
  match smallWhole? x with
  | some (negative, n) => if n < axisLimit ∧ (negative = false ∨ n = 0) then some n else none
  | none => none

/-- The index of an axis that is given by its name. -/
def namedAxis? (name : String) : Option Nat :=
  (List.range 5).find? fun n => sameName name (axisName n)

def axisNumber (what : Expectation) : Parser Nat := fun s =>
  match s.peek? with
  | some (.number x) =>
    match axisNumber? x with
    | some n => do
      let s ← s.advance
      return (n, s)
    | none => s.fail .invalidAxisNumber
  | _ => s.fail (.expected what)

/-- The index of an axis: a name, a number, or a number in `AXIS(n)`. -/
def axisIndex : Parser Nat := fun s =>
  match s.peek? with
  | some (.word name) =>
    match namedAxis? name with
    | some n => do
      let s ← s.advance
      return (n, s)
    | none =>
      if sameName name "AXIS" then do
        let s ← s.advance
        let s ← s.expect .openParen
        let (n, s) ← axisNumber .axisNumber s
        let s ← s.expect .closeParen
        return (n, s)
      else s.fail .unknownAxisName
  | _ => axisNumber .axisName s

/-- A property name; a path of several names is kept in its standard text. -/
def dimensionProperty : Parser String := fun s => do
  let (path, s) ← path s
  match path.segments with
  | [name] => return (name, s)
  | _ => return (path.render, s)

def axisClause : Parser AxisClause := fun s => do
  let nonEmpty := s.atKeyword "NON"
  let s ← if nonEmpty then do (← s.advance).expectKeyword "EMPTY" else pure s
  let (set, s) ← expr s
  let (properties, s) ←
    if s.atKeyword "DIMENSION" then do
      let s ← (← s.advance).expectKeyword "PROPERTIES"
      separated dimensionProperty s
    else pure ([], s)
  let s ← s.expectKeyword "ON"
  let (index, s) ← axisIndex s
  return (⟨index, nonEmpty, set, properties⟩, s)

/-- An axis with the position at which it starts. -/
def placedAxis : Parser (Nat × AxisClause) := fun s => do
  let (axis, s₁) ← axisClause s
  return ((s.position, axis), s₁)

def axes : Parser (List (Nat × AxisClause)) := fun s =>
  if s.atKeyword "FROM" then .ok ([], s) else separated placedAxis s

/-- Every axis must have an index below their number that no earlier axis has. -/
def checkAxes (count : Nat) : (seen : List Nat) → List (Nat × AxisClause) → Except SyntaxError Unit
  | _, [] => .ok ()
  | seen, (position, axis) :: rest =>
    if count ≤ axis.index then .error ⟨position, axisName axis.index, .axisGap⟩
    else if axis.index ∈ seen then .error ⟨position, axisName axis.index, .repeatedAxis⟩
    else checkAxes count (axis.index :: seen) rest

/-- The axes in the order of their indices. -/
def orderAxes (axes : List (Nat × AxisClause)) : List AxisClause :=
  (axes.map (·.2)).mergeSort (·.index ≤ ·.index)

/-! ### Statements -/

def cubeName : Parser String := fun s => do
  let (path, s₁) ← path s
  match path.segments with
  | [name] => return (name, s₁)
  | _ => .error ⟨s.position, "FROM", .compoundCubeName⟩

def slicer : Parser (Option Expr) := fun s => do
  if s.atKeyword "WHERE" then
    let s ← s.advance
    let (e, s) ← expr s
    return (some e, s)
  else return (none, s)

/-- The name of a cell property. A token in its place is dropped before it is judged. -/
def cellProperty : Parser String := fun s => do
  let rest ← s.advance
  match s.peek?.bind Token.name? with
  | some name => return (name, rest)
  | none => rest.fail (.expected .cellProperty)

def cellProperties : Parser (List String) := fun s => do
  if s.atKeyword "CELL" then
    let s ← (← s.advance).expectKeyword "PROPERTIES"
    separated cellProperty s
  else return ([], s)

def statement : Parser Statement := fun s => do
  let (definitions, s) ← definitions s
  let s ← s.expectKeyword "SELECT"
  let (placed, s) ← axes s
  let s ← s.expectKeyword "FROM"
  let (cube, s) ← cubeName s
  let (slicer?, s) ← slicer s
  let (cellProperties, s) ← cellProperties s
  let s ← if s.startsWith .semicolon then s.advance else pure s
  if s.atEnd then
    checkAxes placed.length [] placed
    return (⟨definitions, orderAxes placed, cube, slicer?, cellProperties⟩, s)
  else s.fail (.unexpected .afterStatement)

/-- Reads a whole query. -/
def Statement.ofText (text : String) : Except SyntaxError Statement := do
  let s ← (Lexemes.ofQuery text).checked
  let (statement, _) ← statement s
  return statement

end CubeQuery.Language
