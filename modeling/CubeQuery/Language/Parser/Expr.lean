import CubeQuery.Language.Parser.Basic

/-!
Reading expressions. Products group before sums, equal operators from the left, and a negation
covers only its own operand. The nesting of braces, parentheses, calls and operators is limited, so
that the recursion runs over the levels that are left.
-/

namespace CubeQuery.Language

/-- What follows the first name of a path: further names, and a property if the last word is one.
A property name with a dot after it is a name like any other. -/
def pathTail : Parser (List String × Option Property)
  | .cons l (.cons next rest) =>
    if l.token = .symbol .dot then
      match rest with
      | .broken e => .error e
      | rest =>
        match next.token with
        | .bracketed name => do
          let ((names, property?), s) ← pathTail rest
          return ((name :: names, property?), s)
        | .word name =>
          match if rest.startsWith .dot then none else Property.ofName? name with
          | some property => return (([], some property), rest)
          | none => do
            let ((names, property?), s) ← pathTail rest
            return ((name :: names, property?), s)
        | _ => rest.fail (.expected .nameAfterDot)
    else return (([], none), .cons l (.cons next rest))
  | .cons l (.broken e) =>
    if l.token = .symbol .dot then .error e else return (([], none), .cons l (.broken e))
  | .cons l (.finish p) =>
    if l.token = .symbol .dot then (Lexemes.finish p).fail (.expected .nameAfterDot)
    else return (([], none), .cons l (.finish p))
  | s => return (([], none), s)

/-- The items before a closing symbol, possibly none. -/
def items (expr : Parser Expr) (close : Symbol) (s : Lexemes) :
    Except SyntaxError (List Expr × Lexemes) :=
  if s.startsWith close then .ok ([], s) else separated expr s

/-- A call, its function name already read at the given position. -/
def call (expr : Parser Expr) (name : String) (position : Nat) : Parser Expr := fun s =>
  match SetFunction.ofName? name with
  | none => .error ⟨position, name, .unknownFunction⟩
  | some f => do
    let s ← s.expect .openParen
    let (arguments, s) ← items expr .closeParen s
    let s ← s.expect .closeParen
    if f.accepts arguments.length then return (.call f arguments, s)
    else .error ⟨position, name, .wrongArity f arguments.length⟩

/-- What a name with or without brackets begins: a call, a flag, or a path with or without a
property. `s` is what follows the name. -/
def named (expr : Parser Expr) (name : String) (bare : Bool) (position : Nat) : Parser Expr :=
  fun s =>
    if bare && s.startsWith .openParen then call expr name position s
    else
      match if bare && !s.startsWith .dot then Flag.ofName? name else none with
      | some flag => return (.flag flag, s)
      | none => do
        let ((names, property?), s) ← pathTail s
        let path : Path := ⟨name :: names, position⟩
        match property? with
        | some property => return (.property path property, s)
        | none => return (.path path, s)

/-- An operand. `expr` reads an expression one level further in, with operators of at least the
given precedence. -/
def operand (expr : Nat → Parser Expr) : Parser Expr := fun s =>
  match s.peek? with
  | some (.symbol .minus) => do
    let s ← s.advance
    let (e, s) ← expr 3 s
    return (.negate e, s)
  | some (.number x) => do
    let s ← s.advance
    return (.number x, s)
  | some (.text t) => do
    let s ← s.advance
    return (.text t, s)
  | some (.symbol .openBrace) => do
    let s ← s.advance
    let (es, s) ← items (expr 0) .closeBrace s
    let s ← s.expect .closeBrace
    return (.set es, s)
  | some (.symbol .openParen) => do
    let s ← s.advance
    if s.startsWith .closeParen then s.fail .emptyTuple
    else
      let (es, s) ← items (expr 0) .closeParen s
      let s ← s.expect .closeParen
      match es with
      | [e] => return (e, s)
      | es => return (.tuple es, s)
  | some (.word name) => do
    let rest ← s.advance
    named (expr 0) name true s.position rest
  | some (.bracketed name) => do
    let rest ← s.advance
    named (expr 0) name false s.position rest
  | _ => s.fail (.unexpected .inExpression)

/-- The operator that the next token is. -/
def Lexemes.operator? (s : Lexemes) : Option Operator :=
  match s.peek? with
  | some (.symbol .plus) => some .add
  | some (.symbol .minus) => some .subtract
  | some (.symbol .star) => some .multiply
  | some (.symbol .slash) => some .divide
  | _ => none

/-- Goes on from a left operand for as long as operators of at least the given precedence follow.
A right operand that takes no token would end the chain. -/
def chain (expr : Nat → Parser Expr) (least : Nat) (left : Expr) (s : Lexemes) :
    Except SyntaxError (Expr × Lexemes) := do
  match s.operator? with
  | none => return (left, s)
  | some op =>
    if op.precedence < least then return (left, s)
    else
      let s₁ ← s.advance
      let (right, s₂) ← expr (op.precedence + 1) s₁
      if s₂.size < s.size then chain expr least (.binary op left right) s₂
      else return (.binary op left right, s₂)
termination_by s.size

/-- An expression that may nest the given number of levels, with operators of at least the given
precedence. -/
def exprWithin : (levels least : Nat) → Parser Expr
  | 0, _ => fun s => s.fail .nestingTooDeep
  | levels + 1, least => fun s => do
    let (left, s) ← operand (exprWithin levels) s
    chain (exprWithin levels) least left s

def expr : Parser Expr :=
  exprWithin nestingLimit 0

/-- Reads a whole text as one expression. -/
def Expr.ofText (text : String) : Except SyntaxError Expr := do
  let s ← (Lexemes.ofQuery text).checked
  let (e, s) ← expr s
  if s.atEnd then return e else s.fail (.unexpected .afterExpression)

end CubeQuery.Language
