import CubeQuery.Language.Printer
import CubeQuery.Language.Token
import CubeQuery.Proofs.Language.Readable

/-!
The tokens of the standard text, constructor by constructor as the text itself is put together.
-/

namespace CubeQuery.Language

open CubeQuery.Number

/-- Groups of tokens with commas between them. -/
def commaTokens (groups : List (List Token)) : List Token :=
  [Token.symbol .comma].intercalate groups

@[simp] theorem commaTokens_nil : commaTokens [] = [] := rfl

@[simp] theorem commaTokens_single (group : List Token) : commaTokens [group] = group := by
  simp [commaTokens, List.intercalate]

@[simp] theorem commaTokens_cons_cons (group next : List Token) (groups : List (List Token)) :
    commaTokens (group :: next :: groups) =
      group ++ .symbol .comma :: commaTokens (next :: groups) := by
  simp [commaTokens, List.intercalate]

/-- Bracketed names with dots between them. -/
def pathTokens : List String → List Token
  | [] => []
  | [name] => [.bracketed name]
  | name :: names => .bracketed name :: .symbol .dot :: pathTokens names

theorem pathTokens_cons_cons {name next : String} {names : List String} :
    pathTokens (name :: next :: names) =
      .bracketed name :: .symbol .dot :: pathTokens (next :: names) := rfl

theorem pathTokens_injective {names names' : List String}
    (h : pathTokens names = pathTokens names') : names = names' := by
  fun_induction pathTokens names generalizing names' with
  | case1 =>
    cases names' with
    | nil => rfl
    | cons name rest => cases rest <;> cases h
  | case2 name =>
    cases names' with
    | nil => cases h
    | cons name' rest =>
      cases rest <;> cases h
      rfl
  | case3 name rest hne ih =>
    cases names' with
    | nil => cases h
    | cons name' rest' =>
      cases rest' with
      | nil => cases h
      | cons next rest' =>
        simp only [pathTokens_cons_cons, List.cons.injEq, Token.bracketed.injEq] at h
        rw [h.1, ih h.2.2]

def Operator.token : Operator → Token
  | .add => .symbol .plus
  | .subtract => .symbol .minus
  | .multiply => .symbol .star
  | .divide => .symbol .slash

mutual

def Expr.tokens : Expr → List Token
  | .path p => pathTokens p.segments
  | .property p relative => pathTokens p.segments ++ [.symbol .dot, .word relative.name]
  | .set items => .symbol .openBrace :: (commaTokens (Expr.tokensAll items) ++
      [.symbol .closeBrace])
  | .tuple items => .symbol .openParen :: (commaTokens (Expr.tokensAll items) ++
      [.symbol .closeParen])
  | .call f arguments => .word f.name :: .symbol .openParen ::
      (commaTokens (Expr.tokensAll arguments) ++ [.symbol .closeParen])
  | .number x => [.number x]
  | .text s => [.text s]
  | .flag f => [.word f.name]
  | .negate e => .symbol .minus :: e.tokens
  | .binary op left right => .symbol .openParen ::
      (left.tokens ++ op.token :: (right.tokens ++ [.symbol .closeParen]))

def Expr.tokensAll : List Expr → List (List Token)
  | [] => []
  | e :: es => e.tokens :: Expr.tokensAll es

end

theorem Expr.tokensAll_eq (items : List Expr) : tokensAll items = items.map tokens := by
  induction items with
  | nil => rfl
  | cons e es ih => rw [tokensAll, ih, List.map_cons]

/-! ### Statements -/

/-- The number that digits without a point denote. -/
def wholeToken (n : Nat) : Token :=
  .number (Decimal.mk n 0).toFloat

def intTokens (n : Int) : List Token :=
  if n < 0 then [.symbol .minus, wholeToken n.natAbs] else [wholeToken n.natAbs]

def MemberSetting.tokens : MemberSetting → List Token
  | .format f => [.symbol .comma, .word "FORMAT_STRING", .symbol .equals, .text f]
  | .solveOrder n => .symbol .comma :: .word "SOLVE_ORDER" :: .symbol .equals :: intTokens n

/-- The settings that are written out. -/
def MemberDefinition.settings (d : MemberDefinition) : List MemberSetting :=
  d.format?.toList.map .format ++ if d.solveOrder = 0 then [] else [.solveOrder d.solveOrder]

def Definition.tokens : Definition → List Token
  | .member d => .word "MEMBER" :: (pathTokens d.path.segments ++ .word "AS" :: (d.expr.tokens ++
      d.settings.flatMap MemberSetting.tokens))
  | .set d => .word "SET" :: (pathTokens d.path.segments ++ .word "AS" :: d.expr.tokens)

/-- Bracketed names behind the words that announce them. -/
def nameTokens (words : List String) (names : List String) : List Token :=
  if names = [] then []
  else words.map Token.word ++ commaTokens (names.map fun name => [.bracketed name])

/-- The first five axes have names. -/
def axisTokens (n : Nat) : List Token :=
  if n < 5 then [.word (axisName n)]
  else [.word "AXIS", .symbol .openParen, wholeToken n, .symbol .closeParen]

def AxisClause.tokens (a : AxisClause) : List Token :=
  (if a.nonEmpty then [.word "NON", .word "EMPTY"] else []) ++ (a.set.tokens ++
    (nameTokens ["DIMENSION", "PROPERTIES"] a.properties ++ .word "ON" :: axisTokens a.index))

def slicerTokens : Option Expr → List Token
  | some e => .word "WHERE" :: e.tokens
  | none => []

def Statement.tokens (s : Statement) : List Token :=
  (if s.definitions = [] then [] else .word "WITH" :: s.definitions.flatMap Definition.tokens) ++
    .word "SELECT" :: (commaTokens (s.axes.map AxisClause.tokens) ++ .word "FROM" ::
      .bracketed s.cube :: (slicerTokens s.slicer? ++
        nameTokens ["CELL", "PROPERTIES"] s.cellProperties))

end CubeQuery.Language
