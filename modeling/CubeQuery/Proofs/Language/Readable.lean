import CubeQuery.Language.Parser.Statement
import CubeQuery.Proofs.Number.Bits

/-!
Expressions and statements apart from the places they were read at, how deep their standard text
nests, and what is true of all that were read from text.
-/

namespace CubeQuery.Language

open CubeQuery.Number

variable {items : List Expr}

def Path.unplaced (p : Path) : Path :=
  { p with position := 0 }

namespace Expr

mutual

/-- The expression with every position forgotten. -/
def unplaced : Expr → Expr
  | .path p => .path p.unplaced
  | .property p relative => .property p.unplaced relative
  | .set items => .set (unplacedAll items)
  | .tuple items => .tuple (unplacedAll items)
  | .call f arguments => .call f (unplacedAll arguments)
  | .number x => .number x
  | .text s => .text s
  | .flag f => .flag f
  | .negate e => .negate e.unplaced
  | .binary op left right => .binary op left.unplaced right.unplaced

def unplacedAll : List Expr → List Expr
  | [] => []
  | e :: es => e.unplaced :: unplacedAll es

end

theorem unplacedAll_eq (items : List Expr) : unplacedAll items = items.map unplaced := by
  induction items with
  | nil => rfl
  | cons e es ih => rw [unplacedAll, ih, List.map_cons]

mutual

/-- How many levels the standard text of an expression takes. The parentheses around an operation
are one level, and the right operand lies one further in. -/
def depth : Expr → Nat
  | .path _ | .property _ _ | .number _ | .text _ | .flag _ => 1
  | .set items | .tuple items | .call _ items => 1 + depthAll items
  | .negate e => 1 + e.depth
  | .binary _ left right => max (1 + left.depth) (2 + right.depth)

/-- The greatest depth in a list, 0 if it is empty. -/
def depthAll : List Expr → Nat
  | [] => 0
  | e :: es => max e.depth (depthAll es)

end

theorem depthAll_le_iff {n : Nat} : depthAll items ≤ n ↔ ∀ e ∈ items, e.depth ≤ n := by
  induction items with
  | nil => simp [depthAll]
  | cons e es ih => rw [depthAll, Nat.max_le, ih, List.forall_mem_cons]

mutual

/-- How many levels an expression has, if the operands of an operation lie so much further in. -/
def levelsBy (left right : Nat) : Expr → Nat
  | .path _ | .property _ _ | .number _ | .text _ | .flag _ => 1
  | .set items | .tuple items | .call _ items => 1 + levelsByAll left right items
  | .negate e => 1 + e.levelsBy left right
  | .binary _ l r => max (left + l.levelsBy left right) (right + r.levelsBy left right)

/-- The greatest number of levels in a list, 0 if it is empty. -/
def levelsByAll (left right : Nat) : List Expr → Nat
  | [] => 0
  | e :: es => max (e.levelsBy left right) (levelsByAll left right es)

end

theorem levelsByAll_le_iff {left right n : Nat} :
    levelsByAll left right items ≤ n ↔ ∀ e ∈ items, e.levelsBy left right ≤ n := by
  induction items with
  | nil => simp [levelsByAll]
  | cons e es ih => rw [levelsByAll, Nat.max_le, ih, List.forall_mem_cons]

/-- The height of the tree. -/
def height (e : Expr) : Nat :=
  e.levelsBy 1 1

theorem height_pos (e : Expr) : 0 < e.height := by
  cases e <;> rw [height, levelsBy] <;> omega

/-- How many levels reading takes at least. An operator is found behind its left operand, and so on
the same level. -/
def nesting (e : Expr) : Nat :=
  e.levelsBy 0 1

def isNegation : Expr → Bool
  | .negate _ => true
  | _ => false

mutual

/-- No negation is applied directly to a negation: two minus signs in a row start a comment. -/
def NegatesOnce : Expr → Prop
  | .path _ | .property _ _ | .number _ | .text _ | .flag _ => True
  | .set items | .tuple items | .call _ items => NegatesOnceAll items
  | .negate e => e.isNegation = false ∧ e.NegatesOnce
  | .binary _ left right => left.NegatesOnce ∧ right.NegatesOnce

def NegatesOnceAll : List Expr → Prop
  | [] => True
  | e :: es => e.NegatesOnce ∧ NegatesOnceAll es

end

theorem negatesOnceAll_iff : NegatesOnceAll items ↔ ∀ e ∈ items, e.NegatesOnce := by
  induction items with
  | nil => simp [NegatesOnceAll]
  | cons e es ih => rw [NegatesOnceAll, ih, List.forall_mem_cons]

/-! Positions have no part in either. -/

mutual

theorem depth_unplaced : ∀ e : Expr, e.unplaced.depth = e.depth
  | .path _ | .property _ _ | .number _ | .text _ | .flag _ => rfl
  | .set items => by rw [unplaced, depth, depth, depthAll_unplacedAll items]
  | .tuple items => by rw [unplaced, depth, depth, depthAll_unplacedAll items]
  | .call f arguments => by rw [unplaced, depth, depth, depthAll_unplacedAll arguments]
  | .negate e => by rw [unplaced, depth, depth, depth_unplaced e]
  | .binary op left right => by
    rw [unplaced, depth, depth, depth_unplaced left, depth_unplaced right]

theorem depthAll_unplacedAll : ∀ items : List Expr, depthAll (unplacedAll items) = depthAll items
  | [] => rfl
  | e :: es => by rw [unplacedAll, depthAll, depthAll, depth_unplaced e, depthAll_unplacedAll es]

end

theorem isNegation_unplaced (e : Expr) : e.unplaced.isNegation = e.isNegation := by
  cases e <;> rfl

mutual

theorem negatesOnce_unplaced : ∀ e : Expr, e.unplaced.NegatesOnce ↔ e.NegatesOnce
  | .path _ | .property _ _ | .number _ | .text _ | .flag _ => Iff.rfl
  | .set items => by rw [unplaced, NegatesOnce, NegatesOnce, negatesOnceAll_unplacedAll items]
  | .tuple items => by rw [unplaced, NegatesOnce, NegatesOnce, negatesOnceAll_unplacedAll items]
  | .call f arguments => by
    rw [unplaced, NegatesOnce, NegatesOnce, negatesOnceAll_unplacedAll arguments]
  | .negate e => by
    rw [unplaced, NegatesOnce, NegatesOnce, isNegation_unplaced, negatesOnce_unplaced e]
  | .binary op left right => by
    rw [unplaced, NegatesOnce, NegatesOnce, negatesOnce_unplaced left, negatesOnce_unplaced right]

theorem negatesOnceAll_unplacedAll :
    ∀ items : List Expr, NegatesOnceAll (unplacedAll items) ↔ NegatesOnceAll items
  | [] => Iff.rfl
  | e :: es => by
    rw [unplacedAll, NegatesOnceAll, NegatesOnceAll, negatesOnce_unplaced e,
      negatesOnceAll_unplacedAll es]

end

/-- What every expression satisfies that was read from text: a path has a name, one expression in
parentheses is no tuple, a call has as many arguments as its function takes, and numbers have no
sign. -/
inductive Readable : Expr → Prop
  | path {p : Path} (hsegments : p.segments ≠ []) : Readable (.path p)
  | property {p : Path} (hsegments : p.segments ≠ []) (relative : Property) :
      Readable (.property p relative)
  | set {items : List Expr} (hitems : ∀ e ∈ items, Readable e) : Readable (.set items)
  | tuple {items : List Expr} (hlength : 2 ≤ items.length) (hitems : ∀ e ∈ items, Readable e) :
      Readable (.tuple items)
  | call {f : SetFunction} {arguments : List Expr} (harity : f.accepts arguments.length = true)
      (harguments : ∀ e ∈ arguments, Readable e) : Readable (.call f arguments)
  | number {x : Float} (hx : Unsigned x) : Readable (.number x)
  | text (s : String) : Readable (.text s)
  | flag (f : Flag) : Readable (.flag f)
  | negate {e : Expr} (he : Readable e) : Readable (.negate e)
  | binary (op : Operator) {left right : Expr} (hleft : Readable left) (hright : Readable right) :
      Readable (.binary op left right)

/-- Readable, and read within so many levels. -/
structure ReadableWithin (levels : Nat) (e : Expr) : Prop where
  readable : e.Readable
  nesting : e.nesting ≤ levels

namespace ReadableWithin

variable {levels : Nat}

theorem mono {levels' : Nat} {e : Expr} (h : e.ReadableWithin levels) (hle : levels ≤ levels') :
    e.ReadableWithin levels' :=
  ⟨h.readable, h.nesting.trans hle⟩

theorem leaf {e : Expr} (he : e.Readable) (hone : e.nesting = 1) :
    e.ReadableWithin (levels + 1) :=
  ⟨he, hone.trans_le (Nat.le_add_left 1 levels)⟩

theorem items_le (h : ∀ e ∈ items, e.ReadableWithin levels) :
    1 + levelsByAll 0 1 items ≤ levels + 1 := by
  rw [Nat.add_comm 1]
  exact Nat.succ_le_succ (levelsByAll_le_iff.2 fun e he => (h e he).nesting)

theorem set (h : ∀ e ∈ items, e.ReadableWithin levels) :
    (Expr.set items).ReadableWithin (levels + 1) :=
  ⟨.set fun e he => (h e he).readable, items_le h⟩

theorem tuple (hlength : 2 ≤ items.length) (h : ∀ e ∈ items, e.ReadableWithin levels) :
    (Expr.tuple items).ReadableWithin (levels + 1) :=
  ⟨.tuple hlength fun e he => (h e he).readable, items_le h⟩

theorem call {f : SetFunction} (harity : f.accepts items.length = true)
    (h : ∀ e ∈ items, e.ReadableWithin levels) : (Expr.call f items).ReadableWithin (levels + 1) :=
  ⟨.call harity fun e he => (h e he).readable, items_le h⟩

theorem negate {e : Expr} (h : e.ReadableWithin levels) :
    (Expr.negate e).ReadableWithin (levels + 1) := by
  refine ⟨.negate h.readable, ?_⟩
  rw [Expr.nesting, levelsBy, Nat.add_comm 1]
  exact Nat.succ_le_succ h.nesting

theorem binary {left right : Expr} (op : Operator) (hleft : left.ReadableWithin (levels + 1))
    (hright : right.ReadableWithin levels) :
    (Expr.binary op left right).ReadableWithin (levels + 1) := by
  refine ⟨.binary op hleft.readable hright.readable, ?_⟩
  rw [Expr.nesting, levelsBy, Nat.zero_add, Nat.add_comm 1]
  exact Nat.max_le.2 ⟨hleft.nesting, Nat.succ_le_succ hright.nesting⟩

end ReadableWithin

end Expr

/-! ### Statements -/

namespace Definition

def path : Definition → Path
  | .member d => d.path
  | .set d => d.path

def expr : Definition → Expr
  | .member d => d.expr
  | .set d => d.expr

def unplaced : Definition → Definition
  | .member d => .member { d with path := d.path.unplaced, expr := d.expr.unplaced }
  | .set d => .set ⟨d.path.unplaced, d.expr.unplaced⟩

/-- The solve order of a calculated member; a named set has none. -/
def order : Definition → Int
  | .member d => d.solveOrder
  | .set _ => 0

structure Readable (d : Definition) : Prop where
  segments : d.path.segments ≠ []
  expr : d.expr.Readable
  order : d.order.natAbs ≤ solveOrderLimit

end Definition

def AxisClause.unplaced (a : AxisClause) : AxisClause :=
  { a with set := a.set.unplaced }

namespace Statement

/-- The expressions of a statement: of its definitions, of its axes and of its slicer. -/
def exprs (s : Statement) : List Expr :=
  s.definitions.map Definition.expr ++ (s.axes.map AxisClause.set ++ s.slicer?.toList)

def unplaced (s : Statement) : Statement :=
  { s with
    definitions := s.definitions.map Definition.unplaced
    axes := s.axes.map AxisClause.unplaced
    slicer? := s.slicer?.map Expr.unplaced }

/-- What every statement satisfies that was read from text. -/
structure Readable (s : Statement) : Prop where
  definitions : ∀ d ∈ s.definitions, d.Readable
  axes : ∀ a ∈ s.axes, a.set.Readable
  indices : s.axes.map AxisClause.index = List.range s.axes.length
  count : s.axes.length ≤ axisLimit
  slicer : ∀ e ∈ s.slicer?, e.Readable

theorem exprs_unplaced (s : Statement) : s.unplaced.exprs = s.exprs.map Expr.unplaced := by
  have hdefinition : Definition.expr ∘ Definition.unplaced = Expr.unplaced ∘ Definition.expr := by
    funext d
    cases d <;> rfl
  rw [exprs, exprs, unplaced, List.map_append, List.map_append, List.map_map, List.map_map,
    List.map_map, List.map_map, hdefinition]
  cases s.slicer? <;> rfl

theorem Readable.index_lt {s : Statement} (hs : s.Readable) {a : AxisClause} (ha : a ∈ s.axes) :
    a.index < axisLimit := by
  have hindex : a.index ∈ List.range s.axes.length := by
    rw [← hs.indices]
    exact List.mem_map_of_mem ha
  exact Nat.lt_of_lt_of_le (List.mem_range.1 hindex) hs.count

end Statement

end CubeQuery.Language
