import CubeQuery.Proofs.Language.Reading
import CubeQuery.Language.Parser.Statement

/-!
Sentences as rows of lexemes, rule by rule. A path takes its place from its first lexeme. The rules
leave open how operators group, how deep expressions nest, how many arguments a function takes and
how axes are numbered: a sentence may fail in these respects when all of it has been read.
-/

namespace CubeQuery.Language

open CubeQuery.Text

/-- A sequence that begins with the given lexemes. -/
def Lexemes.prepend (ls : List Lexeme) (rest : Lexemes) : Lexemes :=
  ls.foldr .cons rest

namespace Lexemes

theorem prepend_append (ls us : List Lexeme) (rest : Lexemes) :
    prepend (ls ++ us) rest = prepend ls (prepend us rest) := by
  rw [prepend, List.foldr_append]
  rfl

theorem size_prepend (ls : List Lexeme) (rest : Lexemes) :
    (prepend ls rest).size = ls.length + rest.size := by
  induction ls with
  | nil => exact (Nat.zero_add _).symm
  | cons l ls ih =>
    show (prepend ls rest).size + 1 = ls.length + 1 + rest.size
    rw [ih]
    omega

end Lexemes

namespace Lexeme

/-- The keyword, in any case; brackets make a name of any word. -/
def IsWord (l : Lexeme) (word : String) : Prop :=
  ∃ w, l.token = .word w ∧ sameName w word = true

def IsSymbol (l : Lexeme) (x : Symbol) : Prop :=
  l.token = .symbol x

end Lexeme

/-- Groups of lexemes with commas between them. -/
inductive Joined : List Lexeme → List (List Lexeme) → Prop
  | nil : Joined [] []
  | single (ls : List Lexeme) : Joined ls [ls]
  | cons {comma : Lexeme} {ls us next : List Lexeme} {groups : List (List Lexeme)}
      (hcomma : comma.IsSymbol .comma) (h : Joined us (next :: groups)) :
      Joined (ls ++ comma :: us) (ls :: next :: groups)

/-- Things of a form with commas between them. -/
def Listed (form : List Lexeme → α → Prop) (ls : List Lexeme) (as : List α) : Prop :=
  ∃ items : List (List Lexeme × α), Joined ls (items.map Prod.fst) ∧ as = items.map Prod.snd ∧
    ∀ p ∈ items, form p.1 p.2

/-- Names with dots between them. -/
inductive Names : List Lexeme → List String → Prop
  | single {l : Lexeme} {name : String} (hl : l.token.name? = some name) : Names [l] [name]
  | cons {l dot : Lexeme} {ls : List Lexeme} {name : String} {names : List String}
      (hl : l.token.name? = some name) (hdot : dot.IsSymbol .dot) (h : Names ls names) :
      Names (l :: dot :: ls) (name :: names)

structure Path.Written (ls : List Lexeme) (p : Path) : Prop where
  names : Names ls p.segments
  position : ls.head?.map Lexeme.start = some p.position

/-! ### Expressions -/

namespace Expr

inductive Written : List Lexeme → Expr → Prop
  | number {l : Lexeme} {x : Float} (hl : l.token = .number x) : Written [l] (.number x)
  | text {l : Lexeme} {s : String} (hl : l.token = .text s) : Written [l] (.text s)
  | flag {l : Lexeme} {w : String} {f : Flag} (hl : l.token = .word w)
      (hw : Flag.ofName? w = some f) : Written [l] (.flag f)
  | named {l : Lexeme} {ls : List Lexeme} {name : String} {names : List String}
      {property? : Option Property} (hl : l.token.name? = some name)
      (halone : ls = [] → ∀ w, l.token = .word w → Flag.ofName? w = none)
      (htail : PathTail (ls.map Lexeme.token) names property?) :
      Written (l :: ls) (property?.elim (.path ⟨name :: names, l.start⟩)
        (.property ⟨name :: names, l.start⟩))
  | negate {l : Lexeme} {ls : List Lexeme} {e : Expr} (hl : l.IsSymbol .minus)
      (h : Written ls e) : Written (l :: ls) (.negate e)
  | grouped {first last : Lexeme} {ls : List Lexeme} {e : Expr} (hfirst : first.IsSymbol .openParen)
      (h : Written ls e) (hlast : last.IsSymbol .closeParen) : Written (first :: (ls ++ [last])) e
  | set {first last : Lexeme} {ls : List Lexeme} {items : List (List Lexeme × Expr)}
      (hfirst : first.IsSymbol .openBrace) (hjoined : Joined ls (items.map Prod.fst))
      (hitems : ∀ p ∈ items, Written p.1 p.2) (hlast : last.IsSymbol .closeBrace) :
      Written (first :: (ls ++ [last])) (.set (items.map Prod.snd))
  | tuple {first last : Lexeme} {ls : List Lexeme} {items : List (List Lexeme × Expr)}
      (hfirst : first.IsSymbol .openParen) (hlength : 2 ≤ items.length)
      (hjoined : Joined ls (items.map Prod.fst)) (hitems : ∀ p ∈ items, Written p.1 p.2)
      (hlast : last.IsSymbol .closeParen) :
      Written (first :: (ls ++ [last])) (.tuple (items.map Prod.snd))
  | call {l first last : Lexeme} {w : String} {f : SetFunction} {ls : List Lexeme}
      {items : List (List Lexeme × Expr)} (hl : l.token = .word w)
      (hw : SetFunction.ofName? w = some f) (hfirst : first.IsSymbol .openParen)
      (hjoined : Joined ls (items.map Prod.fst)) (hitems : ∀ p ∈ items, Written p.1 p.2)
      (hlast : last.IsSymbol .closeParen) :
      Written (l :: first :: (ls ++ [last])) (.call f (items.map Prod.snd))
  | binary {l : Lexeme} {op : Operator} {ls us : List Lexeme} {left right : Expr}
      (hleft : Written ls left) (hl : l.token = op.token) (hright : Written us right) :
      Written (ls ++ l :: us) (.binary op left right)

theorem Written.ne_nil {ls : List Lexeme} {e : Expr} (h : Written ls e) : ls ≠ [] := by
  cases h <;> simp

/-- The body of a definition. Between single quotes it is a text of its own, which stands in the
query one character further on than its quote. -/
inductive WrittenBody : List Lexeme → Expr → Prop
  | plain {ls : List Lexeme} {e : Expr} (h : Written ls e) : WrittenBody ls e
  | quoted {l : Lexeme} {text : String} {inner : List Lexeme} {position : Nat} {e : Expr}
      (hl : l.token = .quoted text)
      (hinner : Lexemes.ofQuoted (l.start + 1) text = .prepend inner (.finish position))
      (h : Written inner e) : WrittenBody [l] e

end Expr

/-! ### Definitions -/

inductive MemberSetting.Written : List Lexeme → MemberSetting → Prop
  | format {comma word equals l : Lexeme} {s : String} (hcomma : comma.IsSymbol .comma)
      (hword : word.IsWord "FORMAT_STRING") (hequals : equals.IsSymbol .equals)
      (hl : l.token = .text s ∨ l.token = .quoted s) : Written [comma, word, equals, l] (.format s)
  | solveOrder {comma word equals l : Lexeme} {x : Float} {n : Int}
      (hcomma : comma.IsSymbol .comma) (hword : word.IsWord "SOLVE_ORDER")
      (hequals : equals.IsSymbol .equals) (hl : l.token = .number x)
      (hn : solveOrder? x = some n) : Written [comma, word, equals, l] (.solveOrder n)
  | negativeOrder {comma word equals minus l : Lexeme} {x : Float} {n : Int}
      (hcomma : comma.IsSymbol .comma) (hword : word.IsWord "SOLVE_ORDER")
      (hequals : equals.IsSymbol .equals) (hminus : minus.IsSymbol .minus)
      (hl : l.token = .number x) (hn : solveOrder? x = some n) :
      Written [comma, word, equals, minus, l] (.solveOrder (-n))

/-- Things of a form in a row. -/
def Sequence (form : List Lexeme → α → Prop) (ls : List Lexeme) (as : List α) : Prop :=
  ∃ items : List (List Lexeme × α), ls = (items.map Prod.fst).flatten ∧ as = items.map Prod.snd ∧
    ∀ p ∈ items, form p.1 p.2

inductive Definition.Written : List Lexeme → Definition → Prop
  | member {word as : Lexeme} {path body more : List Lexeme} {p : Path} {e : Expr}
      {settings : List MemberSetting} (hword : word.IsWord "MEMBER") (hpath : p.Written path)
      (has : as.IsWord "AS") (hbody : e.WrittenBody body)
      (hsettings : Sequence MemberSetting.Written more settings) :
      Written (word :: (path ++ as :: (body ++ more)))
        (.member (settings.foldl MemberDefinition.apply ⟨p, e, none, 0⟩))
  | set {word as : Lexeme} {path body : List Lexeme} {p : Path} {e : Expr}
      (hword : word.IsWord "SET") (hpath : p.Written path) (has : as.IsWord "AS")
      (hbody : e.WrittenBody body) : Written (word :: (path ++ as :: body)) (.set ⟨p, e⟩)

inductive DefinitionsWritten : List Lexeme → List Definition → Prop
  | none : DefinitionsWritten [] []
  | some {word : Lexeme} {ls : List Lexeme} {ds : List Definition} (hword : word.IsWord "WITH")
      (hds : ds ≠ []) (h : Sequence Definition.Written ls ds) : DefinitionsWritten (word :: ls) ds

/-! ### Axes -/

def NumberWritten (ls : List Lexeme) (n : Nat) : Prop :=
  ∃ l x, ls = [l] ∧ l.token = .number x ∧ axisNumber? x = some n

/-- The index of an axis. -/
inductive IndexWritten : List Lexeme → Nat → Prop
  | name {l : Lexeme} {w : String} {n : Nat} (hl : l.token = .word w)
      (hw : namedAxis? w = some n) : IndexWritten [l] n
  | number {ls : List Lexeme} {n : Nat} (h : NumberWritten ls n) : IndexWritten ls n
  | axis {word first last : Lexeme} {ls : List Lexeme} {n : Nat} (hword : word.IsWord "AXIS")
      (hfirst : first.IsSymbol .openParen) (h : NumberWritten ls n)
      (hlast : last.IsSymbol .closeParen) : IndexWritten (word :: first :: (ls ++ [last])) n

/-- The name of a member property; a path of several names is kept in its standard text. -/
def Path.propertyName (p : Path) : String :=
  match p.segments with
  | [name] => name
  | _ => p.render

def PropertyWritten (ls : List Lexeme) (name : String) : Prop :=
  ∃ p : Path, p.Written ls ∧ p.propertyName = name

/-- Names behind two words that announce them, or neither. -/
inductive NamesWritten (first second : String) (form : List Lexeme → String → Prop) :
    List Lexeme → List String → Prop
  | none : NamesWritten first second form [] []
  | some {l next : Lexeme} {ls : List Lexeme} {names : List String} (hl : l.IsWord first)
      (hnext : next.IsWord second) (hnames : names ≠ []) (h : Listed form ls names) :
      NamesWritten first second form (l :: next :: ls) names

/-- What decides whether empty positions are left out. -/
inductive MarkWritten : List Lexeme → Bool → Prop
  | none : MarkWritten [] false
  | some {l next : Lexeme} (hl : l.IsWord "NON") (hnext : next.IsWord "EMPTY") :
      MarkWritten [l, next] true

/-- A set that is not marked does not start with the mark's first word. -/
inductive AxisClause.Written : List Lexeme → AxisClause → Prop
  | mk {mark set properties index : List Lexeme} {on : Lexeme} {nonEmpty : Bool} {e : Expr}
      {names : List String} {n : Nat} (hmark : MarkWritten mark nonEmpty)
      (hfirst : nonEmpty = false → ∀ l ∈ set.head?, ¬l.IsWord "NON") (hset : e.Written set)
      (hproperties : NamesWritten "DIMENSION" "PROPERTIES" PropertyWritten properties names)
      (hon : on.IsWord "ON") (hindex : IndexWritten index n) :
      Written (mark ++ (set ++ (properties ++ on :: index))) ⟨n, nonEmpty, e, names⟩

/-! ### Statements -/

inductive SlicerWritten : List Lexeme → Option Expr → Prop
  | none : SlicerWritten [] none
  | some {l : Lexeme} {ls : List Lexeme} {e : Expr} (hl : l.IsWord "WHERE") (h : e.Written ls) :
      SlicerWritten (l :: ls) (some e)

/-- The name of a cell property. -/
def NameWritten (ls : List Lexeme) (name : String) : Prop :=
  ∃ l, ls = [l] ∧ l.token.name? = some name

inductive EndWritten : List Lexeme → Prop
  | none : EndWritten []
  | semicolon {l : Lexeme} (hl : l.IsSymbol .semicolon) : EndWritten [l]

/-- The first axis does not start with the word that ends the axes. -/
inductive Statement.Written : List Lexeme → Statement → Prop
  | mk {definitions axes cube slicer properties ends : List Lexeme} {select word : Lexeme}
      {ds : List Definition} {clauses : List AxisClause} {name : String} {slicer? : Option Expr}
      {names : List String} (hdefinitions : DefinitionsWritten definitions ds)
      (hselect : select.IsWord "SELECT") (hfirst : ∀ l ∈ axes.head?, ¬l.IsWord "FROM")
      (haxes : Listed AxisClause.Written axes clauses) (hword : word.IsWord "FROM")
      (hcube : NameWritten cube name) (hslicer : SlicerWritten slicer slicer?)
      (hproperties : NamesWritten "CELL" "PROPERTIES" NameWritten properties names)
      (hends : EndWritten ends) :
      Written
        (definitions ++ select :: (axes ++ word :: (cube ++ (slicer ++ (properties ++ ends)))))
        ⟨ds, clauses.mergeSort (·.index ≤ ·.index), name, slicer?, names⟩

end CubeQuery.Language
