import CubeQuery.Language.Parser.Expr
import CubeQuery.Proofs.Language.Scanning
import CubeQuery.Proofs.Language.Tokens

/-!
Tokens read back. `Reads` says both what a parser returns and when it fails because expressions nest
too deeply, so that the depth of an expression is accounted for where it is read.
-/

namespace CubeQuery.Language

open CubeQuery.Text

variable {α β γ : Type} {s : Lexemes} {t : Token} {ts us : List Token} {fits fits' : Prop}
  {P : α → Prop} {Q : β → Prop}

/-! ### The next token -/

theorem Lexemes.startsWith_of_eq {l : Lexeme} {x : Symbol} (h : l.token = .symbol x) :
    (Lexemes.cons l s).startsWith x = true :=
  beq_iff_eq.2 (congrArg some h)

theorem Lexemes.startsWith_of_ne {l : Lexeme} {x : Symbol} (h : l.token ≠ .symbol x) :
    (Lexemes.cons l s).startsWith x = false :=
  beq_eq_false_iff_ne.2 fun heq => h (Option.some.inj heq)

namespace Lexemes.Spells

theorem peek? (h : s.Spells ts) : s.peek? = ts.head? := by
  cases h with
  | finish position => rfl
  | cons l hrest => rfl

theorem peek?_cons (h : s.Spells (t :: ts)) : s.peek? = some t :=
  h.peek?

theorem size (h : s.Spells ts) : s.size = ts.length := by
  induction h with
  | finish position => rfl
  | cons l hrest ih => rw [Lexemes.size, ih, List.length_cons]

theorem checked (h : s.Spells ts) : s.checked = .ok s := by
  cases h with
  | finish position => rfl
  | cons l hrest => rfl

theorem fail (h : s.Spells ts) (f : SyntaxFault) :
    ∃ error, (s.fail f : Except SyntaxError (α × Lexemes)) = .error error ∧ error.fault = f := by
  cases h with
  | finish position => exact ⟨_, rfl, rfl⟩
  | cons l hrest => exact ⟨_, rfl, rfl⟩

theorem startsWith (h : s.Spells ts) (x : Symbol) :
    s.startsWith x = (ts.head? == some (.symbol x)) := by
  rw [Lexemes.startsWith, h.peek?]

theorem startsWith_cons (h : s.Spells (.symbol x :: ts)) : s.startsWith x = true := by
  rw [h.startsWith, List.head?_cons, beq_self_eq_true]

theorem not_startsWith (h : s.Spells ts) (hts : ts.head? ≠ some (.symbol x)) :
    s.startsWith x = false := by
  rw [h.startsWith, beq_eq_false_iff_ne]
  exact hts

theorem atKeyword_cons {w : String} (h : s.Spells (.word w :: ts)) (keyword : String) :
    s.atKeyword keyword = sameName w keyword := by
  rw [Lexemes.atKeyword, h.peek?]
  rfl

theorem not_atKeyword (h : s.Spells ts) (hts : ∀ w, ts.head? ≠ some (.word w)) (keyword : String) :
    s.atKeyword keyword = false := by
  rw [Lexemes.atKeyword, h.peek?]
  split
  · rename_i w hw
    exact absurd hw (hts w)
  · rfl

theorem advance (h : s.Spells (t :: ts)) : ∃ s', s.advance = .ok s' ∧ s'.Spells ts := by
  cases h with
  | cons l hrest => exact ⟨_, hrest.checked, hrest⟩

theorem not_broken (h : s.Spells ts) : ∀ error, s = .broken error → False := by
  rintro error rfl
  cases h

theorem cons_inv (h : s.Spells (t :: ts)) :
    ∃ l rest, s = .cons l rest ∧ l.token = t ∧ rest.Spells ts := by
  cases h with
  | cons l hrest => exact ⟨l, _, rfl, rfl, hrest⟩

end Lexemes.Spells

/-! ### Reading -/

/-- If everything fits, a result with the property, with these tokens left; else a complaint that
something nests too deeply. -/
structure Reads (r : Except SyntaxError (α × Lexemes)) (fits : Prop) (P : α → Prop)
    (ts : List Token) : Prop where
  result (hfits : fits) : ∃ a s, r = .ok (a, s) ∧ P a ∧ s.Spells ts
  fault (hdeep : ¬fits) : ∃ error, r = .error error ∧ error.fault = .nestingTooDeep

theorem reads_ok {a : α} (hfits : fits) (ha : P a) (hs : s.Spells ts) :
    Reads (.ok (a, s)) fits P ts :=
  ⟨fun _ => ⟨a, s, rfl, ha, hs⟩, fun hdeep => absurd hfits hdeep⟩

theorem reads_tooDeep (hdeep : ¬fits) (hs : s.Spells us) :
    Reads (s.fail .nestingTooDeep) fits P ts :=
  ⟨fun hfits => absurd hfits hdeep, fun _ => hs.fail .nestingTooDeep⟩

theorem Reads.congr {r : Except SyntaxError (α × Lexemes)} (h : Reads r fits P ts)
    (hfits : fits ↔ fits') : Reads r fits' P ts :=
  ⟨fun hfits' => h.result (hfits.2 hfits'),
    fun hdeep => h.fault fun hfits' => hdeep (hfits.1 hfits')⟩

theorem Reads.mono {r : Except SyntaxError (α × Lexemes)} {P' : α → Prop} (h : Reads r fits P ts)
    (hP : ∀ a, P a → P' a) : Reads r fits P' ts := by
  refine ⟨fun hfits => ?_, h.fault⟩
  obtain ⟨a, s, hr, ha, hs⟩ := h.result hfits
  exact ⟨a, s, hr, hP a ha, hs⟩

/-- One parser after another: both parts have to fit. -/
theorem Reads.bind {r : Except SyntaxError (α × Lexemes)}
    {f : α × Lexemes → Except SyntaxError (β × Lexemes)} (h : Reads r fits P ts)
    (hf : ∀ a s, P a → s.Spells ts → Reads (f (a, s)) fits' Q us) :
    Reads (r >>= f) (fits ∧ fits') Q us := by
  constructor
  · rintro ⟨hfits, hfits'⟩
    obtain ⟨a, s, rfl, ha, hs⟩ := h.result hfits
    exact (hf a s ha hs).result hfits'
  · intro hdeep
    by_cases hfits : fits
    · obtain ⟨a, s, rfl, ha, hs⟩ := h.result hfits
      exact (hf a s ha hs).fault fun hfits' => hdeep ⟨hfits, hfits'⟩
    · obtain ⟨error, rfl, hfault⟩ := h.fault hfits
      exact ⟨error, rfl, hfault⟩

/-- What comes afterwards always fits. -/
theorem Reads.map {r : Except SyntaxError (α × Lexemes)}
    {f : α × Lexemes → Except SyntaxError (β × Lexemes)} (h : Reads r fits P ts)
    (hf : ∀ a s, P a → s.Spells ts → Reads (f (a, s)) True Q us) : Reads (r >>= f) fits Q us :=
  (h.bind hf).congr (and_iff_left trivial)

/-- What came before always fits. -/
theorem Reads.next {r : Except SyntaxError (α × Lexemes)}
    {f : α × Lexemes → Except SyntaxError (β × Lexemes)} (h : Reads r True P ts)
    (hf : ∀ a s, P a → s.Spells ts → Reads (f (a, s)) fits Q us) : Reads (r >>= f) fits Q us :=
  (h.bind hf).congr (and_iff_right trivial)

/-- A step that only takes tokens. -/
def Moves (r : Except SyntaxError Lexemes) (ts : List Token) : Prop :=
  ∃ s, r = .ok s ∧ s.Spells ts

theorem Moves.bind {r : Except SyntaxError Lexemes}
    {f : Lexemes → Except SyntaxError (β × Lexemes)} (h : Moves r ts)
    (hf : ∀ s, s.Spells ts → Reads (f s) fits Q us) : Reads (r >>= f) fits Q us := by
  obtain ⟨s, rfl, hs⟩ := h
  exact hf s hs

theorem Moves.then {r : Except SyntaxError Lexemes} {f : Lexemes → Except SyntaxError Lexemes}
    (h : Moves r ts) (hf : ∀ s, s.Spells ts → Moves (f s) us) : Moves (r >>= f) us := by
  obtain ⟨s, rfl, hs⟩ := h
  exact hf s hs

theorem moves_expect {x : Symbol} (h : s.Spells (.symbol x :: ts)) : Moves (s.expect x) ts := by
  rw [Lexemes.expect, if_pos h.startsWith_cons]
  exact h.advance

theorem moves_keyword {w : String} (h : s.Spells (.word w :: ts)) :
    Moves (s.expectKeyword w) ts := by
  rw [Lexemes.expectKeyword, if_pos (by rw [h.atKeyword_cons, sameName_refl])]
  exact h.advance

/-! ### Lists -/

theorem reads_separated_single {item : Parser α} (hitem : Reads (item s) fits P ts)
    (hts : ts.head? ≠ some (.symbol .comma)) :
    Reads (separated item s) fits (fun as => ∃ a, as = [a] ∧ P a) ts := by
  rw [separated]
  refine hitem.map fun a s₁ ha hs₁ => ?_
  dsimp only
  rw [if_neg (by rw [hs₁.not_startsWith hts]; nofun)]
  exact reads_ok trivial ⟨a, rfl, ha⟩ hs₁

/-- Items with commas between them, each of which is read where a comma or the end of the list
follows. -/
theorem reads_separated {item : Parser α} {tokens : β → List Token} {next : List Token → Prop}
    {fitting : β → Prop} {view : α → γ} {goal : β → γ} {xs : List β} (hxs : xs ≠ [])
    (hend : us.head? ≠ some (.symbol .comma)) (hus : next us)
    (hcomma : ∀ vs, next (.symbol .comma :: vs))
    (hitem : ∀ x ∈ xs, ∀ s vs, s.Spells (tokens x ++ vs) → next vs →
      Reads (item s) (fitting x) (fun a => view a = goal x) vs)
    (hs : s.Spells (commaTokens (xs.map tokens) ++ us)) :
    Reads (separated item s) (∀ x ∈ xs, fitting x) (fun as => as.map view = xs.map goal) us := by
  induction xs generalizing s with
  | nil => exact absurd rfl hxs
  | cons x xs ih =>
    have hx := hitem x List.mem_cons_self
    cases xs with
    | nil =>
      rw [List.map_singleton, commaTokens_single] at hs
      have hsingle := reads_separated_single (hx s us hs hus) hend
      refine (hsingle.congr List.forall_mem_singleton.symm).mono ?_
      rintro as ⟨a, rfl, ha⟩
      rw [List.map_singleton, List.map_singleton, ha]
    | cons y ys =>
      rw [List.map_cons, List.map_cons, commaTokens_cons_cons, List.append_assoc,
        List.cons_append] at hs
      rw [separated]
      refine ((hx s _ hs (hcomma _)).bind fun a s₁ ha hs₁ => ?_).congr List.forall_mem_cons.symm
      dsimp only
      rw [if_pos hs₁.startsWith_cons]
      refine Moves.bind hs₁.advance fun s₂ hs₂ => ?_
      -- The comma alone makes what is left shorter, whatever the item took.
      have hshorter : s₂.size < s.size := by
        rw [hs₂.size, hs.size]
        simp only [List.length_append, List.length_cons]
        omega
      rw [if_pos hshorter]
      have hrest := ih (by nofun) (fun z hz => hitem z (List.mem_cons_of_mem _ hz)) hs₂
      refine hrest.map fun as s₃ has hs₃ => ?_
      refine reads_ok trivial ?_ hs₃
      rw [List.map_cons, List.map_cons, ha, has]

/-! ### Paths and properties -/

theorem pathTokens_cons (name : String) (names : List String) :
    pathTokens (name :: names) =
      .bracketed name :: names.flatMap fun next => [.symbol .dot, .bracketed next] := by
  induction names generalizing name with
  | nil => rfl
  | cons next names ih =>
    rw [pathTokens_cons_cons, ih, List.flatMap_cons]
    rfl

/-- The tokens behind a path that a property is read of. -/
def propertyTokens : Option Property → List Token
  | some p => [.symbol .dot, .word p.name]
  | none => []

theorem ofName?_propertyName (p : Property) : Property.ofName? p.name = some p := by
  cases p <;> decide

theorem pathTail_stop (hs : s.Spells us) (hus : us.head? ≠ some (.symbol .dot)) :
    pathTail s = .ok (([], none), s) := by
  cases hs with
  | finish position => rfl
  | cons l hrest =>
    have hl : l.token ≠ .symbol .dot := fun hdot => hus (congrArg some hdot)
    cases hrest with
    | finish position =>
      rw [pathTail, if_neg hl]
      rfl
    | cons next hrest =>
      rw [pathTail, if_neg hl]
      · rfl
      · exact hrest.not_broken

/-- A property name ends a path only where no dot follows. -/
theorem pathTail_name {l next : Lexeme} {rest : Lexemes} {name : String} (hrest : rest.Spells ts)
    (hl : l.token = .symbol .dot) (hnext : next.token.name? = some name)
    (hlast : ts.head? ≠ some (.symbol .dot) → ∀ w, next.token = .word w →
      Property.ofName? w = none) :
    pathTail (.cons l (.cons next rest)) =
      pathTail rest >>= fun a => .ok ((name :: a.1.1, a.1.2), a.2) := by
  rw [pathTail, if_pos hl]
  · cases htoken : next.token with
    | bracketed name' =>
      rw [htoken] at hnext
      cases hnext
      rfl
    | word w =>
      rw [htoken] at hnext
      cases hnext
      have hproperty : (if rest.startsWith .dot then none else Property.ofName? name) = none := by
        split
        · rfl
        · rename_i hdot
          rw [hrest.startsWith, beq_iff_eq] at hdot
          exact hlast hdot name htoken
      dsimp only
      rw [hproperty]
      rfl
    | _ =>
      rw [htoken] at hnext
      cases hnext
  · exact hrest.not_broken

theorem pathTail_property {l next : Lexeme} {rest : Lexemes} {w : String} {p : Property}
    (hrest : rest.Spells ts) (hts : ts.head? ≠ some (.symbol .dot))
    (hl : l.token = .symbol .dot) (hnext : next.token = .word w)
    (hw : Property.ofName? w = some p) :
    pathTail (.cons l (.cons next rest)) = .ok (([], some p), rest) := by
  rw [pathTail, if_pos hl, hnext]
  · dsimp only
    rw [if_neg (by rw [hrest.not_startsWith hts]; nofun), hw]
    rfl
  · exact hrest.not_broken

/-- What follows the first name of a path. A property ends it, so that a last word that is the name
of one is no further name. -/
inductive PathTail : List Token → List String → Option Property → Prop
  | nil : PathTail [] [] none
  | property {w : String} {p : Property} (hw : Property.ofName? w = some p) :
      PathTail [.symbol .dot, .word w] [] (some p)
  | name {t : Token} {name : String} {ts : List Token} {names : List String}
      {property? : Option Property} (ht : t.name? = some name)
      (hlast : ts = [] → ∀ w, t = .word w → Property.ofName? w = none)
      (h : PathTail ts names property?) :
      PathTail (.symbol .dot :: t :: ts) (name :: names) property?

theorem PathTail.head {names : List String} {property? : Option Property}
    (h : PathTail ts names property?) : ts = [] ∨ ts.head? = some (.symbol .dot) := by
  cases h with
  | nil => exact .inl rfl
  | property hw => exact .inr rfl
  | name ht hlast h => exact .inr rfl

theorem pathTail_tokens (names : List String) (property? : Option Property) :
    PathTail ((names.flatMap fun next => [.symbol .dot, .bracketed next]) ++
      propertyTokens property?) names property? := by
  induction names with
  | nil =>
    cases property? with
    | none => exact .nil
    | some p => exact .property (ofName?_propertyName p)
  | cons name names ih => exact .name rfl (fun _ => by nofun) ih

theorem reads_pathTail {names : List String} {property? : Option Property}
    (h : PathTail ts names property?) (hus : us.head? ≠ some (.symbol .dot))
    (hs : s.Spells (ts ++ us)) : Reads (pathTail s) True (fun a => a = (names, property?)) us := by
  induction h generalizing s with
  | nil =>
    rw [pathTail_stop hs hus]
    exact reads_ok trivial rfl hs
  | property hw =>
    obtain ⟨l, s₁, rfl, hl, hs₁⟩ := hs.cons_inv
    obtain ⟨next, rest, rfl, hnext, hrest⟩ := hs₁.cons_inv
    rw [pathTail_property hrest hus hl hnext hw]
    exact reads_ok trivial rfl hrest
  | @name t name ts names property? ht hlast h ih =>
    obtain ⟨l, s₁, rfl, hl, hs₁⟩ := hs.cons_inv
    obtain ⟨next, rest, rfl, rfl, hrest⟩ := hs₁.cons_inv
    have hlast (hdot : (ts ++ us).head? ≠ some (.symbol .dot)) :
        ∀ w, next.token = .word w → Property.ofName? w = none := by
      apply hlast
      rcases h.head with hnil | hhead
      · exact hnil
      · rw [List.head?_append, hhead] at hdot
        exact absurd rfl hdot
    rw [pathTail_name hrest hl ht hlast]
    refine (ih hrest).map fun a s₂ ha hs₂ => ?_
    exact reads_ok trivial (by rw [ha]) hs₂

/-! ### Operands -/

/-- Whether the standard text of an expression can start with a token. -/
def Token.begins : Token → Bool
  | .word w => (SetFunction.all.map SetFunction.name ++ Flag.all.map Flag.name).contains w
  | .symbol x => [Symbol.openBrace, .openParen, .minus].contains x
  | .quoted _ => false
  | _ => true

/-- What may follow an operand: a dot would lengthen a path, a parenthesis make a call of a word. -/
def Follows (ts : List Token) : Prop :=
  ts.head? ≠ some (.symbol .dot) ∧ ts.head? ≠ some (.symbol .openParen)

theorem follows_cons (hdot : t ≠ .symbol .dot) (hopen : t ≠ .symbol .openParen) :
    Follows (t :: ts) :=
  ⟨fun h => hdot (Option.some.inj h), fun h => hopen (Option.some.inj h)⟩

/-- The operator that a token is. -/
def Token.operator? : Token → Option Operator
  | .symbol .plus => some .add
  | .symbol .minus => some .subtract
  | .symbol .star => some .multiply
  | .symbol .slash => some .divide
  | _ => none

theorem operator?_token (op : Operator) : op.token.operator? = some op := by
  cases op <;> rfl

theorem follows_operator (op : Operator) : Follows (op.token :: ts) := by
  cases op <;> exact follows_cons (by decide) (by decide)

/-- Only operators that bind more loosely may follow: they belong to whatever stands around. -/
def Quiet (least : Nat) (ts : List Token) : Prop :=
  ∀ op ∈ ts.head?.bind Token.operator?, op.precedence < least

theorem quiet_cons {least : Nat} (ht : t.operator? = none) : Quiet least (t :: ts) := by
  rintro op hop
  rw [List.head?_cons, Option.bind_some, ht] at hop
  cases hop

theorem quiet_three : Quiet 3 ts := by
  rintro op -
  cases op <;> decide

/-- What may follow a whole expression. -/
def Closed (ts : List Token) : Prop :=
  Follows ts ∧ Quiet 0 ts

theorem closed_nil : Closed [] :=
  ⟨⟨by nofun, by nofun⟩, by nofun⟩

theorem closed_comma : Closed (.symbol .comma :: ts) :=
  ⟨follows_cons (by decide) (by decide), quiet_cons rfl⟩

theorem closed_word (w : String) : Closed (.word w :: ts) :=
  ⟨follows_cons (by nofun) (by nofun), quiet_cons rfl⟩

theorem Lexemes.Spells.operator? (h : s.Spells ts) :
    s.operator? = ts.head?.bind Token.operator? := by
  rw [Lexemes.operator?, h.peek?]
  cases ts with
  | nil => rfl
  | cons t ts =>
    cases t with
    | symbol x => cases x <;> rfl
    | _ => rfl

theorem Expr.Readable.begins {e : Expr} (he : e.Readable) :
    ∃ t ts, e.tokens = t :: ts ∧ t.begins = true := by
  cases he with
  | @path p hsegments =>
    obtain ⟨name, names, hnames⟩ := List.exists_cons_of_ne_nil hsegments
    rw [Expr.tokens, hnames, pathTokens_cons]
    exact ⟨_, _, rfl, rfl⟩
  | @property p hsegments relative =>
    obtain ⟨name, names, hnames⟩ := List.exists_cons_of_ne_nil hsegments
    rw [Expr.tokens, hnames, pathTokens_cons]
    exact ⟨_, _, rfl, rfl⟩
  | @call f arguments harity harguments => exact ⟨_, _, rfl, by cases f <;> decide⟩
  | flag f => exact ⟨_, _, rfl, by cases f <;> decide⟩
  | _ => exact ⟨_, _, rfl, rfl⟩

theorem Expr.Readable.head_ne {e : Expr} (he : e.Readable) (ht : t.begins = false) :
    (e.tokens ++ us).head? ≠ some t := by
  obtain ⟨first, run, htokens, hfirst⟩ := he.begins
  rw [htokens]
  rintro ⟨⟩
  rw [ht] at hfirst
  cases hfirst

/-- An expression reads back as an operand. -/
def Expr.ReadsBack (e : Expr) : Prop :=
  ∀ levels s us, s.Spells (e.tokens ++ us) → Follows us →
    Reads (operand (exprWithin levels) s) (e.depth ≤ levels + 1)
      (fun a => a.unplaced = e.unplaced) us

namespace Expr

variable {e : Expr} {es : List Expr} {levels least : Nat}

theorem depth_pos (e : Expr) : 0 < e.depth := by
  cases e <;> rw [depth] <;> omega

theorem chain_stop {expr : Nat → Parser Expr} {left : Expr} (hs : s.Spells us)
    (hus : Quiet least us) : chain expr least left s = .ok (left, s) := by
  rw [chain, hs.operator?]
  cases hop : us.head?.bind Token.operator? with
  | none => rfl
  | some op =>
    dsimp only
    rw [if_pos (hus op hop)]
    rfl

theorem ReadsBack.within (h : e.ReadsBack) (hs : s.Spells (e.tokens ++ us)) (hus : Follows us)
    (hquiet : Quiet least us) :
    Reads (exprWithin levels least s) (e.depth ≤ levels) (fun a => a.unplaced = e.unplaced) us := by
  cases levels with
  | zero => exact reads_tooDeep (Nat.not_le_of_gt e.depth_pos) hs
  | succ levels =>
    refine (h levels s us hs hus).map fun a s₁ ha hs₁ => ?_
    dsimp only
    rw [chain_stop hs₁ hquiet]
    exact reads_ok trivial ha hs₁

/-! ### Lists of expressions -/

section Lists

variable {xs : List β} {tokens : β → List Token} {close : Symbol}

/-- A list of expressions starts with the first of them. -/
theorem commaTokens_head_ne (hxs : xs ≠ [])
    (hfirst : ∀ x ∈ xs, ∀ us, (tokens x ++ us).head? ≠ some (.symbol close)) :
    (commaTokens (xs.map tokens) ++ us).head? ≠ some (.symbol close) := by
  obtain ⟨x, xs, rfl⟩ := List.exists_cons_of_ne_nil hxs
  cases xs with
  | nil =>
    rw [List.map_singleton, commaTokens_single]
    exact hfirst x List.mem_cons_self us
  | cons next xs =>
    rw [List.map_cons, List.map_cons, commaTokens_cons_cons, List.append_assoc]
    exact hfirst x List.mem_cons_self _

theorem reads_items {item : Parser Expr} {fitting : β → Prop} {goal : β → Expr}
    (hclose : close = .closeParen ∨ close = .closeBrace)
    (hfirst : ∀ x ∈ xs, ∀ us, (tokens x ++ us).head? ≠ some (.symbol close))
    (hitem : ∀ x ∈ xs, ∀ s us, s.Spells (tokens x ++ us) → Closed us →
      Reads (item s) (fitting x) (fun a => a.unplaced = (goal x).unplaced) us)
    (hs : s.Spells (commaTokens (xs.map tokens) ++ .symbol close :: us)) :
    Reads (items item close s) (∀ x ∈ xs, fitting x)
      (fun as => as.map unplaced = (xs.map goal).map unplaced) (.symbol close :: us) := by
  have hcomma : (Token.symbol close :: us).head? ≠ some (.symbol .comma) := by
    rcases hclose with rfl | rfl <;> nofun
  have hnext : Closed (.symbol close :: us) := by
    rcases hclose with rfl | rfl
    all_goals exact ⟨follows_cons (by decide) (by decide), quiet_cons rfl⟩
  by_cases hxs : xs = []
  · subst hxs
    rw [items, if_pos (Lexemes.Spells.startsWith_cons hs)]
    exact reads_ok (by nofun) rfl hs
  · have hstart : s.startsWith close = false :=
      hs.not_startsWith (commaTokens_head_ne hxs hfirst)
    rw [items, if_neg (by rw [hstart]; nofun), List.map_map]
    exact reads_separated hxs hcomma hnext (fun us => closed_comma) hitem hs

end Lists

/-! ### Each kind of operand -/

section Kinds

variable {expr : Nat → Parser Expr}

theorem ofName?_flagName (f : Flag) : Flag.ofName? f.name = some f := by
  cases f <;> decide

theorem ofName?_functionName (f : SetFunction) : SetFunction.ofName? f.name = some f := by
  cases f <;> decide

theorem reads_flag {w : String} {f : Flag} (hw : Flag.ofName? w = some f)
    (hs : s.Spells (.word w :: us)) (hus : Follows us) :
    Reads (operand expr s) True (fun a => a.unplaced = (flag f).unplaced) us := by
  rw [operand, hs.peek?]
  refine Moves.bind hs.advance fun s₁ hs₁ => ?_
  rw [named, hs₁.not_startsWith hus.2, hs₁.not_startsWith hus.1,
    if_neg (show ¬(true && false) = true by nofun), if_pos (show (true && !false) = true from rfl),
    hw]
  exact reads_ok trivial rfl hs₁

/-- What a name begins that is neither called nor a flag is a path, perhaps with a property. -/
theorem reads_named {item : Parser Expr} {name : String} {names : List String} {bare : Bool}
    {property? : Option Property} {position : Nat}
    (halone : ts = [] → bare = true → Flag.ofName? name = none)
    (htail : PathTail ts names property?)
    (hs : s.Spells (ts ++ us)) (hus : Follows us) :
    Reads (named item name bare position s) True
      (fun a => a = property?.elim (.path ⟨name :: names, position⟩)
        (.property ⟨name :: names, position⟩)) us := by
  have hcall : s.startsWith .openParen = false := by
    apply hs.not_startsWith
    rcases htail.head with rfl | hhead
    · exact hus.2
    · rw [List.head?_append, hhead]
      nofun
  have hflag : (if bare && !s.startsWith .dot then Flag.ofName? name else none) = none := by
    split
    · rename_i hbare
      obtain ⟨hbare, hdot⟩ := Bool.and_eq_true_iff.1 hbare
      refine halone ?_ hbare
      rcases htail.head with hnil | hhead
      · exact hnil
      · rw [hs.startsWith, List.head?_append, hhead] at hdot
        cases hdot
    · rfl
  rw [named, hcall, Bool.and_false, if_neg (by nofun), hflag]
  refine (reads_pathTail htail hus.1 hs).map fun a s₁ ha hs₁ => ?_
  subst ha
  cases property? with
  | none => exact reads_ok trivial rfl hs₁
  | some p => exact reads_ok trivial rfl hs₁

theorem reads_negation (hs : s.Spells (.symbol .minus :: ts))
    (he : ∀ s, s.Spells ts → Reads (expr 3 s) fits (fun a => a.unplaced = e.unplaced) us) :
    Reads (operand expr s) fits (fun a => a.unplaced = (negate e).unplaced) us := by
  rw [operand, hs.peek?]
  refine Moves.bind hs.advance fun s₁ hs₁ => ?_
  refine (he s₁ hs₁).map fun a s₂ ha hs₂ => ?_
  exact reads_ok trivial (by rw [unplaced, unplaced, ha]) hs₂

/-- Parentheses around one expression are taken away. -/
theorem reads_grouped (hs : s.Spells (.symbol .openParen :: ts))
    (hfirst : ts.head? ≠ some (.symbol .closeParen))
    (he : ∀ s, s.Spells ts →
      Reads (expr 0 s) fits (fun a => a.unplaced = e.unplaced) (.symbol .closeParen :: us)) :
    Reads (operand expr s) fits (fun a => a.unplaced = e.unplaced) us := by
  rw [operand, hs.peek?]
  refine Moves.bind hs.advance fun s₁ hs₁ => ?_
  have hopen : ¬s₁.startsWith .closeParen = true := by
    rw [hs₁.not_startsWith hfirst]
    nofun
  rw [if_neg hopen, items, if_neg hopen]
  refine (reads_separated_single (he s₁ hs₁) (by nofun)).map fun as s₂ has hs₂ => ?_
  refine Moves.bind (moves_expect hs₂) fun s₃ hs₃ => ?_
  obtain ⟨a, rfl, ha⟩ := has
  exact reads_ok trivial ha hs₃

theorem reads_set (hs : s.Spells (.symbol .openBrace :: ts))
    (hes : ∀ s, s.Spells ts → Reads (items (expr 0) .closeBrace s) fits
      (fun as => as.map unplaced = es.map unplaced) (.symbol .closeBrace :: us)) :
    Reads (operand expr s) fits (fun a => a.unplaced = (set es).unplaced) us := by
  rw [operand, hs.peek?]
  refine Moves.bind hs.advance fun s₁ hs₁ => ?_
  refine (hes s₁ hs₁).map fun as s₂ has hs₂ => ?_
  refine Moves.bind (moves_expect hs₂) fun s₃ hs₃ => ?_
  exact reads_ok trivial (by rw [unplaced, unplaced, unplacedAll_eq, unplacedAll_eq, has]) hs₃

theorem reads_tuple (hlength : 2 ≤ es.length) (hs : s.Spells (.symbol .openParen :: ts))
    (hfirst : ts.head? ≠ some (.symbol .closeParen))
    (hes : ∀ s, s.Spells ts → Reads (items (expr 0) .closeParen s) fits
      (fun as => as.map unplaced = es.map unplaced) (.symbol .closeParen :: us)) :
    Reads (operand expr s) fits (fun a => a.unplaced = (tuple es).unplaced) us := by
  rw [operand, hs.peek?]
  refine Moves.bind hs.advance fun s₁ hs₁ => ?_
  rw [if_neg (by rw [hs₁.not_startsWith hfirst]; nofun)]
  refine (hes s₁ hs₁).map fun as s₂ has hs₂ => ?_
  refine Moves.bind (moves_expect hs₂) fun s₃ hs₃ => ?_
  have hunplaced : (tuple as).unplaced = (tuple es).unplaced := by
    rw [unplaced, unplaced, unplacedAll_eq, unplacedAll_eq, has]
  have hmore : 2 ≤ as.length := by
    have := congrArg List.length has
    rw [List.length_map, List.length_map] at this
    omega
  -- A single item would be taken out of its parentheses.
  cases as with
  | nil => cases hmore
  | cons a as =>
    cases as with
    | nil => exact absurd hmore (Nat.not_succ_le_self 1)
    | cons next as => exact reads_ok trivial hunplaced hs₃

theorem reads_call {w : String} {f : SetFunction} (hw : SetFunction.ofName? w = some f)
    (harity : f.accepts es.length = true) (hs : s.Spells (.word w :: .symbol .openParen :: ts))
    (hes : ∀ s, s.Spells ts → Reads (items (expr 0) .closeParen s) fits
      (fun as => as.map unplaced = es.map unplaced) (.symbol .closeParen :: us)) :
    Reads (operand expr s) fits (fun a => a.unplaced = (Expr.call f es).unplaced) us := by
  rw [operand, hs.peek?]
  refine Moves.bind hs.advance fun s₁ hs₁ => ?_
  rw [named, hs₁.startsWith_cons, if_pos (show (true && true) = true from rfl), Language.call, hw]
  refine Moves.bind (moves_expect hs₁) fun s₂ hs₂ => ?_
  refine (hes s₂ hs₂).map fun as s₃ has hs₃ => ?_
  refine Moves.bind (moves_expect hs₃) fun s₄ hs₄ => ?_
  have hlength : as.length = es.length := by
    have := congrArg List.length has
    rwa [List.length_map, List.length_map] at this
  rw [hlength, if_pos harity]
  exact reads_ok trivial (by rw [unplaced, unplaced, unplacedAll_eq, unplacedAll_eq, has]) hs₄

end Kinds

/-! ### Standard text -/

theorem readsBack_number (x : Float) : (number x).ReadsBack := by
  intro levels s us hs hus
  rw [operand, hs.peek?]
  refine Moves.bind hs.advance fun s₁ hs₁ => ?_
  exact reads_ok (by rw [depth]; omega) rfl hs₁

theorem readsBack_text (text : String) : (Expr.text text).ReadsBack := by
  intro levels s us hs hus
  rw [operand, hs.peek?]
  refine Moves.bind hs.advance fun s₁ hs₁ => ?_
  exact reads_ok (by rw [depth]; omega) rfl hs₁

theorem readsBack_flag (f : Flag) : (Expr.flag f).ReadsBack := by
  intro levels s us hs hus
  refine (reads_flag (ofName?_flagName f) hs hus).congr (iff_of_true trivial ?_)
  rw [depth]
  omega

theorem readsBack_path {p : Path} (hsegments : p.segments ≠ []) : (Expr.path p).ReadsBack := by
  intro levels s us hs hus
  obtain ⟨name, names, hnames⟩ := List.exists_cons_of_ne_nil hsegments
  have htail := pathTail_tokens names none
  rw [propertyTokens, List.append_nil] at htail
  rw [tokens, hnames, pathTokens_cons] at hs
  rw [operand, hs.peek?]
  refine Moves.bind hs.advance fun s₁ hs₁ => ?_
  refine ((reads_named (by nofun) htail hs₁ hus).congr (iff_of_true trivial ?_)).mono ?_
  · rw [depth]
    omega
  · rintro a rfl
    rw [Option.elim_none, unplaced, unplaced, Path.unplaced, Path.unplaced, hnames]

theorem readsBack_property {p : Path} (hsegments : p.segments ≠ []) (relative : Property) :
    (Expr.property p relative).ReadsBack := by
  intro levels s us hs hus
  obtain ⟨name, names, hnames⟩ := List.exists_cons_of_ne_nil hsegments
  rw [tokens, hnames, pathTokens_cons, List.cons_append] at hs
  rw [operand, hs.peek?]
  refine Moves.bind hs.advance fun s₁ hs₁ => ?_
  refine ((reads_named (by nofun) (pathTail_tokens names (some relative)) hs₁ hus).congr
    (iff_of_true trivial ?_)).mono ?_
  · rw [depth]
    omega
  · rintro a rfl
    rw [Option.elim_some, unplaced, unplaced, Path.unplaced, Path.unplaced, hnames]

theorem readsBack_negate (h : e.ReadsBack) : (Expr.negate e).ReadsBack := by
  intro levels s us hs hus
  have hdepth : e.depth ≤ levels ↔ (negate e).depth ≤ levels + 1 := by
    rw [depth]
    omega
  exact (reads_negation hs fun s₁ hs₁ => h.within hs₁ hus quiet_three).congr hdepth

theorem reads_readable (hes : ∀ e ∈ es, e.Readable) (hback : ∀ e ∈ es, e.ReadsBack)
    {close : Symbol} (hclose : close = .closeParen ∨ close = .closeBrace)
    (hs : s.Spells (commaTokens (es.map tokens) ++ .symbol close :: us)) :
    Reads (items (exprWithin levels 0) close s) (depthAll es ≤ levels)
      (fun as => as.map unplaced = es.map unplaced) (.symbol close :: us) := by
  have hbegins : Token.begins (.symbol close) = false := by
    rcases hclose with rfl | rfl <;> rfl
  have hread : Reads (items (exprWithin levels 0) close s) (∀ e ∈ es, e.depth ≤ levels)
      (fun as => as.map unplaced = (es.map id).map unplaced) (.symbol close :: us) :=
    reads_items hclose (fun e he us => (hes e he).head_ne hbegins)
      (fun e he s us hs hus => (hback e he).within hs hus.1 hus.2) hs
  rw [List.map_id] at hread
  exact hread.congr depthAll_le_iff.symm

theorem readsBack_set (hes : ∀ e ∈ es, e.Readable) (hback : ∀ e ∈ es, e.ReadsBack) :
    (Expr.set es).ReadsBack := by
  intro levels s us hs hus
  rw [tokens, tokensAll_eq, List.cons_append, List.append_assoc] at hs
  have hdepth : depthAll es ≤ levels ↔ (set es).depth ≤ levels + 1 := by
    rw [depth]
    omega
  exact (reads_set hs fun s₁ hs₁ => reads_readable hes hback (.inr rfl) hs₁).congr hdepth

theorem readsBack_call {f : SetFunction} (harity : f.accepts es.length = true)
    (hes : ∀ e ∈ es, e.Readable) (hback : ∀ e ∈ es, e.ReadsBack) :
    (Expr.call f es).ReadsBack := by
  intro levels s us hs hus
  rw [tokens, tokensAll_eq, List.cons_append, List.cons_append, List.append_assoc] at hs
  have hdepth : depthAll es ≤ levels ↔ (Expr.call f es).depth ≤ levels + 1 := by
    rw [depth]
    omega
  exact (reads_call (ofName?_functionName f) harity hs fun s₁ hs₁ =>
    reads_readable hes hback (.inl rfl) hs₁).congr hdepth

theorem readsBack_tuple (hlength : 2 ≤ es.length) (hes : ∀ e ∈ es, e.Readable)
    (hback : ∀ e ∈ es, e.ReadsBack) : (Expr.tuple es).ReadsBack := by
  intro levels s us hs hus
  rw [tokens, tokensAll_eq, List.cons_append, List.append_assoc] at hs
  have hdepth : depthAll es ≤ levels ↔ (tuple es).depth ≤ levels + 1 := by
    rw [depth]
    omega
  have hne : es ≠ [] := by
    rintro rfl
    cases hlength
  have hfirst : (commaTokens (es.map tokens) ++ ([Token.symbol .closeParen] ++ us)).head? ≠
      some (.symbol .closeParen) :=
    commaTokens_head_ne hne fun e he us => (hes e he).head_ne rfl
  exact (reads_tuple hlength hs hfirst fun s₁ hs₁ =>
    reads_readable hes hback (.inl rfl) hs₁).congr hdepth

/-- The operands of an operation in parentheses: the right one is read one level further in. -/
theorem reads_operands (op : Operator) {left right : Expr} (hleft : left.ReadsBack)
    (hright : right.ReadsBack)
    (hs : s.Spells (left.tokens ++ op.token :: (right.tokens ++ .symbol .closeParen :: us))) :
    Reads (exprWithin levels 0 s) ((binary op left right).depth ≤ levels + 1)
      (fun a => a.unplaced = (binary op left right).unplaced) (.symbol .closeParen :: us) := by
  have hfollows : Follows (Token.symbol .closeParen :: us) :=
    follows_cons (by decide) (by decide)
  have hquiet {least : Nat} : Quiet least (Token.symbol .closeParen :: us) := quiet_cons rfl
  cases levels with
  | zero =>
    refine reads_tooDeep ?_ hs
    have := left.depth_pos
    rw [depth]
    omega
  | succ levels =>
    have hdepth : left.depth ≤ levels + 1 ∧ right.depth ≤ levels ↔
        (binary op left right).depth ≤ levels + 1 + 1 := by
      rw [depth]
      omega
    rw [exprWithin]
    refine ((hleft levels s _ hs (follows_operator op)).bind fun a s₁ ha hs₁ => ?_).congr hdepth
    dsimp only
    rw [chain, hs₁.operator?, List.head?_cons, Option.bind_some, operator?_token]
    dsimp only
    rw [if_neg (Nat.not_lt_zero _)]
    refine Moves.bind hs₁.advance fun s₂ hs₂ => ?_
    refine (hright.within hs₂ hfollows hquiet).map fun b s₃ hb hs₃ => ?_
    -- The chain goes on once more and stops at the closing parenthesis.
    have hshorter : s₃.size < s₁.size := by
      rw [hs₃.size, hs₁.size]
      simp only [List.length_append, List.length_cons]
      omega
    dsimp only
    rw [if_pos hshorter, chain_stop hs₃ hquiet]
    exact reads_ok trivial (by rw [unplaced, unplaced, ha, hb]) hs₃

theorem readsBack_binary (op : Operator) {left right : Expr} (hl : left.Readable)
    (hleft : left.ReadsBack) (hright : right.ReadsBack) : (binary op left right).ReadsBack := by
  intro levels s us hs hus
  rw [tokens, List.cons_append, List.append_assoc, List.cons_append, List.append_assoc] at hs
  exact reads_grouped hs (hl.head_ne rfl) fun s₁ hs₁ => reads_operands op hleft hright hs₁

/-- Every expression that was read from text reads back from its tokens. -/
theorem Readable.readsBack (he : e.Readable) : e.ReadsBack := by
  induction he with
  | path hsegments => exact readsBack_path hsegments
  | property hsegments relative => exact readsBack_property hsegments relative
  | set hitems ih => exact readsBack_set hitems ih
  | tuple hlength hitems ih => exact readsBack_tuple hlength hitems ih
  | call harity harguments ih => exact readsBack_call harity harguments ih
  | number hx => exact readsBack_number _
  | text s => exact readsBack_text s
  | flag f => exact readsBack_flag f
  | negate he ih => exact readsBack_negate ih
  | binary op hl hr ihl ihr => exact readsBack_binary op hl ihl ihr

theorem Readable.reads (he : e.Readable) (hs : s.Spells (e.tokens ++ us)) (hus : Closed us) :
    Reads (expr s) (e.depth ≤ nestingLimit) (fun a => a.unplaced = e.unplaced) us :=
  he.readsBack.within hs hus.1 hus.2

/-! ### Whole texts -/

/-- Reads a whole text as one expression that nests no more than the given number of levels. -/
def ofTextWithin (levels : Nat) (text : String) : Except SyntaxError Expr := do
  let s ← (Lexemes.ofQuery text).checked
  let (e, s) ← exprWithin levels 0 s
  if s.atEnd then return e else s.fail (.unexpected .afterExpression)

theorem ofTextWithin_nestingLimit (text : String) :
    ofTextWithin nestingLimit text = ofText text := rfl

theorem ofTextWithin_of_reads {text : String} {P : Expr → Prop}
    (hs : (Lexemes.ofQuery text).Spells ts)
    (hread : Reads (exprWithin levels 0 (Lexemes.ofQuery text)) fits P []) (hfits : fits) :
    ∃ e, ofTextWithin levels text = .ok e ∧ P e := by
  obtain ⟨e, s, hexpr, he, hend⟩ := hread.result hfits
  refine ⟨e, ?_, he⟩
  rw [ofTextWithin, hs.checked]
  show (exprWithin levels 0 (Lexemes.ofQuery text) >>= _) = _
  rw [hexpr]
  exact if_pos (by rw [Lexemes.atEnd, hend.peek?]; rfl)

end Expr

end CubeQuery.Language
