import CubeQuery.Proofs.Language.Readable
import CubeQuery.Proofs.Language.ReadingStatements
import CubeQuery.Proofs.Number.ReadBack

/-!
What the parser returns is readable, whatever the text was. Numbers come from tokens, and no token
is a number with a sign; the rest follows the parser from rule to rule.
-/

namespace CubeQuery.Language

open CubeQuery.Number CubeQuery.Text

variable {α β : Type} {s : Lexemes} {P : α → Prop} {Q : β → Prop}

/-! ### Tokens without signs -/

def Token.Sound (t : Token) : Prop :=
  ∀ x, t = .number x → Unsigned x

namespace Lexemes

def Sound : Lexemes → Prop
  | finish _ | broken _ => True
  | cons l rest => l.token.Sound ∧ rest.Sound

end Lexemes

theorem tokenAt_sound {c : Char} {cs : List Char} {t : Token} {length : Nat}
    (h : tokenAt c cs = .ok (t, length)) : t.Sound := by
  rintro x rfl
  cases tokenAt_cases h with
  | delimited hdelimits h =>
    obtain ⟨s, more, ht, -⟩ := delimitedAt_eq_ok h
    cases hdelimits <;> cases ht
  | number _ h =>
    obtain ⟨d, hd, hfinite⟩ := numberAt_eq_ok h
    cases hd
    exact unsigned_toFloat hfinite
  | unclosedComment _ _ h | symbol _ h | word _ h | stray h => cases h

theorem scan_sound (width : Char → Nat) (position : Nat) (cs : List Char) :
    (scan width position cs).Sound := by
  fun_induction scan width position cs with
  | case1 => trivial
  | case2 => trivial
  | case3 position cs gap start c rest hbody shorter token length htoken body ih =>
    exact ⟨tokenAt_sound htoken, ih⟩

/-! ### Results -/

/-- A result has the property, and the tokens left are sound. -/
def Keeps (r : Except SyntaxError (α × Lexemes)) (P : α → Prop) : Prop :=
  ∀ a s, r = .ok (a, s) → P a ∧ s.Sound

/-- The tokens left are sound. -/
def Passes (r : Except SyntaxError Lexemes) : Prop :=
  ∀ s, r = .ok s → s.Sound

theorem keeps_ok {a : α} (ha : P a) (hs : s.Sound) : Keeps (.ok (a, s)) P := by
  rintro _ _ ⟨⟩
  exact ⟨ha, hs⟩

theorem keeps_error {error : SyntaxError} : Keeps (.error error) P := by
  rintro _ _ ⟨⟩

theorem Keeps.bind {r : Except SyntaxError (α × Lexemes)}
    {f : α × Lexemes → Except SyntaxError (β × Lexemes)} (h : Keeps r P)
    (hf : ∀ a s, P a → s.Sound → Keeps (f (a, s)) Q) : Keeps (r >>= f) Q := by
  cases r with
  | error error => exact keeps_error
  | ok p => exact hf p.1 p.2 (h p.1 p.2 rfl).1 (h p.1 p.2 rfl).2

theorem Passes.bind {r : Except SyntaxError Lexemes}
    {f : Lexemes → Except SyntaxError (β × Lexemes)} (h : Passes r)
    (hf : ∀ s, s.Sound → Keeps (f s) Q) : Keeps (r >>= f) Q := by
  cases r with
  | error error => exact keeps_error
  | ok s => exact hf s (h s rfl)

theorem Passes.then {r : Except SyntaxError Lexemes} {f : Lexemes → Except SyntaxError Lexemes}
    (h : Passes r) (hf : ∀ s, s.Sound → Passes (f s)) : Passes (r >>= f) := by
  cases r with
  | error error => nofun
  | ok s => exact hf s (h s rfl)

theorem passes_error {error : SyntaxError} : Passes (.error error) := by
  nofun

theorem passes_ok (hs : s.Sound) : Passes (.ok s) := by
  rintro _ ⟨⟩
  exact hs

theorem passes_checked (hs : s.Sound) : Passes s.checked := by
  cases s with
  | broken error => exact passes_error
  | finish position => exact passes_ok hs
  | cons l rest => exact passes_ok hs

theorem passes_advance (hs : s.Sound) : Passes s.advance := by
  cases s with
  | broken error => exact passes_error
  | finish position => exact passes_ok hs
  | cons l rest => exact passes_checked hs.2

theorem passes_expect (x : Symbol) (hs : s.Sound) : Passes (s.expect x) := by
  rw [Lexemes.expect]
  split
  · exact passes_advance hs
  · exact passes_error

theorem passes_keyword (w : String) (hs : s.Sound) : Passes (s.expectKeyword w) := by
  rw [Lexemes.expectKeyword]
  split
  · exact passes_advance hs
  · exact passes_error

theorem Lexemes.Sound.number {x : Float} (hs : s.Sound) (h : s.peek? = some (.number x)) :
    Unsigned x := by
  cases s with
  | broken error => cases h
  | finish position => cases h
  | cons l rest => exact hs.1 x (Option.some.inj h)

/-! ### Lists and paths -/

theorem keeps_separated {item : Parser α} (hitem : ∀ s, s.Sound → Keeps (item s) P)
    (hs : s.Sound) : Keeps (separated item s) fun as => as ≠ [] ∧ ∀ a ∈ as, P a := by
  have hsingle {a : α} {s : Lexemes} (ha : P a) (hs : s.Sound) :
      Keeps (pure ([a], s)) fun as => as ≠ [] ∧ ∀ a ∈ as, P a :=
    keeps_ok ⟨List.cons_ne_nil a [], List.forall_mem_singleton.2 ha⟩ hs
  induction hn : s.size using Nat.strong_induction_on generalizing s with
  | _ n ih =>
    rw [separated]
    refine (hitem s hs).bind fun a s₁ ha hs₁ => ?_
    dsimp only
    split
    · refine (passes_advance hs₁).bind fun s₂ hs₂ => ?_
      split
      · rename_i hshorter
        refine (ih _ (hn ▸ hshorter) hs₂ rfl).bind fun as s₃ has hs₃ => ?_
        exact keeps_ok ⟨List.cons_ne_nil a as, List.forall_mem_cons.2 ⟨ha, has.2⟩⟩ hs₃
      · exact hsingle ha hs₂
    · exact hsingle ha hs₁

theorem keeps_repeated {announced : Lexemes → Bool} {item : Parser α}
    (hitem : ∀ s, s.Sound → Keeps (item s) P) (hs : s.Sound) :
    Keeps (repeated announced item s) fun as => ∀ a ∈ as, P a := by
  induction hn : s.size using Nat.strong_induction_on generalizing s with
  | _ n ih =>
    rw [repeated]
    split
    · refine (hitem s hs).bind fun a s₁ ha hs₁ => ?_
      dsimp only
      split
      · rename_i hshorter
        refine (ih _ (hn ▸ hshorter) hs₁ rfl).bind fun as s₂ has hs₂ => ?_
        exact keeps_ok (List.forall_mem_cons.2 ⟨ha, has⟩) hs₂
      · exact keeps_ok (List.forall_mem_singleton.2 ha) hs₁
    · exact keeps_ok (List.forall_mem_nil P) hs

theorem keeps_pathSegments (hs : s.Sound) : Keeps (pathSegments s) (· ≠ []) := by
  fun_induction pathSegments s with
  | case4 l name hname next hdot rest hrest ih =>
    exact (ih hs.2.2).bind fun names s₁ _ hs₁ => keeps_ok (List.cons_ne_nil name names) hs₁
  | case5 l name hname next rest hdot => exact keeps_ok (List.cons_ne_nil name []) hs.2
  | case6 l name hname position => exact keeps_ok (List.cons_ne_nil name []) trivial
  | _ => exact keeps_error

theorem keeps_path (hs : s.Sound) : Keeps (path s) (·.segments ≠ []) := by
  refine (keeps_pathSegments hs).bind fun segments s₁ hsegments hs₁ => ?_
  exact keeps_ok hsegments hs₁

theorem keeps_pathTail (hs : s.Sound) : Keeps (pathTail s) fun _ => True := by
  fun_induction pathTail s with
  | case2 l next hdot rest hrest name hnext ih =>
    exact (ih hs.2.2).bind fun a s₁ _ hs₁ => keeps_ok trivial hs₁
  | case3 l next hdot rest hrest name hnext p hp => exact keeps_ok trivial hs.2.2
  | case4 l next hdot rest hrest name hnext hnone ih =>
    exact (ih hs.2.2).bind fun a s₁ _ hs₁ => keeps_ok trivial hs₁
  | case6 | case8 | case10 | case11 => exact keeps_ok trivial hs
  | _ => exact keeps_error

/-! ### Expressions -/

section Expr

variable {inner : Nat → Parser Expr} {levels : Nat}

theorem keeps_items {expr : Parser Expr} {P : Expr → Prop} {close : Symbol}
    (hexpr : ∀ s, s.Sound → Keeps (expr s) P) (hs : s.Sound) :
    Keeps (items expr close s) fun es => ∀ e ∈ es, P e := by
  rw [items]
  split
  · exact keeps_ok (List.forall_mem_nil _) hs
  · exact fun es s₁ h => ((keeps_separated hexpr hs) es s₁ h).imp_left And.right

theorem keeps_call {expr : Parser Expr} {name : String} {position : Nat}
    (hexpr : ∀ s, s.Sound → Keeps (expr s) (Expr.ReadableWithin levels)) (hs : s.Sound) :
    Keeps (call expr name position s) (Expr.ReadableWithin (levels + 1)) := by
  rw [call]
  split
  · exact keeps_error
  · refine (passes_expect _ hs).bind fun s₁ hs₁ => ?_
    refine (keeps_items hexpr hs₁).bind fun es s₂ hes hs₂ => ?_
    refine (passes_expect _ hs₂).bind fun s₃ hs₃ => ?_
    split
    · rename_i harity
      exact keeps_ok (.call harity hes) hs₃
    · exact keeps_error

theorem keeps_named {expr : Parser Expr} {name : String} {bare : Bool} {position : Nat}
    (hexpr : ∀ s, s.Sound → Keeps (expr s) (Expr.ReadableWithin levels)) (hs : s.Sound) :
    Keeps (named expr name bare position s) (Expr.ReadableWithin (levels + 1)) := by
  rw [named]
  split
  · exact keeps_call hexpr hs
  · split
    · exact keeps_ok (.leaf (.flag _) rfl) hs
    · refine (keeps_pathTail hs).bind fun a s₁ _ hs₁ => ?_
      obtain ⟨names, property?⟩ := a
      cases property? with
      | none => exact keeps_ok (.leaf (.path (List.cons_ne_nil name names)) rfl) hs₁
      | some p => exact keeps_ok (.leaf (.property (List.cons_ne_nil name names) p) rfl) hs₁

/-- Parentheses around one expression are taken away, and around several make a tuple. -/
theorem keeps_parenthesized {expr : Parser Expr}
    (hexpr : ∀ s, s.Sound → Keeps (expr s) (Expr.ReadableWithin levels)) (hs : s.Sound) :
    Keeps (separated expr s) fun es => (∃ e, es = [e] ∧ e.ReadableWithin (levels + 1)) ∨
      2 ≤ es.length ∧ (Expr.tuple es).ReadableWithin (levels + 1) := by
  intro es s₁ h
  obtain ⟨⟨hne, hes⟩, hs₁⟩ := keeps_separated hexpr hs es s₁ h
  refine ⟨?_, hs₁⟩
  cases es with
  | nil => exact absurd rfl hne
  | cons e es =>
    cases es with
    | nil => exact .inl ⟨e, rfl, (hes e List.mem_cons_self).mono (Nat.le_succ levels)⟩
    | cons next es =>
      have hlength := Nat.le_add_left 2 es.length
      exact .inr ⟨hlength, .tuple hlength hes⟩

theorem keeps_operand
    (hinner : ∀ least s, s.Sound → Keeps (inner least s) (Expr.ReadableWithin levels))
    (hs : s.Sound) : Keeps (operand inner s) (Expr.ReadableWithin (levels + 1)) := by
  rw [operand]
  split
  · -- A minus sign and its operand.
    refine (passes_advance hs).bind fun s₁ hs₁ => ?_
    refine (hinner 3 s₁ hs₁).bind fun e s₂ he hs₂ => ?_
    exact keeps_ok (.negate he) hs₂
  · rename_i x hx
    refine (passes_advance hs).bind fun s₁ hs₁ => ?_
    exact keeps_ok (.leaf (.number (hs.number hx)) rfl) hs₁
  · refine (passes_advance hs).bind fun s₁ hs₁ => ?_
    exact keeps_ok (.leaf (.text _) rfl) hs₁
  · -- A set in braces.
    refine (passes_advance hs).bind fun s₁ hs₁ => ?_
    refine (keeps_items (hinner 0) hs₁).bind fun es s₂ hes hs₂ => ?_
    refine (passes_expect _ hs₂).bind fun s₃ hs₃ => ?_
    exact keeps_ok (.set hes) hs₃
  · -- Parentheses: around one expression they only group, around several they make a tuple.
    refine (passes_advance hs).bind fun s₁ hs₁ => ?_
    split
    · exact keeps_error
    · rename_i hfirst
      rw [items, if_neg hfirst]
      refine (keeps_parenthesized (hinner 0) hs₁).bind fun es s₂ hes hs₂ => ?_
      refine (passes_expect _ hs₂).bind fun s₃ hs₃ => ?_
      rcases hes with ⟨e, rfl, he⟩ | ⟨hlength, htuple⟩
      · exact keeps_ok he hs₃
      · split
        · exact absurd hlength (Nat.not_succ_le_self 1)
        · exact keeps_ok htuple hs₃
  · refine (passes_advance hs).bind fun s₁ hs₁ => ?_
    exact keeps_named (hinner 0) hs₁
  · refine (passes_advance hs).bind fun s₁ hs₁ => ?_
    exact keeps_named (hinner 0) hs₁
  · exact keeps_error

/-- The operators of a chain are all on one level, with their right operands one further in. -/
theorem keeps_chain
    (hinner : ∀ least s, s.Sound → Keeps (inner least s) (Expr.ReadableWithin levels))
    {least : Nat} {left : Expr} (hleft : left.ReadableWithin (levels + 1)) (hs : s.Sound) :
    Keeps (chain inner least left s) (Expr.ReadableWithin (levels + 1)) := by
  induction hn : s.size using Nat.strong_induction_on generalizing s left with
  | _ n ih =>
    rw [chain]
    split
    · exact keeps_ok hleft hs
    · split
      · exact keeps_ok hleft hs
      · refine (passes_advance hs).bind fun s₁ hs₁ => ?_
        refine (hinner _ s₁ hs₁).bind fun right s₂ hright hs₂ => ?_
        dsimp only
        split
        · rename_i hshorter
          exact ih _ (hn ▸ hshorter) (.binary _ hleft hright) hs₂ rfl
        · exact keeps_ok (.binary _ hleft hright) hs₂

theorem keeps_exprWithin (levels least : Nat) (hs : s.Sound) :
    Keeps (exprWithin levels least s) (Expr.ReadableWithin levels) := by
  induction levels generalizing least s with
  | zero => exact keeps_error
  | succ levels ih =>
    have hinner : ∀ least s, s.Sound →
        Keeps (exprWithin levels least s) (Expr.ReadableWithin levels) :=
      fun least s hs => ih least hs
    rw [exprWithin]
    refine (keeps_operand hinner hs).bind fun left s₁ hleft hs₁ => ?_
    exact keeps_chain hinner hleft hs₁

theorem keeps_expr (hs : s.Sound) : Keeps (expr s) (Expr.ReadableWithin nestingLimit) :=
  keeps_exprWithin nestingLimit 0 hs

end Expr

theorem exists_of_bind_eq_ok {ε : Type} {r : Except ε α} {f : α → Except ε β} {b : β}
    (h : r >>= f = .ok b) : ∃ a, r = .ok a ∧ f a = .ok b := by
  cases r with
  | error error => cases h
  | ok a => exact ⟨a, rfl, h⟩

theorem Expr.readableWithin_of_ofText {text : String} {e : Expr} (h : Expr.ofText text = .ok e) :
    e.ReadableWithin nestingLimit := by
  obtain ⟨s, hchecked, h⟩ := exists_of_bind_eq_ok h
  obtain ⟨p, hread, h⟩ := exists_of_bind_eq_ok h
  have hs : s.Sound := passes_checked (scan_sound _ _ _) s hchecked
  have he := (keeps_expr hs p.1 p.2 hread).1
  dsimp only at h
  split at h
  · cases h
    exact he
  · cases h

/-- Every expression that is read from text is readable. -/
theorem Expr.readable_of_ofText {text : String} {e : Expr} (h : Expr.ofText text = .ok e) :
    e.Readable :=
  (readableWithin_of_ofText h).readable

/-! ### Statements -/

theorem keeps_definitionBody (hs : s.Sound) :
    Keeps (definitionBody s) (Expr.ReadableWithin nestingLimit) := by
  rw [definitionBody]
  split
  · refine (passes_advance hs).bind fun rest hrest => ?_
    refine (passes_checked (scan_sound _ _ _)).bind fun inner hinner => ?_
    -- The tokens left of the quoted text are not those that go on.
    refine (keeps_expr hinner).bind fun e inner₁ he hinner₁ => ?_
    dsimp only
    split
    · exact keeps_ok he hrest
    · exact keeps_error
  · exact keeps_expr hs

theorem solveOrder?_le {x : Float} {n : Int} (h : solveOrder? x = some n) :
    n.natAbs ≤ solveOrderLimit := by
  rw [solveOrder?] at h
  split at h
  · split at h
    · rename_i hle
      cases h
      split <;> omega
    · cases h
  · cases h

theorem keeps_memberSetting (hs : s.Sound) : Keeps (memberSetting s) MemberSetting.Allowed := by
  rw [memberSetting]
  refine (passes_advance hs).bind fun s₁ hs₁ => ?_
  split
  · -- A format text.
    refine (passes_advance hs₁).bind fun s₂ hs₂ => ?_
    refine (passes_expect _ hs₂).bind fun s₃ hs₃ => ?_
    refine (passes_advance hs₃).bind fun s₄ hs₄ => ?_
    split
    · exact keeps_ok trivial hs₄
    · exact keeps_ok trivial hs₄
    · exact keeps_error
  · split
    · -- A solve order, perhaps with a sign.
      refine (passes_advance hs₁).bind fun s₂ hs₂ => ?_
      refine (passes_expect _ hs₂).bind fun s₃ hs₃ => ?_
      dsimp only
      rw [← ite_bind]
      have hsign : Passes (if s₃.startsWith .minus then s₃.advance else pure s₃) := by
        split
        · exact passes_advance hs₃
        · exact passes_ok hs₃
      refine hsign.bind fun s₄ hs₄ => ?_
      split
      · split
        · rename_i n hn
          have hle := solveOrder?_le hn
          refine (passes_advance hs₄).bind fun s₅ hs₅ => ?_
          refine keeps_ok ?_ hs₅
          split
          · exact (Int.natAbs_neg n).trans_le hle
          · exact hle
        · exact keeps_error
      · exact keeps_error
    · exact keeps_error

theorem foldl_settings_order {xs : List MemberSetting} {d : MemberDefinition}
    (hd : d.solveOrder.natAbs ≤ solveOrderLimit) (hxs : ∀ x ∈ xs, x.Allowed) :
    (xs.foldl MemberDefinition.apply d).solveOrder.natAbs ≤ solveOrderLimit ∧
      (xs.foldl MemberDefinition.apply d).path = d.path ∧
      (xs.foldl MemberDefinition.apply d).expr = d.expr := by
  induction xs generalizing d with
  | nil => exact ⟨hd, rfl, rfl⟩
  | cons x xs ih =>
    obtain ⟨hx, hrest⟩ := List.forall_mem_cons.1 hxs
    cases x with
    | format f => exact ih hd hrest
    | solveOrder n => exact ih hx hrest

theorem keeps_definition (hs : s.Sound) :
    Keeps (definition s) fun d => d.Readable ∧ d.expr.nesting ≤ nestingLimit := by
  rw [definition]
  refine (passes_advance hs).bind fun s₁ hs₁ => ?_
  refine (keeps_path hs₁).bind fun p s₂ hp hs₂ => ?_
  refine (passes_keyword _ hs₂).bind fun s₃ hs₃ => ?_
  refine (keeps_definitionBody hs₃).bind fun e s₄ he hs₄ => ?_
  dsimp only
  split
  · refine (keeps_repeated (fun s hs => keeps_memberSetting hs) hs₄).bind fun xs s₅ hxs hs₅ => ?_
    obtain ⟨horder, hpath, hexpr⟩ := @foldl_settings_order xs ⟨p, e, none, 0⟩ (Nat.zero_le _) hxs
    have hbody : (xs.foldl MemberDefinition.apply ⟨p, e, none, 0⟩).expr.ReadableWithin
        nestingLimit := by
      rw [hexpr]
      exact he
    refine keeps_ok ⟨⟨?_, hbody.readable, horder⟩, hbody.nesting⟩ hs₅
    exact ne_of_eq_of_ne (congrArg Path.segments hpath) hp
  · exact keeps_ok ⟨⟨hp, he.readable, Nat.zero_le _⟩, he.nesting⟩ hs₄

theorem keeps_definitions (hs : s.Sound) :
    Keeps (definitions s) fun ds => ∀ d ∈ ds, d.Readable ∧ d.expr.nesting ≤ nestingLimit := by
  rw [definitions]
  split
  · refine (passes_advance hs).bind fun s₁ hs₁ => ?_
    refine (keeps_repeated (fun s hs => keeps_definition hs) hs₁).bind fun ds s₂ hds hs₂ => ?_
    dsimp only
    split
    · exact keeps_error
    · exact keeps_ok hds hs₂
  · exact keeps_ok (List.forall_mem_nil _) hs

theorem axisNumber?_lt {x : Float} {n : Nat} (h : axisNumber? x = some n) : n < axisLimit := by
  rw [axisNumber?] at h
  split at h
  · split at h
    · rename_i hlt
      cases h
      exact hlt.1
    · cases h
  · cases h

theorem keeps_axisNumber {what : Expectation} (hs : s.Sound) :
    Keeps (axisNumber what s) (· < axisLimit) := by
  rw [axisNumber]
  split
  · split
    · rename_i n hn
      exact (passes_advance hs).bind fun s₁ hs₁ => keeps_ok (axisNumber?_lt hn) hs₁
    · exact keeps_error
  · exact keeps_error

theorem keeps_axisIndex (hs : s.Sound) : Keeps (axisIndex s) (· < axisLimit) := by
  rw [axisIndex]
  split
  · split
    · rename_i n hn
      have hnamed : n < 5 := List.mem_range.1 (List.mem_of_find?_eq_some hn)
      have hlimit : 5 ≤ axisLimit := by decide
      exact (passes_advance hs).bind fun s₁ hs₁ => keeps_ok (hnamed.trans_le hlimit) hs₁
    · split
      · refine (passes_advance hs).bind fun s₁ hs₁ => ?_
        refine (passes_expect _ hs₁).bind fun s₂ hs₂ => ?_
        refine (keeps_axisNumber hs₂).bind fun n s₃ hn hs₃ => ?_
        exact (passes_expect _ hs₃).bind fun s₄ hs₄ => keeps_ok hn hs₄
      · exact keeps_error
  · exact keeps_axisNumber hs

theorem keeps_dimensionProperty (hs : s.Sound) : Keeps (dimensionProperty s) fun _ => True := by
  rw [dimensionProperty]
  refine (keeps_path hs).bind fun p s₁ _ hs₁ => ?_
  dsimp only
  split <;> exact keeps_ok trivial hs₁

theorem keeps_dimensionProperties (hs : s.Sound) :
    Keeps (dimensionProperties s) fun _ => True := by
  rw [dimensionProperties]
  split
  · rw [bind_assoc]
    refine (passes_advance hs).bind fun s₁ hs₁ => ?_
    refine (passes_keyword _ hs₁).bind fun s₂ hs₂ names s₃ h => ?_
    exact ⟨trivial, (keeps_separated (fun s hs => keeps_dimensionProperty hs) hs₂ names s₃ h).2⟩
  · exact keeps_ok trivial hs

theorem keeps_placedAxis (hs : s.Sound) :
    Keeps (placedAxis s) fun p =>
      p.2.set.ReadableWithin nestingLimit ∧ p.2.index < axisLimit := by
  have hmark : Passes (emptyMark s) := by
    rw [emptyMark]
    split
    · exact (passes_advance hs).then fun s₁ hs₁ => passes_keyword _ hs₁
    · exact passes_ok hs
  have haxis : Keeps (axisClause s) fun a =>
      a.set.ReadableWithin nestingLimit ∧ a.index < axisLimit := by
    rw [axisClause_eq]
    refine hmark.bind fun s₁ hs₁ => ?_
    refine (keeps_expr hs₁).bind fun e s₂ he hs₂ => ?_
    refine (keeps_dimensionProperties hs₂).bind fun names s₃ _ hs₃ => ?_
    rw [bind_assoc]
    refine (passes_keyword _ hs₃).bind fun s₄ hs₄ => ?_
    exact (keeps_axisIndex hs₄).bind fun n s₅ hn hs₅ => keeps_ok ⟨he, hn⟩ hs₅
  rw [placedAxis]
  exact haxis.bind fun a s₁ ha hs₁ => keeps_ok ha hs₁

theorem keeps_axes (hs : s.Sound) :
    Keeps (axes s) fun placed => ∀ p ∈ placed,
      p.2.set.ReadableWithin nestingLimit ∧ p.2.index < axisLimit := by
  rw [axes]
  split
  · exact keeps_ok (List.forall_mem_nil _) hs
  · intro placed s₁ h
    exact (keeps_separated (fun s hs => keeps_placedAxis hs) hs placed s₁ h).imp_left And.right

/-- The check leaves only indices that are below the number of axes and differ from each other. -/
theorem of_checkAxes {count : Nat} {placed : List (Nat × AxisClause)} {seen : List Nat}
    (h : checkAxes count seen placed = .ok ()) :
    (∀ p ∈ placed, p.2.index < count ∧ p.2.index ∉ seen) ∧
      (placed.map fun p => p.2.index).Nodup := by
  induction placed generalizing seen with
  | nil => exact ⟨by nofun, List.nodup_nil⟩
  | cons p placed ih =>
    rw [checkAxes] at h
    split at h
    · cases h
    · rename_i hlt
      split at h
      · cases h
      · rename_i hseen
        obtain ⟨hrest, hnodup⟩ := ih h
        refine ⟨List.forall_mem_cons.2 ⟨⟨Nat.lt_of_not_le hlt, hseen⟩, fun q hq => ?_⟩, ?_⟩
        · exact ⟨(hrest q hq).1, fun hmem => (hrest q hq).2 (List.mem_cons_of_mem _ hmem)⟩
        · rw [List.map_cons, List.nodup_cons]
          refine ⟨fun hmem => ?_, hnodup⟩
          obtain ⟨q, hq, heq⟩ := List.mem_map.1 hmem
          exact (hrest q hq).2 (heq ▸ List.mem_cons_self)

/-- Axes that pass the check have the indices from 0 on once they are in order. -/
theorem indices_orderAxes {placed : List (Nat × AxisClause)}
    (h : checkAxes placed.length [] placed = .ok ()) :
    (orderAxes placed).map AxisClause.index = List.range placed.length := by
  obtain ⟨hbound, hnodup⟩ := of_checkAxes h
  have hplaced : (placed.map fun p => p.2.index).Perm (List.range placed.length) := by
    have hsubset : placed.map (fun p => p.2.index) ⊆ List.range placed.length := by
      intro n hn
      obtain ⟨p, hp, rfl⟩ := List.mem_map.1 hn
      exact List.mem_range.2 (hbound p hp).1
    apply (List.subperm_of_subset hnodup hsubset).perm_of_length_le
    rw [List.length_range, List.length_map]
  have hperm : ((orderAxes placed).map AxisClause.index).Perm (List.range placed.length) := by
    have hsort := (List.mergeSort_perm (placed.map (·.2)) (·.index ≤ ·.index)).map AxisClause.index
    rw [List.map_map] at hsort
    exact hsort.trans hplaced
  have hsorted : ((orderAxes placed).map AxisClause.index).Pairwise (· ≤ ·) := by
    have hsort : (orderAxes placed).Pairwise fun a b => decide (a.index ≤ b.index) = true :=
      List.pairwise_mergeSort (by simpa using fun a b c => Nat.le_trans)
        (by simpa using fun a b => Nat.le_total _ _) _
    exact List.pairwise_map.2 (hsort.imp of_decide_eq_true)
  exact hperm.eq_of_pairwise (fun a b _ _ => Nat.le_antisymm) hsorted List.pairwise_le_range

theorem mem_orderAxes {placed : List (Nat × AxisClause)} {a : AxisClause} :
    a ∈ orderAxes placed ↔ ∃ p ∈ placed, p.2 = a := by
  rw [orderAxes, List.mem_mergeSort, List.mem_map]

theorem length_orderAxes {placed : List (Nat × AxisClause)} :
    (orderAxes placed).length = placed.length := by
  rw [orderAxes, List.length_mergeSort, List.length_map]

/-- The greatest index is one less than the number of axes, so it bounds their number. -/
theorem length_orderAxes_le {placed : List (Nat × AxisClause)}
    (h : checkAxes placed.length [] placed = .ok ())
    (hbound : ∀ p ∈ placed, p.2.index < axisLimit) :
    (orderAxes placed).length ≤ axisLimit := by
  rw [length_orderAxes]
  rcases Nat.eq_zero_or_pos placed.length with hzero | hpos
  · rw [hzero]
    exact Nat.zero_le _
  · have hlast : placed.length - 1 ∈ (orderAxes placed).map AxisClause.index := by
      rw [indices_orderAxes h, List.mem_range]
      exact Nat.sub_one_lt_of_lt hpos
    obtain ⟨a, ha, hindex⟩ := List.mem_map.1 hlast
    obtain ⟨p, hp, rfl⟩ := mem_orderAxes.1 ha
    have hlt := hbound p hp
    omega

theorem keeps_slicer (hs : s.Sound) :
    Keeps (slicer s) fun slicer? => ∀ e ∈ slicer?, e.ReadableWithin nestingLimit := by
  rw [slicer]
  split
  · refine (passes_advance hs).bind fun s₁ hs₁ => ?_
    refine (keeps_expr hs₁).bind fun e s₂ he hs₂ => ?_
    refine keeps_ok ?_ hs₂
    rintro _ ⟨⟩
    exact he
  · exact keeps_ok (fun e he => absurd he (Option.not_mem_none e)) hs

theorem keeps_cubeName (hs : s.Sound) : Keeps (cubeName s) fun _ => True := by
  rw [cubeName]
  refine (keeps_path hs).bind fun p s₁ _ hs₁ => ?_
  dsimp only
  split
  · exact keeps_ok trivial hs₁
  · exact keeps_error

theorem keeps_cellProperty (hs : s.Sound) : Keeps (cellProperty s) fun _ => True := by
  rw [cellProperty]
  refine (passes_advance hs).bind fun s₁ hs₁ => ?_
  split
  · exact keeps_ok trivial hs₁
  · exact keeps_error

theorem keeps_cellProperties (hs : s.Sound) : Keeps (cellProperties s) fun _ => True := by
  rw [cellProperties]
  split
  · refine (passes_advance hs).bind fun s₁ hs₁ => ?_
    refine (passes_keyword _ hs₁).bind fun s₂ hs₂ names s₃ h => ?_
    exact ⟨trivial, (keeps_separated (fun s hs => keeps_cellProperty hs) hs₂ names s₃ h).2⟩
  · exact keeps_ok trivial hs

/-- The parts of a statement that has been read, put together. -/
theorem keeps_parts {ds : List Definition} {placed : List (Nat × AxisClause)} {cube : String}
    {slicer? : Option Expr} {properties : List String}
    (hds : ∀ d ∈ ds, d.Readable ∧ d.expr.nesting ≤ nestingLimit)
    (hplaced : ∀ p ∈ placed, p.2.set.ReadableWithin nestingLimit ∧ p.2.index < axisLimit)
    (hslicer : ∀ e ∈ slicer?, e.ReadableWithin nestingLimit)
    (hcheck : checkAxes placed.length [] placed = .ok ()) :
    Statement.Readable ⟨ds, orderAxes placed, cube, slicer?, properties⟩ ∧
      ∀ e ∈ Statement.exprs ⟨ds, orderAxes placed, cube, slicer?, properties⟩,
        e.nesting ≤ nestingLimit := by
  have haxes : ∀ a ∈ orderAxes placed, a.set.ReadableWithin nestingLimit := by
    intro a ha
    obtain ⟨p, hp, rfl⟩ := mem_orderAxes.1 ha
    exact (hplaced p hp).1
  refine ⟨⟨fun d hd => (hds d hd).1, fun a ha => (haxes a ha).readable, ?_,
    length_orderAxes_le hcheck fun p hp => (hplaced p hp).2, fun e he => (hslicer e he).readable⟩,
    ?_⟩
  · rw [indices_orderAxes hcheck, length_orderAxes]
  · intro e he
    rcases List.mem_append.1 he with he | he
    · obtain ⟨d, hd, rfl⟩ := List.mem_map.1 he
      exact (hds d hd).2
    · rcases List.mem_append.1 he with he | he
      · obtain ⟨a, ha, rfl⟩ := List.mem_map.1 he
        exact (haxes a ha).nesting
      · exact (hslicer e (Option.mem_toList.1 he)).nesting

theorem keeps_statement (hs : s.Sound) :
    Keeps (statement s) fun st => st.Readable ∧ ∀ e ∈ st.exprs, e.nesting ≤ nestingLimit := by
  rw [statement]
  refine (keeps_definitions hs).bind fun ds s₁ hds hs₁ => ?_
  refine (passes_keyword _ hs₁).bind fun s₂ hs₂ => ?_
  refine (keeps_axes hs₂).bind fun placed s₃ hplaced hs₃ => ?_
  refine (passes_keyword _ hs₃).bind fun s₄ hs₄ => ?_
  refine (keeps_cubeName hs₄).bind fun cube s₅ _ hs₅ => ?_
  refine (keeps_slicer hs₅).bind fun slicer? s₆ hslicer hs₆ => ?_
  refine (keeps_cellProperties hs₆).bind fun names s₇ _ hs₇ => ?_
  dsimp only
  rw [← ite_bind]
  have hsemicolon : Passes (if s₇.startsWith .semicolon then s₇.advance else pure s₇) := by
    split
    · exact passes_advance hs₇
    · exact passes_ok hs₇
  refine hsemicolon.bind fun s₈ hs₈ => ?_
  split
  · cases hcheck : checkAxes placed.length [] placed with
    | error error => exact keeps_error
    | ok => exact keeps_ok (keeps_parts hds hplaced hslicer hcheck) hs₈
  · exact keeps_error

theorem Statement.keeps_of_ofText {text : String} {st : Statement}
    (h : Statement.ofText text = .ok st) :
    st.Readable ∧ ∀ e ∈ st.exprs, e.nesting ≤ nestingLimit := by
  obtain ⟨s, hchecked, h⟩ := exists_of_bind_eq_ok h
  obtain ⟨p, hread, h⟩ := exists_of_bind_eq_ok h
  have hs : s.Sound := passes_checked (scan_sound _ _ _) s hchecked
  have hst := (keeps_statement hs p.1 p.2 hread).1
  cases h
  exact hst

/-- Every statement that is read from text is readable. -/
theorem Statement.readable_of_ofText {text : String} {st : Statement}
    (h : Statement.ofText text = .ok st) : st.Readable :=
  (keeps_of_ofText h).1

end CubeQuery.Language
