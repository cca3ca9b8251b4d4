import CubeQuery.Proofs.Language.Accounting

/-!
The parsers of expressions account for what they do: an expression is written with the lexemes taken
for it, and a token is refused only where an expression could still go on.
-/

namespace CubeQuery.Language

open Lexemes

variable {α : Type} {quotes : Prop} {s : Lexemes} {ls us before : List Lexeme} {l : Lexeme}
  {e : Expr} {es : List Expr}

/-! ### Items in brackets -/

theorem begins_expr : Begins Expr.Written [] :=
  ⟨[(Token.number 0).lexeme], _, .number rfl⟩

theorem Expr.written_set {first last : Lexeme} (hfirst : first.IsSymbol .openBrace)
    (h : Listed Expr.Written ls es) (hlast : last.IsSymbol .closeBrace) :
    Expr.Written (first :: (ls ++ [last])) (.set es) := by
  obtain ⟨items, hjoined, rfl, hitems⟩ := h
  exact .set hfirst hjoined hitems hlast

theorem Expr.written_call {first last : Lexeme} {w : String} {f : SetFunction}
    (hl : l.token = .word w) (hw : SetFunction.ofName? w = some f)
    (hfirst : first.IsSymbol .openParen) (h : Listed Expr.Written ls es)
    (hlast : last.IsSymbol .closeParen) :
    Expr.Written (l :: first :: (ls ++ [last])) (.call f es) := by
  obtain ⟨items, hjoined, rfl, hitems⟩ := h
  exact .call hl hw hfirst hjoined hitems hlast

/-- What items in parentheses stand for: one item is that item. -/
def Expr.ofItems : List Expr → Expr
  | [e] => e
  | es => .tuple es

theorem Expr.written_ofItems {first last : Lexeme} (hfirst : first.IsSymbol .openParen)
    (h : Listed Expr.Written ls es) (hes : es ≠ []) (hlast : last.IsSymbol .closeParen) :
    Expr.Written (first :: (ls ++ [last])) (.ofItems es) := by
  obtain ⟨items, hjoined, rfl, hitems⟩ := h
  match items, hes with
  | [p], _ =>
    cases hjoined
    exact .grouped hfirst (hitems p List.mem_cons_self) hlast
  | p :: q :: items, _ =>
    have hlength : 2 ≤ (p :: q :: items).length := Nat.le_add_left 2 items.length
    exact .tuple hfirst hlength hjoined hitems hlast

theorem Token.lexeme_isSymbol (x : Symbol) : (Token.symbol x).lexeme.IsSymbol x :=
  rfl

/-- The arguments of a call with their parentheses. -/
def arguments (expr : Parser Expr) : Parser (List Expr) := fun s =>
  s.expect .openParen >>= fun s => items expr .closeParen s >>= fun p =>
    p.2.expect .closeParen >>= fun s => pure (p.1, s)

/-- A call read part by part. -/
theorem call_eq (expr : Parser Expr) (name : String) (position : Nat) (s : Lexemes) :
    call expr name position s = match SetFunction.ofName? name with
      | none => .error ⟨position, name, .unknownFunction⟩
      | some f => arguments expr s >>= fun p =>
        if f.accepts p.1.length then pure (.call f p.1, p.2)
        else .error ⟨position, name, .wrongArity f p.1.length⟩ := by
  unfold call arguments
  cases SetFunction.ofName? name with
  | none => rfl
  | some f => simp only [bind_assoc, pure_bind]

theorem exists_of_operator? {op : Operator} (h : s.operator? = some op) :
    ∃ l rest, s = .cons l rest ∧ l.token = op.token := by
  unfold operator? at h
  split at h <;> cases h
  all_goals exact exists_of_peek? ‹_›

section Expr

variable {expr : Nat → Parser Expr}
  (hexpr : ∀ least s, Accounts quotes s (expr least s) Expr.Written)

include hexpr

theorem accounts_items (close : Symbol) :
    Accounts quotes s (items (expr 0) close s) (Listed Expr.Written) := by
  rw [items]
  split
  · exact accounts_ok listed_nil
  · exact (accounts_separated (hexpr 0)).mono fun ls es h => h.1

/-- The arguments of a function that is known. -/
theorem accounts_arguments {name : String} {f : SetFunction} (hl : l.token = .word name)
    (hf : SetFunction.ofName? name = some f) :
    Accounts quotes s (arguments (expr 0) s) fun us es => Expr.Written (l :: us) (.call f es) := by
  have hclose {first : Lexeme} {us : List Lexeme} {es : List Expr}
      (hfirst : first.IsSymbol .openParen) (h : Listed Expr.Written us es) :
      Begins (fun us es => Expr.Written (l :: us) (.call f es)) (first :: us) :=
    ⟨[_], es, Expr.written_call hl hf hfirst h (Token.lexeme_isSymbol .closeParen)⟩
  rw [arguments]
  refine accounts_expect (fun first s₁ _ hfirst => ?_) ?_
  · refine (accounts_items hexpr .closeParen).bind (fun es s₂ us _ hes => ?_)
      fun us es hes => hclose hfirst hes
    refine accounts_expect (fun last s₃ _ hlast => ?_) (hclose hfirst hes)
    exact accounts_ok (Expr.written_call hl hf hfirst hes hlast)
  · obtain ⟨more, es, h⟩ := hclose (Token.lexeme_isSymbol .openParen) listed_nil
    exact ⟨_, es, h⟩

/-- The number of arguments is judged when the call has been read. -/
theorem accounts_call {name : String} (hs : Consumed (.cons l s) [l] s)
    (hl : l.token = .word name) :
    Accounts quotes (.cons l s) (call (expr 0) name l.start s) Expr.Written := by
  rw [call_eq]
  split
  · exact accounts_error (.earlier (.here [] (.cons l s)) rfl nofun)
  · rename_i f hf
    have hread : Accounts quotes (.cons l s) (arguments (expr 0) s) fun us es =>
        Expr.Written us (.call f es) :=
      (accounts_arguments hexpr hl hf).behind hs
    refine hread.seq (fun es s' us hs hes => ?_) fun us es hes => begins_of hes
    dsimp only
    split
    · exact accounts_read hs hes
    · exact accounts_error (.earlier (.here [] (.cons l s)) rfl nofun)

/-- What a name begins. -/
theorem accounts_named {name : String} {bare : Bool} (hs : Consumed (.cons l s) [l] s)
    (hl : l.token = if bare then .word name else .bracketed name) :
    Accounts quotes (.cons l s) (named (expr 0) name bare l.start s) Expr.Written := by
  have hname : l.token.name? = some name := by
    rw [hl]
    cases bare <;> rfl
  rw [named]
  split
  · rename_i hcall
    obtain ⟨rfl, -⟩ := Bool.and_eq_true_iff.1 hcall
    exact accounts_call hexpr hs hl
  · split
    · rename_i f hf
      split at hf
      · rename_i hbare
        obtain ⟨rfl, -⟩ := Bool.and_eq_true_iff.1 hbare
        exact accounts_read hs (.flag hl hf)
      · cases hf
    · rename_i hflag
      -- a name that stands alone is no flag
      have halone (hdot : s.startsWith .dot = false) (w : String) (hw : l.token = .word w) :
          Flag.ofName? w = none := by
        cases bare with
        | false => cases hl.symm.trans hw
        | true =>
          cases hl.symm.trans hw
          rwa [hdot, if_pos (show (true && !false) = true from rfl)] at hflag
      refine Accounts.behind hs ?_
      cases hread : pathTail s with
      | error error =>
        refine accounts_error ((pathTail_failure hread).mono fun before h => ?_)
        obtain ⟨more, a, hne, ha⟩ := h.exists_tail
        exact ⟨more, _, .named hname (fun hnil => absurd hnil hne) ha⟩
      | ok p =>
        obtain ⟨⟨names, property?⟩, s'⟩ := p
        obtain ⟨ls, hls, ha, hrest⟩ := pathTail_result hread
        have hnamed := Expr.Written.named hname
          (fun hnil => by
            subst hnil
            obtain rfl : s = s' := hls.eq
            exact halone hrest) ha
        cases property? with
        | none => exact accounts_read hls hnamed
        | some p => exact accounts_read hls hnamed

theorem accounts_set (hl : l.IsSymbol .openBrace) :
    Accounts quotes s (items (expr 0) .closeBrace s >>= fun p => p.2.expect .closeBrace >>=
      fun s => pure (.set p.1, s)) fun us e => Expr.Written (l :: us) e := by
  have hclose {us : List Lexeme} {es : List Expr} (h : Listed Expr.Written us es) :
      Begins (fun us e => Expr.Written (l :: us) e) us :=
    ⟨[_], _, Expr.written_set hl h (Token.lexeme_isSymbol .closeBrace)⟩
  refine (accounts_items hexpr .closeBrace).bind (fun es s' us _ hes => ?_) fun us es => hclose
  refine accounts_expect (fun last s₁ _ hlast => ?_) (hclose hes)
  exact accounts_ok (Expr.written_set hl hes hlast)

theorem accounts_parentheses (hl : l.IsSymbol .openParen) :
    Accounts quotes s (separated (expr 0) s >>= fun p => p.2.expect .closeParen >>= fun s =>
      pure (.ofItems p.1, s)) fun us e => Expr.Written (l :: us) e := by
  have hclose {us : List Lexeme} {es : List Expr} (h : Listed Expr.Written us es ∧ es ≠ []) :
      Begins (fun us e => Expr.Written (l :: us) e) us :=
    ⟨[_], _, Expr.written_ofItems hl h.1 h.2 (Token.lexeme_isSymbol .closeParen)⟩
  refine (accounts_separated (hexpr 0)).bind (fun es s' us _ hes => ?_) fun us es => hclose
  refine accounts_expect (fun last s₁ _ hlast => ?_) (hclose hes)
  exact accounts_ok (Expr.written_ofItems hl hes.1 hes.2 hlast)

theorem accounts_operand : Accounts quotes s (operand expr s) Expr.Written := by
  rw [operand]
  split
  · rename_i hpeek
    obtain ⟨l, rest, rfl, hl⟩ := exists_of_peek? hpeek
    refine accounts_advance ((hexpr 3 rest).map fun ls e he => .negate hl he)
  -- Numbers and texts stand for themselves.
  · rename_i x hpeek
    obtain ⟨l, rest, rfl, hl⟩ := exists_of_peek? hpeek
    exact accounts_advance (accounts_ok (.number hl))
  · rename_i t hpeek
    obtain ⟨l, rest, rfl, hl⟩ := exists_of_peek? hpeek
    exact accounts_advance (accounts_ok (.text hl))
  · rename_i hpeek
    obtain ⟨l, rest, rfl, hl⟩ := exists_of_peek? hpeek
    exact accounts_advance (accounts_set hexpr hl)
  · rename_i hpeek
    obtain ⟨l, rest, rfl, hl⟩ := exists_of_peek? hpeek
    refine accounts_advance ?_
    -- Between parentheses there must be something.
    split
    · obtain ⟨more, e, he⟩ := begins_expr
      exact accounts_fail ⟨more ++ [_], e,
        .grouped hl he (Token.lexeme_isSymbol .closeParen)⟩ _
    · rename_i hfirst
      rw [items, if_neg hfirst]
      convert accounts_parentheses hexpr hl using 5 with p
      rcases p.1 with _ | ⟨e, _ | ⟨next, es⟩⟩ <;> rfl
  · rename_i name hpeek
    obtain ⟨l, rest, rfl, hl⟩ := exists_of_peek? hpeek
    exact accounts_past fun hrest => accounts_named hexpr hrest hl
  · rename_i name hpeek
    obtain ⟨l, rest, rfl, hl⟩ := exists_of_peek? hpeek
    exact accounts_past fun hrest => accounts_named hexpr hrest hl
  · exact accounts_fail begins_expr _

/-- A chain goes on from a left operand that is read already. -/
theorem accounts_chain {least : Nat} {left : Expr} (hleft : left.Written ls) :
    Accounts quotes s (chain expr least left s) fun us e => Expr.Written (ls ++ us) e := by
  have hstop {left : Expr} {ls : List Lexeme} (hleft : left.Written ls) :
      Expr.Written (ls ++ []) left := by
    rwa [List.append_nil]
  induction hn : s.size using Nat.strong_induction_on generalizing s ls left with
  | _ n ih =>
    rw [chain]
    split
    · exact accounts_ok (hstop hleft)
    · rename_i op hop
      split
      · exact accounts_ok (hstop hleft)
      · obtain ⟨l, rest, rfl, hl⟩ := exists_of_operator? hop
        have hbinary {us : List Lexeme} {right : Expr} (hright : right.Written us) :
            Expr.Written (ls ++ l :: us) (.binary op left right) :=
          .binary hleft hl hright
        refine accounts_advance ((hexpr _ rest).bind (fun right s₂ us hs hright => ?_)
          fun us right hright => begins_of (hbinary hright))
        -- The operator alone makes the rest shorter, so the chain goes on.
        have hshorter : s₂.size < (cons l rest).size := by
          rw [hs.eq, size, size_prepend]
          omega
        dsimp only
        rw [if_pos hshorter]
        refine (ih _ (hn ▸ hshorter) (hbinary hright) rfl).mono fun vs e he => ?_
        rwa [List.append_assoc] at he

omit hexpr

theorem accounts_exprWithin (levels least : Nat) :
    Accounts quotes s (exprWithin levels least s) Expr.Written := by
  induction levels generalizing least s with
  | zero => exact accounts_fail begins_expr _
  | succ levels ih =>
    have hexpr (least : Nat) (s : Lexemes) :
        Accounts quotes s (exprWithin levels least s) Expr.Written :=
      ih least
    exact (accounts_operand hexpr).bind (fun left s' ls _ hleft => accounts_chain hexpr hleft)
      fun ls e he => begins_of he

end Expr

theorem accounts_expr : Accounts quotes s (expr s) Expr.Written :=
  accounts_exprWithin nestingLimit 0

end CubeQuery.Language
