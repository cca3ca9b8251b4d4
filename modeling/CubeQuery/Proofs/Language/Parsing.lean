import CubeQuery.Proofs.Language.Accepting
import CubeQuery.Proofs.Language.Grammar

/-!
The parser and the grammar. Whatever the parser returns, it returns for tokens of that form; and
tokens of that form it reads, however they are followed by what cannot belong to them.
-/

namespace CubeQuery.Language

open CubeQuery.Text Grammar

variable {α β : Type} {s : Lexemes} {t : Token} {ts us : List Token}
  {form : List Token → α → Prop} {form' : List Token → β → Prop} {rest rest' : List Token → Prop}

/-! ### Tokens taken -/

/-- A result is of the form that belongs to the tokens taken for it, and the parser stops where it
has to. -/
def Takes (r : Except SyntaxError (α × Lexemes)) (ts : List Token) (form : List Token → α → Prop)
    (rest : List Token → Prop) : Prop :=
  ∀ a s, r = .ok (a, s) → ∃ used us, ts = used ++ us ∧ form used a ∧ s.Spells us ∧ rest us

theorem takes_ok {a : α} (ha : form [] a) (hs : s.Spells ts) (hrest : rest ts) :
    Takes (.ok (a, s)) ts form rest := by
  rintro _ _ ⟨⟩
  exact ⟨[], ts, rfl, ha, hs, hrest⟩

theorem takes_error {error : SyntaxError} : Takes (.error error) ts form rest := by
  rintro _ _ ⟨⟩

theorem Takes.mono {r : Except SyntaxError (α × Lexemes)} {form₁ : List Token → α → Prop}
    (h : Takes r ts form rest) (hform : ∀ used a, form used a → form₁ used a) :
    Takes r ts form₁ rest := by
  intro a s hr
  obtain ⟨used, us, hts, ha, hs, hus⟩ := h a s hr
  exact ⟨used, us, hts, hform used a ha, hs, hus⟩

/-- One parser after another: the tokens of both. -/
theorem Takes.bind {r : Except SyntaxError (α × Lexemes)}
    {f : α × Lexemes → Except SyntaxError (β × Lexemes)} (h : Takes r ts form rest)
    (hf : ∀ a s used us, ts = used ++ us → form used a → s.Spells us → rest us →
      Takes (f (a, s)) us (fun more b => form' (used ++ more) b) rest') :
    Takes (r >>= f) ts form' rest' := by
  intro b s' hb
  obtain ⟨⟨a, s⟩, hr, hb⟩ := exists_of_bind_eq_ok hb
  obtain ⟨used, us, rfl, ha, hs, hus⟩ := h a s hr
  obtain ⟨more, vs, rfl, hform, hs', hvs⟩ := hf a s used us rfl ha hs hus b s' hb
  exact ⟨used ++ more, vs, (List.append_assoc used more vs).symm, hform, hs', hvs⟩

/-- A token taken before. -/
theorem Takes.cons {r : Except SyntaxError (α × Lexemes)}
    (h : Takes r ts (fun used a => form (t :: used) a) rest) : Takes r (t :: ts) form rest := by
  intro a s hr
  obtain ⟨used, us, rfl, ha, hs, hus⟩ := h a s hr
  exact ⟨t :: used, us, rfl, ha, hs, hus⟩

theorem takes_advance {f : Lexemes → Except SyntaxError (α × Lexemes)} (hs : s.Spells (t :: ts))
    (hf : ∀ s, s.Spells ts → Takes (f s) ts (fun used a => form (t :: used) a) rest) :
    Takes (s.advance >>= f) (t :: ts) form rest := by
  obtain ⟨s₁, hadvance, hs₁⟩ := hs.advance
  rw [hadvance]
  exact Takes.cons (hf s₁ hs₁)

theorem Lexemes.Spells.of_peek? (hs : s.Spells ts) (h : s.peek? = some t) :
    ∃ us, ts = t :: us := by
  rw [hs.peek?] at h
  cases ts with
  | nil => cases h
  | cons t' us => exact ⟨us, congrArg (· :: us) (Option.some.inj h)⟩

/-- What the parser does at a token that it looks at first. -/
theorem takes_peeked {f : Lexemes → Except SyntaxError (α × Lexemes)} (hs : s.Spells ts)
    (hpeek : s.peek? = some t) (hf : ∀ s us, ts = t :: us → s.Spells us →
      Takes (f s) us (fun used a => form (t :: used) a) rest) :
    Takes (s.advance >>= f) ts form rest := by
  obtain ⟨us, rfl⟩ := hs.of_peek? hpeek
  exact takes_advance hs fun s₁ hs₁ => hf s₁ us rfl hs₁

theorem takes_expect {x : Symbol} {f : Lexemes → Except SyntaxError (α × Lexemes)}
    (hs : s.Spells ts) (hf : ∀ s us, ts = .symbol x :: us → s.Spells us →
      Takes (f s) us (fun used a => form (.symbol x :: used) a) rest) :
    Takes (s.expect x >>= f) ts form rest := by
  rw [Lexemes.expect]
  by_cases hstart : s.startsWith x = true
  · rw [if_pos hstart]
    exact takes_peeked hs (eq_of_beq hstart) hf
  · rw [if_neg hstart]
    exact takes_error

/-- Items with commas between them. -/
theorem takes_separated {item : Parser α}
    (hitem : ∀ s ts, s.Spells ts → Takes (item s) ts form rest) (hs : s.Spells ts) :
    Takes (separated item s) ts (fun used as => ∃ items : List (List Token × α), items ≠ [] ∧
      used = commaTokens (items.map Prod.fst) ∧ as = items.map Prod.snd ∧
        ∀ p ∈ items, form p.1 p.2) (fun _ => True) := by
  induction hn : ts.length using Nat.strong_induction_on generalizing s ts with
  | _ n ih =>
    rw [separated]
    refine (hitem s ts hs).bind fun a s₁ used us hts ha hs₁ _ => ?_
    have hsingle : ∃ items : List (List Token × α), items ≠ [] ∧
        used ++ [] = commaTokens (items.map Prod.fst) ∧ [a] = items.map Prod.snd ∧
          ∀ p ∈ items, form p.1 p.2 := by
      refine ⟨[(used, a)], List.cons_ne_nil _ _, ?_, rfl, List.forall_mem_singleton.2 ha⟩
      rw [List.map_singleton, commaTokens_single, List.append_nil]
    dsimp only
    by_cases hcomma : s₁.startsWith .comma = true
    · rw [if_pos hcomma]
      refine takes_peeked hs₁ (eq_of_beq hcomma) fun s₂ vs hus hs₂ => ?_
      -- The comma alone makes what is left shorter, so the guard of the loop lets it go on.
      have hshorter : vs.length < ts.length := by
        rw [hts, hus, List.length_append, List.length_cons]
        omega
      rw [if_pos (by rwa [hs₂.size, hs.size])]
      refine (ih _ (hn ▸ hshorter) hs₂ rfl).bind fun as s₃ used' ws hvs has hs₃ _ => ?_
      obtain ⟨items, hne, rfl, rfl, hitems⟩ := has
      refine takes_ok ?_ hs₃ trivial
      have hall : ∀ p ∈ (used, a) :: items, form p.1 p.2 := List.forall_mem_cons.2 ⟨ha, hitems⟩
      refine ⟨(used, a) :: items, List.cons_ne_nil _ _, ?_, rfl, hall⟩
      obtain ⟨next, items, rfl⟩ := List.exists_cons_of_ne_nil hne
      rw [List.map_cons, List.map_cons, List.map_cons, commaTokens_cons_cons, List.append_nil]
    · rw [if_neg hcomma]
      exact takes_ok hsingle hs₁ trivial

/-! ### Soundness -/

theorem takes_pathTail (hs : s.Spells ts) :
    Takes (pathTail s) ts (fun used a => PathTail used a.1 a.2)
      (·.head? ≠ some (.symbol .dot)) := by
  -- The path ends here; what follows does not start with a dot, since the path would go on.
  have hnone {s : Lexemes} {ts : List Token} (hs : s.Spells ts)
      (hstart : s.startsWith .dot = false) :
      Takes (.ok (([], none), s)) ts (fun used a => PathTail used a.1 a.2)
        (·.head? ≠ some (.symbol .dot)) := by
    refine takes_ok .nil hs fun hdot => ?_
    rw [hs.startsWith, hdot] at hstart
    cases hstart
  -- Whether a word is a property depends only on the tokens that follow it.
  have hword {s : Lexemes} {ts : List Token} {w : String} (hs : s.Spells ts) :
      (if s.startsWith .dot then none else Property.ofName? w) =
        if ts.head? = some (.symbol .dot) then none else Property.ofName? w := by
    rw [hs.startsWith]
    exact if_congr beq_iff_eq rfl rfl
  fun_induction pathTail s generalizing ts with
  -- A name in brackets.
  | case2 l next hdot rest hrest name hnext ih =>
    cases hs with
    | cons _ hs =>
      cases hs with
      | cons _ hs =>
        rw [hdot, hnext]
        refine Takes.cons (Takes.cons ((ih hs).bind fun a s₁ used us _ ha hs₁ hus => ?_))
        refine takes_ok ?_ hs₁ hus
        rw [List.append_nil]
        exact .name rfl (fun _ _ h => Token.noConfusion h) ha
  -- The last word, which is the name of a property.
  | case3 l next hdot rest hrest w hnext p hp =>
    cases hs with
    | cons _ hs =>
      cases hs with
      | cons _ hs =>
        rw [hword hs] at hp
        split at hp
        · cases hp
        · rename_i hstop
          rw [hdot, hnext]
          exact Takes.cons (Takes.cons (takes_ok (.property hp) hs hstop))
  -- Any other word.
  | case4 l next hdot rest hrest w hnext hlast ih =>
    cases hs with
    | cons _ hs =>
      cases hs with
      | cons _ hs =>
        rw [hword hs] at hlast
        rw [hdot, hnext]
        refine Takes.cons (Takes.cons ((ih hs).bind fun a s₁ used us hts ha hs₁ hus => ?_))
        refine takes_ok ?_ hs₁ hus
        rw [List.append_nil]
        refine .name rfl ?_ ha
        rintro rfl _ ⟨⟩
        rw [hts, List.nil_append, if_neg hus] at hlast
        exact hlast
  -- No dot follows, or nothing does.
  | case6 l next rest hdot => exact hnone hs (Lexemes.startsWith_of_ne hdot)
  | case8 l error hdot => exact hnone hs (Lexemes.startsWith_of_ne hdot)
  | case10 l position hdot => exact hnone hs (Lexemes.startsWith_of_ne hdot)
  | case11 s hpair hbroken hfinish =>
    cases hs with
    | finish position => exact hnone (.finish position) rfl
    | cons l hs =>
      cases hs with
      | finish position => exact (hfinish l position rfl).elim
      | cons next hs => exact (hpair l next _ rfl).elim
  | _ => exact takes_error

theorem Token.eq_of_operator? (t : Token) {op : Operator} (h : t.operator? = some op) :
    t = op.token := by
  cases t with
  | symbol x => cases x <;> cases h <;> rfl
  | _ => cases h

theorem Quiet.of_append {least : Nat} (h : Quiet least (ts ++ us)) : Quiet least ts := by
  cases ts with
  | nil => nofun
  | cons t ts => exact h

section Expr

variable {expr : Nat → Parser Expr} {inner : Form}

theorem takes_items {item : Parser Expr} {form : List Token → Expr → Prop} {close : Symbol}
    (hitem : ∀ s ts, s.Spells ts → Takes (item s) ts form rest) (hs : s.Spells ts) :
    Takes (items item close s) ts (fun used es => ∃ items : List (List Token × Expr),
      used = commaTokens (items.map Prod.fst) ∧ es = items.map Prod.snd ∧
        ∀ p ∈ items, form p.1 p.2) (fun _ => True) := by
  rw [items]
  split
  · exact takes_ok ⟨[], rfl, rfl, List.forall_mem_nil _⟩ hs trivial
  · refine (takes_separated hitem hs).mono ?_
    rintro used es ⟨items, -, h⟩
    exact ⟨items, h⟩

variable (hexpr : ∀ least s ts, s.Spells ts → Takes (expr least s) ts (inner least) (Quiet least))

include hexpr

theorem takes_call {name : String} {position : Nat} (hs : s.Spells ts) :
    Takes (call (expr 0) name position s) ts (fun used e => Operand inner (.word name :: used) e)
      (fun _ => True) := by
  rw [call]
  split
  · exact takes_error
  · rename_i f hf
    refine takes_expect hs fun s₁ us _ hs₁ => ?_
    refine (takes_items (hexpr 0) hs₁).bind fun es s₂ used vs _ hes hs₂ _ => ?_
    obtain ⟨items, rfl, rfl, hitems⟩ := hes
    refine takes_expect hs₂ fun s₃ ws _ hs₃ => ?_
    split
    · rename_i harity
      rw [List.length_map] at harity
      exact takes_ok (.call hf harity hitems) hs₃ trivial
    · exact takes_error

theorem takes_named {name : String} {bare : Bool} {position : Nat} (hs : s.Spells ts) :
    Takes (named (expr 0) name bare position s) ts
      (fun used e => Operand inner ((if bare then .word name else .bracketed name) :: used) e)
      (fun _ => True) := by
  rw [named]
  split
  · rename_i hcall
    -- Only a bare word is taken for the name of a function.
    obtain ⟨rfl, -⟩ := Bool.and_eq_true_iff.1 hcall
    exact takes_call hexpr hs
  · split
    · rename_i f hf
      split at hf
      · rename_i hbare
        obtain ⟨rfl, -⟩ := Bool.and_eq_true_iff.1 hbare
        exact takes_ok (.flag hf) hs trivial
      · cases hf
    · rename_i hflag
      refine (takes_pathTail hs).bind fun a s₁ used us hts ha hs₁ hus => ?_
      obtain ⟨names, property?⟩ := a
      have hnamed : Operand inner ((if bare then .word name else .bracketed name) :: (used ++ []))
          (property?.elim (.path ⟨name :: names, position⟩)
            (.property ⟨name :: names, position⟩)) := by
        rw [List.append_nil]
        refine .named position (by cases bare <;> rfl) ?_ ha
        -- A bare word that stands alone is no flag: the flags were tried before.
        rintro rfl w hw
        have hdot : s.startsWith .dot = false := by
          apply hs.not_startsWith
          rwa [hts]
        cases bare with
        | false => cases hw
        | true =>
          cases hw
          rwa [hdot, if_pos (show (true && !false) = true from rfl)] at hflag
      cases property? with
      | none => exact takes_ok hnamed hs₁ trivial
      | some p => exact takes_ok hnamed hs₁ trivial

theorem takes_operand (hs : s.Spells ts) :
    Takes (operand expr s) ts (Operand inner) (fun _ => True) := by
  rw [operand]
  split
  -- A sign.
  · rename_i hpeek
    refine takes_peeked hs hpeek fun s₁ us _ hs₁ => ?_
    refine (hexpr 3 s₁ us hs₁).bind fun e s₂ used vs _ he hs₂ _ => ?_
    refine takes_ok ?_ hs₂ trivial
    rw [List.append_nil]
    exact .negate he
  -- A number, a text.
  · rename_i x hpeek
    exact takes_peeked hs hpeek fun s₁ us _ hs₁ => takes_ok (.number x) hs₁ trivial
  · rename_i text hpeek
    exact takes_peeked hs hpeek fun s₁ us _ hs₁ => takes_ok (.text text) hs₁ trivial
  -- Braces, which may be empty.
  · rename_i hpeek
    refine takes_peeked hs hpeek fun s₁ us _ hs₁ => ?_
    refine (takes_items (hexpr 0) hs₁).bind fun es s₂ used vs _ hes hs₂ _ => ?_
    obtain ⟨items, rfl, rfl, hitems⟩ := hes
    exact takes_expect hs₂ fun s₃ ws _ hs₃ => takes_ok (.set hitems) hs₃ trivial
  -- Parentheses, which group one expression and make a tuple of more.
  · rename_i hpeek
    refine takes_peeked hs hpeek fun s₁ us _ hs₁ => ?_
    split
    · exact takes_error
    · rename_i hfirst
      rw [items, if_neg hfirst]
      refine (takes_separated (hexpr 0) hs₁).bind fun es s₂ used vs _ hes hs₂ _ => ?_
      obtain ⟨items, hne, rfl, rfl, hitems⟩ := hes
      refine takes_expect hs₂ fun s₃ ws _ hs₃ => ?_
      cases items with
      | nil => exact absurd rfl hne
      | cons p items =>
        cases items with
        | nil =>
          refine takes_ok ?_ hs₃ trivial
          rw [List.map_singleton, commaTokens_single]
          exact .grouped (hitems p List.mem_cons_self)
        | cons next items =>
          exact takes_ok (.tuple (Nat.le_add_left 2 items.length) hitems) hs₃ trivial
  -- A name, bare or in brackets.
  · rename_i name hpeek
    exact takes_peeked hs hpeek fun s₁ us _ hs₁ => takes_named hexpr hs₁
  · rename_i name hpeek
    exact takes_peeked hs hpeek fun s₁ us _ hs₁ => takes_named hexpr hs₁
  · exact takes_error

theorem takes_chain {least : Nat} {left : Expr} (hs : s.Spells ts) :
    Takes (chain expr least left s) ts (Chain inner least left) (Quiet least) := by
  induction hn : ts.length using Nat.strong_induction_on generalizing s ts left with
  | _ n ih =>
    rw [chain, hs.operator?]
    split
    · rename_i hnone
      exact takes_ok (.nil left) hs (by rw [Quiet, hnone]; nofun)
    · rename_i op hop
      split
      · rename_i hlow
        refine takes_ok (.nil left) hs ?_
        rw [Quiet, hop]
        rintro _ ⟨⟩
        exact hlow
      · rename_i hlow
        obtain ⟨us, rfl⟩ : ∃ us, ts = op.token :: us := by
          obtain ⟨t, hhead, ht⟩ := Option.bind_eq_some_iff.1 hop
          obtain ⟨us, rfl⟩ := List.head?_eq_some_iff.1 hhead
          exact ⟨us, congrArg (· :: us) (t.eq_of_operator? ht)⟩
        refine takes_advance hs fun s₁ hs₁ => ?_
        refine (hexpr _ s₁ us hs₁).bind fun right s₂ used vs hus hright hs₂ hquiet => ?_
        -- The operator alone makes what is left shorter, so the guard of the loop lets it go on.
        have hshorter : vs.length < (op.token :: us).length := by
          rw [hus, List.length_cons, List.length_append]
          omega
        dsimp only
        rw [if_pos (by rwa [hs₂.size, hs.size])]
        intro e s₃ hr
        obtain ⟨more, ws, rfl, he, hs₃, hws⟩ := ih _ (hn ▸ hshorter) hs₂ rfl e s₃ hr
        exact ⟨more, ws, rfl, .step (Nat.le_of_not_lt hlow) hright hquiet.of_append he, hs₃, hws⟩

omit hexpr

theorem takes_exprWithin (levels least : Nat) (hs : s.Spells ts) :
    Takes (exprWithin levels least s) ts (Within levels least) (Quiet least) := by
  induction levels generalizing least s ts with
  | zero =>
    rintro a s' h
    cases s <;> cases h
  | succ levels ih =>
    have hexpr : ∀ least s ts, s.Spells ts →
        Takes (exprWithin levels least s) ts (Within levels least) (Quiet least) :=
      fun least s ts hs => ih least hs
    rw [exprWithin]
    refine (takes_operand hexpr hs).bind fun left s₁ us vs _ hleft hs₁ _ => ?_
    refine (takes_chain hexpr hs₁).mono fun more e he => ?_
    exact ⟨us, more, left, rfl, hleft, he⟩

end Expr

/-! ### Completeness -/

section Expr

variable {expr : Nat → Parser Expr} {inner : Form} {e : Expr} {items : List (List Token × Expr)}

/-- Whatever is of the form is read where it may end, and it is never taken for an empty list. -/
structure Covers (expr : Nat → Parser Expr) (inner : Form) : Prop where
  reads {least : Nat} {ts : List Token} {e : Expr} (h : inner least ts e) {s : Lexemes}
    {us : List Token} (hs : s.Spells (ts ++ us)) (hus : Follows us) (hquiet : Quiet least us) :
    Reads (expr least s) True (fun a => a.unplaced = e.unplaced) us
  first {ts : List Token} {e : Expr} (h : inner 0 ts e) {close : Symbol}
    (hclose : close = .closeParen ∨ close = .closeBrace) (us : List Token) :
    (ts ++ us).head? ≠ some (.symbol close)

namespace Covers

theorem reads_items (h : Covers expr inner) (hitems : ∀ p ∈ items, inner 0 p.1 p.2) {close : Symbol}
    (hclose : close = .closeParen ∨ close = .closeBrace)
    (hs : s.Spells (commaTokens (items.map Prod.fst) ++ .symbol close :: us)) :
    Reads (Language.items (expr 0) close s) True
      (fun es => es.map Expr.unplaced = (items.map Prod.snd).map Expr.unplaced)
      (.symbol close :: us) := by
  have hread : Reads (Language.items (expr 0) close s) (∀ p ∈ items, True)
      (fun es => es.map Expr.unplaced = (items.map Prod.snd).map Expr.unplaced)
      (.symbol close :: us) :=
    Expr.reads_items hclose (fun p hp us => h.first (hitems p hp) hclose us)
      (fun p hp s us hs hus => h.reads (hitems p hp) hs hus.1 hus.2) hs
  exact hread.congr (iff_true_intro fun _ _ => trivial)

theorem reads_operand (h : Covers expr inner) (ht : Operand inner ts e) (hs : s.Spells (ts ++ us))
    (hus : Follows us) :
    Reads (operand expr s) True (fun a => a.unplaced = e.unplaced) us := by
  cases ht with
  | number x =>
    rw [operand, hs.peek?]
    exact Moves.bind hs.advance fun s₁ hs₁ => reads_ok trivial rfl hs₁
  | text x =>
    rw [operand, hs.peek?]
    exact Moves.bind hs.advance fun s₁ hs₁ => reads_ok trivial rfl hs₁
  | flag hw => exact Expr.reads_flag hw hs hus
  | @named t name ts names property? position ht halone htail =>
    -- The path may have been written at another position.
    have hunplaced (position' : Nat) (a : Expr)
        (ha : a = property?.elim (.path ⟨name :: names, position'⟩)
          (.property ⟨name :: names, position'⟩)) :
        a.unplaced = (property?.elim (Expr.path ⟨name :: names, position⟩)
          (.property ⟨name :: names, position⟩)).unplaced := by
      subst ha
      cases property? <;> rfl
    rw [operand, hs.peek?]
    cases t with
    | word w =>
      cases ht
      refine Moves.bind hs.advance fun s₁ hs₁ => ?_
      exact (Expr.reads_named (fun hnil _ => halone hnil _ rfl) htail hs₁ hus).mono (hunplaced _)
    | bracketed w =>
      cases ht
      refine Moves.bind hs.advance fun s₁ hs₁ => ?_
      have hbracketed : ts = [] → false = true → Flag.ofName? name = none :=
        fun _ h => (Bool.false_ne_true h).elim
      exact (Expr.reads_named hbracketed htail hs₁ hus).mono (hunplaced _)
    | _ => cases ht
  | negate he => exact Expr.reads_negation hs fun s₁ hs₁ => h.reads he hs₁ hus quiet_three
  | grouped he =>
    have hclose : Closed (.symbol .closeParen :: us) :=
      ⟨follows_cons (by decide) (by decide), quiet_cons rfl⟩
    rw [List.cons_append, List.append_assoc] at hs
    exact Expr.reads_grouped hs (h.first he (.inl rfl) _) fun s₁ hs₁ =>
      h.reads he hs₁ hclose.1 hclose.2
  | set hitems =>
    rw [List.cons_append, List.append_assoc] at hs
    exact Expr.reads_set hs fun s₁ hs₁ => h.reads_items hitems (.inr rfl) hs₁
  | @tuple items hlength hitems =>
    rw [List.cons_append, List.append_assoc] at hs
    have hne : items ≠ [] := by
      rintro rfl
      cases hlength
    -- An empty pair of parentheses is refused, and no item starts with the closing one.
    have hfirst : (commaTokens (items.map Prod.fst) ++ ([Token.symbol .closeParen] ++ us)).head? ≠
        some (.symbol .closeParen) :=
      Expr.commaTokens_head_ne hne fun p hp us => h.first (hitems p hp) (.inl rfl) us
    exact Expr.reads_tuple (by rwa [List.length_map]) hs hfirst fun s₁ hs₁ =>
      h.reads_items hitems (.inl rfl) hs₁
  | @call w f items hw harity hitems =>
    rw [List.cons_append, List.cons_append, List.append_assoc] at hs
    exact Expr.reads_call hw (by rwa [List.length_map]) hs fun s₁ hs₁ =>
      h.reads_items hitems (.inl rfl) hs₁

theorem reads_chain (h : Covers expr inner) {least : Nat} {left left' : Expr}
    (ht : Chain inner least left ts e) (hleft : left'.unplaced = left.unplaced)
    (hs : s.Spells (ts ++ us)) (hus : Follows us) (hquiet : Quiet least us) :
    Reads (chain expr least left' s) True (fun a => a.unplaced = e.unplaced) us := by
  induction ht generalizing left' s with
  | nil left =>
    rw [Expr.chain_stop hs hquiet]
    exact reads_ok trivial hleft hs
  | @step left right e op ts vs hop hright hvs ht ih =>
    rw [List.cons_append, List.append_assoc] at hs
    rw [chain, hs.operator?, List.head?_cons, Option.bind_some, operator?_token]
    dsimp only
    rw [if_neg (Nat.not_lt_of_le hop)]
    refine Moves.bind hs.advance fun s₁ hs₁ => ?_
    have hquiet : Quiet (op.precedence + 1) (vs ++ us) := by
      cases vs with
      | nil => exact fun op' hop' => (hquiet op' hop').trans_le (Nat.le_succ_of_le hop)
      | cons t vs => exact hvs
    refine (h.reads hright hs₁ (ht.follows hus) hquiet).map fun b s₂ hb hs₂ => ?_
    have hshorter : s₂.size < s.size := by
      rw [hs₂.size, hs.size]
      simp only [List.length_append, List.length_cons]
      omega
    dsimp only
    rw [if_pos hshorter]
    exact ih (by rw [Expr.unplaced, Expr.unplaced, hleft, hb]) hs₂

end Covers

theorem covers_exprWithin (levels : Nat) : Covers (exprWithin levels) (Within levels) := by
  induction levels with
  | zero => exact ⟨fun h => h.elim, fun h => h.elim⟩
  | succ levels ih =>
    refine ⟨?_, fun h close hclose us => h.head_ne hclose⟩
    rintro least ts e ⟨ts₁, ts₂, left, rfl, hoperand, hchain⟩ s us hs hus hquiet
    rw [List.append_assoc] at hs
    rw [exprWithin]
    refine (ih.reads_operand hoperand hs (hchain.follows hus)).map fun left' s₁ hleft hs₁ => ?_
    exact ih.reads_chain hchain hleft hs₁ hus hquiet

end Expr

/-! ### Whole texts -/

variable {text : String} {levels : Nat} {e : Expr}

/-- The parser accepts only what the grammar has. -/
theorem Expr.within_of_ofTextWithin (hs : Spelled text.toList ts)
    (h : ofTextWithin levels text = .ok e) : Within levels 0 ts e := by
  have hspells : (Lexemes.ofQuery text).Spells ts := hs.scan 0
  rw [ofTextWithin, hspells.checked] at h
  change (exprWithin levels 0 (Lexemes.ofQuery text) >>= _) = _ at h
  obtain ⟨⟨e', s⟩, hread, h⟩ := exists_of_bind_eq_ok h
  obtain ⟨used, us, rfl, he, hs', -⟩ := takes_exprWithin levels 0 hspells e' s hread
  dsimp only at h
  split at h
  · rename_i hend
    cases h
    rw [Lexemes.atEnd, hs'.peek?, Option.isNone_iff_eq_none, List.head?_eq_none_iff] at hend
    subst hend
    rwa [List.append_nil]
  · cases h

/-- The parser accepts all that the grammar has. -/
theorem Expr.ofTextWithin_of_within (hs : Spelled text.toList ts) (h : Within levels 0 ts e) :
    ∃ e', ofTextWithin levels text = .ok e' ∧ e'.unplaced = e.unplaced := by
  have hspells : (Lexemes.ofQuery text).Spells (ts ++ []) := (List.append_nil ts).symm ▸ hs.scan 0
  exact ofTextWithin_of_reads hspells
    ((covers_exprWithin levels).reads h hspells closed_nil.1 closed_nil.2) trivial

end CubeQuery.Language
