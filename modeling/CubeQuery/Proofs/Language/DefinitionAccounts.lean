import CubeQuery.Proofs.Language.ExpressionAccounts

/-!
The parsers of definitions account for what they do. A quoted body is accounted for by its own
lexemes.
-/

namespace CubeQuery.Language

open Lexemes CubeQuery.Text CubeQuery.Number

variable {α : Type} {quotes : Prop} {s rest : Lexemes} {ls us before : List Lexeme} {l : Lexeme}
  {form : List Lexeme → α → Prop} {e : SyntaxError}

/-! ### Quoted bodies -/

theorem Reaches.enter (h : Reaches False (ofQuoted (l.start + 1) text) before rest)
    (hl : l.token = .quoted text) (after : Lexemes) : Reaches True (.cons l after) before rest :=
  .inside trivial [] hl after h.eq_prepend

theorem Blame.enter {viable viable' : List Lexeme → Prop}
    (h : Blame False (ofQuoted (l.start + 1) text) viable e) (hl : l.token = .quoted text)
    (hviable : ∀ before, viable before → viable' before) (after : Lexemes) :
    Blame True (.cons l after) viable' e := by
  cases h with
  | token before more h hbefore hmore he =>
    exact .token before more (h.enter hl after) (hviable before hbefore) hmore he
  | broken h => exact .broken (h.enter hl after)
  | earlier h hposition hfault => exact .earlier (h.enter hl after) hposition hfault

theorem Begins.body (h : Begins Expr.Written ls) : Begins Expr.WrittenBody ls := by
  obtain ⟨more, e, he⟩ := h
  exact ⟨more, e, .plain he⟩

theorem exists_of_atEnd (h : s.atEnd = true) (hs : ∀ error, s ≠ .broken error) :
    ∃ position, s = .finish position := by
  cases s with
  | finish position => exact ⟨position, rfl⟩
  | broken error => exact absurd rfl (hs error)
  | cons l rest => cases h

/-- A sequence that is checked can be read, or it fails where it cannot. -/
theorem checked_cases (s : Lexemes) : s.checked = .ok s ∧ (∀ error, s ≠ .broken error) ∨
    ∃ error, s = .broken error ∧ s.checked = .error error := by
  cases s with
  | broken error => exact .inr ⟨error, rfl, rfl⟩
  | _ => exact .inl ⟨rfl, nofun⟩

theorem fault_of_readable (hs : ∀ error, s ≠ .broken error) (f : SyntaxFault) :
    (s.fault f).fault = f := by
  cases s with
  | broken error => exact absurd rfl (hs error)
  | _ => rfl

theorem Consumed.readable_of (h : Consumed s ls rest) (hs : ∀ error, s ≠ .broken error)
    (error : SyntaxError) : rest ≠ .broken error := by
  by_cases hnil : ls = []
  · subst hnil
    exact (show s = rest from h.eq) ▸ hs error
  · exact h.readable hnil error

theorem accounts_definitionBody : Accounts True s (definitionBody s) Expr.WrittenBody := by
  rw [definitionBody]
  split
  · rename_i text hpeek
    obtain ⟨l, rest, rfl, hl⟩ := exists_of_peek? hpeek
    refine accounts_past fun hrest => ?_
    have hbody {error : SyntaxError}
        (h : Blame False (ofQuoted (l.start + 1) text) (Begins Expr.Written) error) :
        Blame True (.cons l rest) (Begins Expr.WrittenBody) error :=
      h.enter hl (fun _ => .body) rest
    rcases checked_cases (ofQuoted (l.start + 1) text) with ⟨hinner, hreadable⟩ |
      ⟨error, hbroken, hinner⟩
    · rw [position, hinner]
      have hexpr : Accounts False (ofQuoted (l.start + 1) text) _ Expr.Written := accounts_expr
      show Accounts True _ (expr (ofQuoted (l.start + 1) text) >>= _) _
      cases hread : expr (ofQuoted (l.start + 1) text) with
      | error error => exact accounts_error (hbody (hexpr.failure hread))
      | ok p =>
        obtain ⟨e, inner⟩ := p
        obtain ⟨ls, hls, he⟩ := hexpr.result hread
        show Accounts True _ (if inner.atEnd then _ else _) _
        split
        · rename_i hend
          obtain ⟨position, rfl⟩ := exists_of_atEnd hend (hls.readable_of hreadable)
          exact accounts_read hrest (.quoted hl hls.eq he)
        · refine accounts_error (hbody (.token ls [] ?_ (begins_of he) (.none _) (fault_fault _ _)))
          rw [List.append_nil, hls.eq]
          exact .here ls inner
    · have hhere : Reaches False (ofQuoted (l.start + 1) text) [] (.broken error) := by
        rw [hbroken]
        exact .here [] _
      rw [position, hinner]
      exact accounts_error (hbody (.broken hhere))
  · exact accounts_expr.mono fun ls e he => .plain he

/-! ### Settings -/

/-- Takes a token if it is accepted, but drops it before it is judged. -/
def judged (accept : Token → Option α) (what : Expectation) : Parser α := fun s =>
  s.advance >>= fun rest => match s.peek?.bind accept with
    | some a => pure (a, rest)
    | none => rest.fail (.expected what)

theorem accounts_judged {accept : Token → Option α} {what : Expectation}
    (hform : ∀ l a, accept l.token = some a → form [l] a) (hbegins : Begins form [])
    (hwhat : what = .nameAfterDot ∨ what = .formatText ∨ what = .cellProperty) :
    Accounts quotes s (judged accept what s) form := by
  rw [judged]
  cases s with
  | broken error => exact accounts_error (.broken (.here [] _))
  | finish position => exact accounts_fail hbegins _
  | cons l rest =>
    refine accounts_past fun hrest => ?_
    rw [peek?, Option.bind_some]
    split
    · rename_i a ha
      exact accounts_read hrest (hform l a ha)
    · refine accounts_error (.token [] [l] (.here [l] rest) hbegins ?_ (fault_fault _ _))
      rw [fault_of_readable (hrest.readable (List.cons_ne_nil l []))]
      exact .dropped l hwhat

/-- The text that a token gives for a format. -/
def Token.formatText? : Token → Option String
  | .text t | .quoted t => some t
  | _ => none

theorem Token.of_formatText? {t : Token} {text : String} (h : t.formatText? = some text) :
    t = .text text ∨ t = .quoted text := by
  cases t <;> cases h
  · exact .inl rfl
  · exact .inr rfl

theorem begins_format {comma word equals : Lexeme} (hcomma : comma.IsSymbol .comma)
    (hword : word.IsWord "FORMAT_STRING") (hequals : equals.IsSymbol .equals) :
    Begins (fun us a => MemberSetting.Written (comma :: word :: equals :: us) a) [] :=
  ⟨[(Token.text "").lexeme], _, .format hcomma hword hequals (.inl rfl)⟩

theorem accounts_format {comma word equals : Lexeme} (hcomma : comma.IsSymbol .comma)
    (hword : word.IsWord "FORMAT_STRING") (hequals : equals.IsSymbol .equals) :
    Accounts quotes s (s.advance >>= fun rest => match s.peek? with
      | some (.text t) | some (.quoted t) => pure (.format t, rest)
      | _ => rest.fail (.expected .formatText))
      fun us a => MemberSetting.Written (comma :: word :: equals :: us) a := by
  have hjudged : Accounts quotes s (judged (fun t => t.formatText?.map .format) .formatText s)
      fun us a => MemberSetting.Written (comma :: word :: equals :: us) a := by
    refine accounts_judged (fun l a ha => ?_) (begins_format hcomma hword hequals) (.inr (.inl rfl))
    obtain ⟨text, htext, rfl⟩ := Option.map_eq_some_iff.1 ha
    exact .format hcomma hword hequals (Token.of_formatText? htext)
  rw [judged] at hjudged
  convert hjudged using 3
  cases s.peek? with
  | none => rfl
  | some t => cases t <;> rfl

theorem begins_order {g : Int → α}
    (hform : ∀ l x n, l.token = .number x → solveOrder? x = some n → form [l] (g n)) :
    Begins form [] := by
  obtain ⟨x, hx⟩ : ∃ x, solveOrder? x = some 0 := ⟨_, solveOrder?_whole (Nat.zero_le _)⟩
  exact ⟨[(Token.number x).lexeme], _, hform _ x 0 rfl hx⟩

theorem accounts_order {g : Int → α}
    (hform : ∀ l x n, l.token = .number x → solveOrder? x = some n → form [l] (g n)) :
    Accounts quotes s (match s.peek? with
      | some (.number x) =>
        match solveOrder? x with
        | some n => s.advance >>= fun s => pure (g n, s)
        | none => s.fail (.expected .solveOrder)
      | _ => s.fail (.expected .solveOrder)) form := by
  split
  · rename_i x hpeek
    obtain ⟨l, rest, rfl, hl⟩ := exists_of_peek? hpeek
    split
    · rename_i n hn
      exact accounts_advance (accounts_ok (hform l x n hl hn))
    · exact accounts_fail (begins_order hform) _
  · exact accounts_fail (begins_order hform) _

theorem accounts_memberSetting (hs : s.startsWith .comma = true) :
    Accounts quotes s (memberSetting s) MemberSetting.Written := by
  obtain ⟨comma, s₁, rfl, hcomma⟩ := exists_of_startsWith hs
  have hformat {word : Lexeme} (hword : word.IsWord "FORMAT_STRING") :
      Begins (fun us a => MemberSetting.Written (comma :: word :: us) a) [] := by
    obtain ⟨more, a, h⟩ := begins_format hcomma hword (Token.lexeme_isSymbol .equals)
    exact ⟨_, a, h⟩
  rw [memberSetting]
  refine accounts_advance ?_
  split
  · rename_i hat
    obtain ⟨word, s₂, rfl, hword⟩ := exists_of_atKeyword hat
    refine accounts_advance (accounts_expect (fun equals s₃ _ hequals => ?_) (hformat hword))
    exact accounts_format hcomma hword hequals
  · split
    · rename_i hat
      obtain ⟨word, s₂, rfl, hword⟩ := exists_of_atKeyword hat
      have hplain {equals : Lexeme} (hequals : equals.IsSymbol .equals) (l : Lexeme) (x : Float)
          (n : Int) (hl : l.token = .number x) (hn : solveOrder? x = some n) :
          MemberSetting.Written [comma, word, equals, l] (.solveOrder n) :=
        .solveOrder hcomma hword hequals hl hn
      refine accounts_advance (accounts_expect (fun equals s₃ _ hequals => ?_) ?_)
      · dsimp only
        split
        · rename_i hat
          obtain ⟨minus, s₄, rfl, hminus⟩ := exists_of_startsWith hat
          refine accounts_advance (accounts_order fun l x n hl hn => ?_)
          exact .negativeOrder hcomma hword hequals hminus hl hn
        · exact accounts_order (hplain hequals)
      · obtain ⟨more, a, h⟩ : Begins (fun us a => MemberSetting.Written
            (comma :: word :: (Token.symbol .equals).lexeme :: us) a) [] :=
          begins_order (hplain (Token.lexeme_isSymbol .equals))
        exact ⟨_, a, h⟩
    · obtain ⟨more, a, h⟩ := hformat (isWord_lexeme "FORMAT_STRING")
      exact accounts_fail ⟨_ :: more, a, h⟩ _

/-! ### Definitions -/

theorem begins_path_lexeme : ∃ (ls : List Lexeme) (p : Path), p.Written ls :=
  ⟨[(Token.bracketed "").lexeme], ⟨[""], 0⟩, .single rfl, rfl⟩

theorem MemberSetting.Written.ne_nil {a : MemberSetting} (h : a.Written ls) : ls ≠ [] := by
  cases h <;> exact List.cons_ne_nil _ _

theorem begins_definition {word as : Lexeme} {path : List Lexeme} {p : Path}
    (hword : word.IsWord "MEMBER" ∨ word.IsWord "SET") (hpath : p.Written path)
    (has : as.IsWord "AS") :
    Begins (fun us d => Definition.Written (word :: (path ++ as :: us)) d) [] := by
  obtain ⟨body, e, he⟩ : Begins Expr.WrittenBody [] := begins_expr.body
  rcases hword with hword | hword
  · have hd := Definition.Written.member hword hpath has he sequence_nil
    exact ⟨_, _, hd⟩
  · exact ⟨body, _, .set hword hpath has he⟩

/-- The settings behind the body of a calculated member. -/
theorem accounts_settings : Accounts quotes s (repeated (·.startsWith .comma) memberSetting s)
    (Sequence MemberSetting.Written) :=
  accounts_repeated (fun _ => accounts_memberSetting) fun _ _ => MemberSetting.Written.ne_nil

theorem atDefinition_cases (h : atDefinition s = true) :
    ∃ l rest, s = .cons l rest ∧
      (s.atKeyword "MEMBER" = true ∧ l.IsWord "MEMBER" ∨
        s.atKeyword "MEMBER" = false ∧ l.IsWord "SET") := by
  cases hmember : s.atKeyword "MEMBER" with
  | true =>
    obtain ⟨l, rest, hs, hl⟩ := exists_of_atKeyword hmember
    exact ⟨l, rest, hs, .inl ⟨rfl, hl⟩⟩
  | false =>
    rw [atDefinition, hmember, Bool.false_or] at h
    obtain ⟨l, rest, hs, hl⟩ := exists_of_atKeyword h
    exact ⟨l, rest, hs, .inr ⟨rfl, hl⟩⟩

theorem accounts_definition (hs : atDefinition s = true) :
    Accounts True s (definition s) Definition.Written := by
  obtain ⟨word, rest, rfl, hword⟩ := atDefinition_cases hs
  have hbegins {path : List Lexeme} {p : Path} {as : Lexeme} (hpath : p.Written path)
      (has : as.IsWord "AS") :
      Begins (fun us d => Definition.Written (word :: (path ++ as :: us)) d) [] :=
    begins_definition (hword.imp And.right And.right) hpath has
  have hpath_begins {path : List Lexeme} {p : Path} (hpath : p.Written path) :
      Begins (fun us d => Definition.Written (word :: (path ++ us)) d) [] := by
    obtain ⟨more, d, hd⟩ := hbegins hpath (isWord_lexeme "AS")
    exact ⟨_, d, hd⟩
  rw [definition]
  refine accounts_advance (accounts_path.bind (fun p s₁ path _ hpath => ?_) fun path p hpath => ?_)
  -- The two goals: what comes behind the path, and a path at which the text breaks off.
  · refine accounts_keyword (fun as s₂ _ has => ?_) (hpath_begins hpath)
    have hdefined {body : List Lexeme} {e : Expr} (hbody : e.WrittenBody body) :
        Begins (fun us d => Definition.Written (word :: (path ++ as :: us)) d) body := by
      rcases hword with ⟨-, hword⟩ | ⟨-, hword⟩
      · exact ⟨_, _, .member hword hpath has hbody sequence_nil⟩
      · exact begins_of (.set hword hpath has hbody)
    refine accounts_definitionBody.bind (fun e s₃ body _ hbody => ?_) fun body e => hdefined
    dsimp only
    rcases hword with ⟨hmember, hword⟩ | ⟨hmember, hword⟩
    · rw [if_pos hmember]
      refine accounts_settings.bind (fun settings s₄ more _ h => accounts_ok ?_)
        fun more settings h => begins_of (.member hword hpath has hbody h)
      rw [List.append_nil]
      exact .member hword hpath has hbody h
    · rw [if_neg (Bool.eq_false_iff.1 hmember)]
      refine accounts_ok ?_
      rw [List.append_nil]
      exact .set hword hpath has hbody
  · obtain ⟨more, d, hd⟩ := hpath_begins hpath
    exact ⟨more, d, hd⟩

theorem Definition.Written.ne_nil {d : Definition} (h : d.Written ls) : ls ≠ [] := by
  cases h <;> exact List.cons_ne_nil _ _

theorem exists_definition : ∃ ls d, Definition.Written ls d := by
  obtain ⟨path, p, hpath⟩ := begins_path_lexeme
  obtain ⟨more, d, hd⟩ :=
    begins_definition (.inl (isWord_lexeme "MEMBER")) hpath (isWord_lexeme "AS")
  exact ⟨_, d, hd⟩

theorem accounts_definitions : Accounts True s (definitions s) DefinitionsWritten := by
  rw [definitions]
  split
  · rename_i hat
    obtain ⟨word, rest, rfl, hword⟩ := exists_of_atKeyword hat
    refine accounts_advance ?_
    have hsome {ls : List Lexeme} {d : Definition} {ds : List Definition}
        (h : Sequence Definition.Written ls (d :: ds)) :
        DefinitionsWritten (word :: ls) (d :: ds) :=
      .some hword (List.cons_ne_nil d ds) h
    have hread : Accounts True rest (repeated atDefinition definition rest)
        (Sequence Definition.Written) :=
      accounts_repeated (fun _ => accounts_definition) fun _ _ => Definition.Written.ne_nil
    have hbegins : Begins (fun us ds => DefinitionsWritten (word :: us) ds) [] := by
      obtain ⟨ls, d, hd⟩ := exists_definition
      have hds := hsome (sequence_cons hd sequence_nil)
      exact ⟨_, _, hds⟩
    refine hread.bind (fun ds s₁ ls hls hds => ?_) fun ls ds hds => ?_
    -- One definition is needed: before it, any text can still go on to one.
    · cases ds with
      | nil =>
        obtain rfl := hds.eq_nil
        exact accounts_fail hbegins _
      | cons d ds =>
        refine accounts_ok ?_
        rw [List.append_nil]
        exact hsome hds
    · cases ds with
      | nil =>
        obtain rfl := hds.eq_nil
        exact hbegins
      | cons d ds => exact begins_of (hsome hds)
  · exact accounts_ok .none

end CubeQuery.Language
