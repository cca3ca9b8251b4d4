import CubeQuery.Proofs.Language.DefinitionAccounts

/-!
The parsers of axes and of whole statements account for what they do. What a text is read as is
written with all of its tokens, and what it is refused for is accounted for by them.
-/

namespace CubeQuery.Language

open Lexemes CubeQuery.Text CubeQuery.Number

variable {α : Type} {quotes : Prop} {s rest : Lexemes} {ls us before : List Lexeme} {l : Lexeme}
  {form : List Lexeme → α → Prop} {e : SyntaxError}

/-! ### Numbers and properties of axes -/

theorem begins_number : Begins NumberWritten [] :=
  ⟨[(Token.number _).lexeme], 0, _, _, rfl, rfl, axisNumber?_whole (by decide)⟩

theorem accounts_axisNumber (what : Expectation) :
    Accounts quotes s (axisNumber what s) NumberWritten := by
  rw [axisNumber]
  split
  · rename_i x hpeek
    obtain ⟨l, rest, rfl, hl⟩ := exists_of_peek? hpeek
    split
    · rename_i n hn
      exact accounts_advance (accounts_ok ⟨l, x, rfl, hl, hn⟩)
    · exact accounts_fail begins_number _
  · exact accounts_fail begins_number _

/-- The number of an axis in parentheses. -/
theorem accounts_axis {word : Lexeme} (hword : word.IsWord "AXIS") :
    Accounts quotes s (s.expect .openParen >>= fun s => axisNumber .axisNumber s >>= fun p =>
      p.2.expect .closeParen >>= fun s => pure (p.1, s))
      fun us n => IndexWritten (word :: us) n := by
  have hclose {first : Lexeme} {ls : List Lexeme} {n : Nat} (hfirst : first.IsSymbol .openParen)
      (h : NumberWritten ls n) : Begins (fun us n => IndexWritten (word :: us) n) (first :: ls) :=
    ⟨[_], n, .axis hword hfirst h (Token.lexeme_isSymbol .closeParen)⟩
  refine accounts_expect (fun first s₁ _ hfirst => ?_) ?_
  · refine (accounts_axisNumber .axisNumber).bind (fun n s₂ ls _ h => ?_)
      fun ls n h => hclose hfirst h
    refine accounts_expect (fun last s₃ _ hlast => ?_) (hclose hfirst h)
    exact accounts_ok (.axis hword hfirst h hlast)
  · obtain ⟨ls, n, h⟩ := begins_number
    obtain ⟨more, n, h⟩ := hclose (Token.lexeme_isSymbol .openParen) h
    exact ⟨_, n, h⟩

theorem accounts_axisIndex : Accounts quotes s (axisIndex s) IndexWritten := by
  rw [axisIndex]
  split
  · rename_i name hpeek
    obtain ⟨l, rest, rfl, hl⟩ := exists_of_peek? hpeek
    split
    · rename_i n hn
      exact accounts_advance (accounts_ok (.name hl hn))
    · split
      · rename_i hname
        exact accounts_advance (accounts_axis ⟨name, hl, hname⟩)
      · obtain ⟨ls, n, h⟩ := begins_number
        exact accounts_fail ⟨ls, n, .number h⟩ _
  · exact (accounts_axisNumber .axisName).mono fun ls n => .number

theorem dimensionProperty_eq (s : Lexemes) :
    dimensionProperty s = path s >>= fun p => pure (p.1.propertyName, p.2) := by
  rw [dimensionProperty]
  congr 1
  funext p
  obtain ⟨⟨segments, position⟩, s'⟩ := p
  rcases segments with _ | ⟨name, _ | ⟨next, names⟩⟩ <;> rfl

theorem accounts_dimensionProperty :
    Accounts quotes s (dimensionProperty s) PropertyWritten := by
  rw [dimensionProperty_eq]
  exact accounts_path.map fun ls p hp => ⟨p, hp, rfl⟩

/-- Names behind the words that announce them. -/
theorem accounts_names {first second : String} {item : Parser String}
    {form : List Lexeme → String → Prop} (hitem : ∀ s, Accounts quotes s (item s) form)
    (hbegins : Begins form []) :
    Accounts quotes s (if s.atKeyword first then
        s.advance >>= fun s => s.expectKeyword second >>= fun s => separated item s
      else pure ([], s)) (NamesWritten first second form) := by
  have hname {l next : Lexeme} (hl : l.IsWord first) (hnext : next.IsWord second) :
      Begins (fun us names => NamesWritten first second form (l :: next :: us) names) [] := by
    obtain ⟨ls, name, h⟩ := hbegins
    exact ⟨ls, [name], .some hl hnext (List.cons_ne_nil name []) (listed_single h)⟩
  split
  · rename_i hat
    obtain ⟨l, s₁, rfl, hl⟩ := exists_of_atKeyword hat
    refine accounts_advance (accounts_keyword (fun next s₂ _ hnext => ?_) ?_)
    · exact (accounts_separated hitem).mono fun us names h => .some hl hnext h.2 h.1
    · obtain ⟨more, names, h⟩ := hname hl (isWord_lexeme second)
      exact ⟨_ :: more, names, h⟩
  · exact accounts_ok .none

theorem accounts_dimensionProperties : Accounts quotes s (dimensionProperties s)
    (NamesWritten "DIMENSION" "PROPERTIES" PropertyWritten) := by
  have hbegins : Begins PropertyWritten [] := by
    obtain ⟨ls, p, hp⟩ := begins_path_lexeme
    exact ⟨ls, _, p, hp, rfl⟩
  rw [dimensionProperties]
  simp only [bind_assoc]
  exact accounts_names (fun _ => accounts_dimensionProperty) hbegins

/-! ### First words -/

theorem Reaches.mono {quotes' : Prop} (h : Reaches quotes s before rest)
    (hquotes : quotes → quotes') : Reaches quotes' s before rest := by
  cases h with
  | here => exact .here _ _
  | inside hinside _ hl after hinner => exact .inside (hquotes hinside) _ hl after hinner

/-- Does not begin with the word. -/
def Unannounced (word : String) (ls : List Lexeme) : Prop :=
  ∀ l ∈ ls.head?, ¬l.IsWord word

theorem atKeyword_of_isWord {word : String} (h : l.IsWord word) :
    (Lexemes.cons l rest).atKeyword word = true := by
  obtain ⟨w, hl, hw⟩ := h
  rw [atKeyword, peek?, hl]
  exact hw

theorem unannounced_of {word : String} (hs : (prepend ls rest).atKeyword word = false) :
    Unannounced word ls := by
  rintro l hl hword
  obtain ⟨us, rfl⟩ := List.head?_eq_some_iff.1 hl
  exact Bool.false_ne_true (hs.symm.trans (atKeyword_of_isWord hword))

theorem unannounced_number {x : Float} (word : String) (hl : l.token = .number x) :
    Unannounced word (l :: ls) := by
  rintro _ ⟨⟩ ⟨w, hw, -⟩
  cases hl.symm.trans hw

/-- Where a word does not stand, nothing that is read begins with it. -/
theorem Accounts.unannounced {word : String} {r : Except SyntaxError (α × Lexemes)}
    (h : Accounts False s r form) (hs : s.atKeyword word = false)
    (hbegins : Begins (fun ls a => form ls a ∧ Unannounced word ls) []) :
    Accounts quotes s r fun ls a => form ls a ∧ Unannounced word ls := by
  refine ⟨fun hr => ?_, fun hr => ?_⟩
  · obtain ⟨ls, hls, ha⟩ := h.result hr
    exact ⟨ls, hls, ha, unannounced_of (hls.eq ▸ hs)⟩
  · have hfalse : False → quotes := False.elim
    cases h.failure hr with
    | token before more hreach hbefore hmore he =>
      refine .token before more (hreach.mono hfalse) ?_ hmore he
      cases before with
      | nil => exact hbegins
      | cons l before =>
        obtain ⟨us, a, ha⟩ := hbefore
        refine ⟨us, a, ha, ?_⟩
        rw [hreach.eq_prepend] at hs
        have hfirst : Unannounced word (l :: before ++ more) := unannounced_of hs
        exact hfirst
    | broken hreach => exact .broken (hreach.mono hfalse)
    | earlier hreach hposition hfault => exact .earlier (hreach.mono hfalse) hposition hfault

/-! ### Axes -/

section Axis

variable {mark set properties index : List Lexeme} {nonEmpty : Bool} {names : List String} {n : Nat}
  {e : Expr}

theorem begins_axis (hmark : MarkWritten mark nonEmpty) (hset : e.Written set)
    (hfirst : nonEmpty = false → Unannounced "NON" set)
    (hproperties : NamesWritten "DIMENSION" "PROPERTIES" PropertyWritten properties names) :
    Begins (fun us a => AxisClause.Written (mark ++ (set ++ (properties ++ us))) a) [] := by
  obtain ⟨index, n, hindex⟩ := begins_number
  exact ⟨_ :: index, _, .mk hmark hfirst hset hproperties (isWord_lexeme "ON") (.number hindex)⟩

/-- What follows the mark of an axis. -/
theorem accounts_marked (hmark : MarkWritten mark nonEmpty)
    (hs : nonEmpty = false → s.atKeyword "NON" = false) :
    Accounts quotes s (expr s >>= fun a => dimensionProperties a.2 >>= fun b =>
      b.2.expectKeyword "ON" >>= axisIndex >>= fun c =>
        pure (⟨c.1, nonEmpty, a.1, b.1⟩, c.2)) fun us a => AxisClause.Written (mark ++ us) a := by
  have hset : Accounts quotes s (expr s) fun ls e =>
      Expr.Written ls e ∧ (nonEmpty = false → Unannounced "NON" ls) := by
    cases nonEmpty with
    | true => exact accounts_expr.mono fun ls e he => ⟨he, nofun⟩
    | false =>
      have hnumber : Begins (fun ls e => Expr.Written ls e ∧ Unannounced "NON" ls) [] := by
        exact ⟨[(Token.number 0).lexeme], _, .number rfl, unannounced_number _ rfl⟩
      exact (accounts_expr.unannounced (hs rfl) hnumber).mono fun ls e he => ⟨he.1, fun _ => he.2⟩
  refine hset.bind (fun e s₁ set _ he => ?_) fun set e he => begins_axis hmark he.1 he.2 .none
  refine accounts_dimensionProperties.bind (fun names s₂ properties _ hnames => ?_)
    fun properties names hnames => ?_
  · rw [bind_assoc]
    refine accounts_keyword (fun on s₃ _ hon => ?_) (begins_axis hmark he.1 he.2 hnames)
    exact accounts_axisIndex.map (f := fun n => (⟨n, nonEmpty, e, names⟩ : AxisClause))
      fun index n hindex => .mk hmark he.2 he.1 hnames hon hindex
  · obtain ⟨more, a, h⟩ := begins_axis hmark he.1 he.2 hnames
    exact ⟨more, a, h⟩

end Axis

theorem accounts_axisClause : Accounts quotes s (axisClause s) AxisClause.Written := by
  rw [axisClause_eq, emptyMark]
  split
  · rename_i hat
    rw [hat]
    obtain ⟨l, s₁, rfl, hl⟩ := exists_of_atKeyword hat
    rw [bind_assoc]
    refine accounts_advance (accounts_keyword (fun next s₂ _ hnext => ?_) ?_)
    · exact accounts_marked (.some hl hnext) Bool.noConfusion
    · obtain ⟨set, e, he⟩ := begins_expr
      obtain ⟨more, a, h⟩ :=
        begins_axis (.some hl (isWord_lexeme "EMPTY")) he Bool.noConfusion .none
      exact ⟨_ :: (set ++ more), a, h⟩
  · rename_i hat
    rw [Bool.eq_false_of_not_eq_true hat]
    exact accounts_marked .none fun _ => Bool.eq_false_of_not_eq_true hat

/-- An axis with the place where it starts. -/
def PlacedWritten (ls : List Lexeme) (p : Nat × AxisClause) : Prop :=
  AxisClause.Written ls p.2 ∧ p.1 ∈ ls.map Lexeme.start

theorem AxisClause.Written.ne_nil {a : AxisClause} (h : a.Written ls) : ls ≠ [] := by
  cases h with
  | mk hmark hset hfirst hproperties hon hindex => simp

theorem accounts_placedAxis : Accounts quotes s (placedAxis s) PlacedWritten := by
  refine accounts_axisClause.bind (fun a s' ls hls ha => accounts_ok ?_) fun ls a ha => ?_
  · rw [List.append_nil]
    obtain ⟨l, us, rfl⟩ := List.exists_cons_of_ne_nil ha.ne_nil
    refine ⟨ha, List.mem_cons.2 (.inl ?_)⟩
    rw [hls.eq]
    rfl
  · obtain ⟨l, us, rfl⟩ := List.exists_cons_of_ne_nil ha.ne_nil
    exact begins_of (a := (l.start, a)) ⟨ha, List.mem_cons_self⟩

/-- The axes of a statement, unless the cube follows at once. -/
def AxesWritten (ls : List Lexeme) (placed : List (Nat × AxisClause)) : Prop :=
  Listed PlacedWritten ls placed ∧ Unannounced "FROM" ls

theorem axesWritten_nil : AxesWritten [] [] :=
  ⟨listed_nil, nofun⟩

theorem accounts_axes : Accounts quotes s (axes s) AxesWritten := by
  rw [axes]
  split
  · exact accounts_ok axesWritten_nil
  · rename_i hat
    have hbegins : Begins (fun ls placed => (Listed PlacedWritten ls placed ∧ placed ≠ []) ∧
        Unannounced "FROM" ls) [] := by
      have hnumber : Unannounced "NON" [(Token.number 0).lexeme] := unannounced_number "NON" rfl
      obtain ⟨more, a, ha⟩ := begins_axis .none (.number rfl) (fun _ => hnumber) .none
      exact ⟨(Token.number 0).lexeme :: more, [(_, a)],
        ⟨listed_single ⟨ha, List.mem_cons_self⟩, List.cons_ne_nil _ _⟩, unannounced_number _ rfl⟩
    exact ((accounts_separated fun s => accounts_placedAxis).unannounced
      (Bool.eq_false_of_not_eq_true hat) hbegins).mono fun ls placed h => ⟨h.1.1, h.2⟩

/-! ### Statements -/

theorem Names.single_inv {name : String} (h : Names ls [name]) : NameWritten ls name := by
  cases h with
  | single hl => exact ⟨_, rfl, hl⟩
  | cons hl hdot h => cases h

theorem exists_name : ∃ ls name, NameWritten ls name :=
  ⟨[(Token.bracketed "").lexeme], "", _, rfl, rfl⟩

theorem begins_name : Begins NameWritten [] :=
  exists_name

/-- The further names of a path are passed over before one of them is missing. -/
theorem Awaits.blame (h : Awaits ls) (hrest : ∀ error, rest ≠ .broken error) :
    Blame quotes (prepend ls rest) (Begins NameWritten) (rest.fault (.expected .name)) := by
  cases h with
  | first => exact .token [] [] (.here [] rest) begins_name (.none _) (fault_fault rest _)
  | @next l name ls hl h =>
    refine .token [l] ls (.here (l :: ls) rest) (begins_of ⟨l, rfl, hl⟩) ?_ (fault_fault rest _)
    rw [fault_of_readable hrest]
    exact .names h

theorem cubeName_failure (h : path s = .error e) : Blame quotes s (Begins NameWritten) e := by
  rcases path_failure h with ⟨ls, rfl⟩ | ⟨ls, rest, rfl, hls, rfl⟩
  · exact .broken (.here ls _)
  · cases rest with
    | broken error => exact .broken (.here ls _)
    | finish position => exact hls.blame nofun
    | cons l rest => exact hls.blame nofun

/-- A path of several names is no name of a cube, which is judged when all of it has been read. -/
theorem accounts_cubeName : Accounts quotes s (cubeName s) NameWritten := by
  rw [cubeName]
  cases hread : path s with
  | error error => exact accounts_error (cubeName_failure hread)
  | ok p =>
    obtain ⟨⟨segments, position⟩, s'⟩ := p
    obtain ⟨ls, hls, hp⟩ := path_result hread
    rcases segments with _ | ⟨name, _ | ⟨next, names⟩⟩
    · exact accounts_error (.earlier (.here [] s) rfl not_false)
    · exact accounts_read hls hp.names.single_inv
    · exact accounts_error (.earlier (.here [] s) rfl not_false)

theorem accounts_slicer : Accounts quotes s (slicer s) SlicerWritten := by
  rw [slicer]
  split
  · rename_i hat
    obtain ⟨l, rest, rfl, hl⟩ := exists_of_atKeyword hat
    exact accounts_advance (accounts_expr.map fun ls e he => .some hl he)
  · exact accounts_ok .none

theorem cellProperty_eq (s : Lexemes) :
    cellProperty s = judged Token.name? .cellProperty s := by
  rw [cellProperty, judged]
  congr 1
  funext rest
  cases s.peek?.bind Token.name? <;> rfl

theorem accounts_cellProperty : Accounts quotes s (cellProperty s) NameWritten := by
  rw [cellProperty_eq]
  exact accounts_judged (fun l name hl => ⟨l, rfl, hl⟩) begins_name (.inr (.inr rfl))

theorem accounts_cellProperties : Accounts quotes s (cellProperties s)
    (NamesWritten "CELL" "PROPERTIES" NameWritten) :=
  accounts_names (fun _ => accounts_cellProperty) begins_name

theorem checkAxes_error {count : Nat} {seen : List Nat} {placed : List (Nat × AxisClause)}
    (h : checkAxes count seen placed = .error e) :
    (∃ p ∈ placed, e.position = p.1) ∧ ¬e.fault.AboutToken := by
  induction placed generalizing seen with
  | nil => cases h
  | cons p placed ih =>
    rw [checkAxes] at h
    split at h
    · cases h
      exact ⟨⟨p, List.mem_cons_self, rfl⟩, not_false⟩
    · split at h
      · cases h
        exact ⟨⟨p, List.mem_cons_self, rfl⟩, not_false⟩
      · obtain ⟨⟨q, hq, hposition⟩, hfault⟩ := ih h
        exact ⟨⟨q, List.mem_cons_of_mem p hq, hposition⟩, hfault⟩

theorem Joined.mem {groups : List (List Lexeme)} {group : List Lexeme} (h : Joined ls groups)
    (hgroup : group ∈ groups) (hl : l ∈ group) : l ∈ ls := by
  induction h with
  | nil => cases hgroup
  | single ls =>
    rwa [List.mem_singleton.1 hgroup] at hl
  | cons hcomma h ih =>
    rcases List.mem_cons.1 hgroup with rfl | hgroup
    · exact List.mem_append_left _ hl
    · exact List.mem_append_right _ (List.mem_cons_of_mem _ (ih hgroup))

theorem AxesWritten.clauses {placed : List (Nat × AxisClause)} (h : AxesWritten ls placed) :
    Listed AxisClause.Written ls (placed.map Prod.snd) := by
  obtain ⟨⟨items, hjoined, rfl, hitems⟩, -⟩ := h
  refine ⟨items.map fun p => (p.1, p.2.2), ?_, ?_, ?_⟩
  · rwa [List.map_map]
  · rw [List.map_map, List.map_map]
    rfl
  · intro p hp
    obtain ⟨q, hq, rfl⟩ := List.mem_map.1 hp
    exact (hitems q hq).1

theorem AxesWritten.mem_starts {placed : List (Nat × AxisClause)} {p : Nat × AxisClause}
    (h : AxesWritten ls placed) (hp : p ∈ placed) : p.1 ∈ ls.map Lexeme.start := by
  obtain ⟨⟨items, hjoined, rfl, hitems⟩, -⟩ := h
  obtain ⟨q, hq, rfl⟩ := List.mem_map.1 hp
  obtain ⟨l, hl, hstart⟩ := List.mem_map.1 (hitems q hq).2
  exact List.mem_map.2 ⟨l, hjoined.mem (List.mem_map_of_mem hq) hl, hstart⟩

/-- A statement whose axes are not checked, with the places of the axes. -/
def uncheckedStatement : Parser (Statement × List (Nat × AxisClause)) := fun s =>
  definitions s >>= fun a => a.2.expectKeyword "SELECT" >>= fun s => axes s >>= fun b =>
    b.2.expectKeyword "FROM" >>= fun s => cubeName s >>= fun c => slicer c.2 >>= fun d =>
      cellProperties d.2 >>= fun f =>
        (if f.2.startsWith .semicolon then f.2.advance else pure f.2) >>= fun s =>
          if s.atEnd then pure ((⟨a.1, orderAxes b.1, c.1, d.1, f.1⟩, b.1), s)
          else s.fail (.unexpected .afterStatement)

theorem fail_bind {β : Type} {f : SyntaxFault} {g : α → Except SyntaxError β} :
    (s.fail f >>= g) = s.fail f :=
  rfl

theorem statement_eq (s : Lexemes) :
    statement s = uncheckedStatement s >>= fun p =>
      checkAxes p.1.2.length [] p.1.2 >>= fun _ => pure (p.1.1, p.2) := by
  unfold statement uncheckedStatement
  simp only [bind_assoc, ite_bind, pure_bind, fail_bind]

/-- A statement with the places of its axes. -/
def UncheckedWritten (ls : List Lexeme) (p : Statement × List (Nat × AxisClause)) : Prop :=
  p.1.Written ls ∧ ∀ q ∈ p.2, q.1 ∈ ls.map Lexeme.start

section Statement

variable {definitions axes cube slicer properties ends : List Lexeme} {select word : Lexeme}
  {ds : List Definition} {placed : List (Nat × AxisClause)} {name : String}
  {slicer? : Option Expr} {names : List String}

theorem written_statement (hdefinitions : DefinitionsWritten definitions ds)
    (hselect : select.IsWord "SELECT") (haxes : AxesWritten axes placed)
    (hword : word.IsWord "FROM") (hcube : NameWritten cube name)
    (hslicer : SlicerWritten slicer slicer?)
    (hproperties : NamesWritten "CELL" "PROPERTIES" NameWritten properties names)
    (hends : EndWritten ends) :
    UncheckedWritten
      (definitions ++ select :: (axes ++ word :: (cube ++ (slicer ++ (properties ++ ends)))))
      (⟨ds, orderAxes placed, name, slicer?, names⟩, placed) := by
  refine ⟨.mk hdefinitions hselect haxes.2 haxes.clauses hword hcube hslicer hproperties hends, ?_⟩
  intro q hq
  obtain ⟨l, hl, hstart⟩ := List.mem_map.1 (haxes.mem_starts hq)
  exact List.mem_map.2 ⟨l, by simp [hl], hstart⟩

theorem begins_cube (hdefinitions : DefinitionsWritten definitions ds)
    (hselect : select.IsWord "SELECT") (haxes : AxesWritten axes placed)
    (hword : word.IsWord "FROM") :
    Begins (fun us => UncheckedWritten (definitions ++ select :: (axes ++ word :: us))) [] := by
  obtain ⟨cube, name, hcube⟩ := exists_name
  have h := written_statement hdefinitions hselect haxes hword hcube .none .none .none
  exact ⟨_, _, h⟩

theorem begins_from (hdefinitions : DefinitionsWritten definitions ds)
    (hselect : select.IsWord "SELECT") (haxes : AxesWritten axes placed) :
    Begins (fun us => UncheckedWritten (definitions ++ select :: (axes ++ us))) [] := by
  obtain ⟨more, a, h⟩ := begins_cube hdefinitions hselect haxes (isWord_lexeme "FROM")
  exact ⟨_ :: more, a, h⟩

theorem begins_select (hdefinitions : DefinitionsWritten definitions ds) :
    Begins (fun us => UncheckedWritten (definitions ++ us)) [] := by
  obtain ⟨more, a, h⟩ := begins_from hdefinitions (isWord_lexeme "SELECT") axesWritten_nil
  exact ⟨_ :: more, a, h⟩

theorem accounts_atEnd {a : α} (ha : form [] a) :
    Accounts quotes s (if s.atEnd then pure (a, s) else s.fail (.unexpected .afterStatement))
      form := by
  split
  · exact accounts_ok ha
  · exact accounts_fail (begins_of ha) _

/-- What may follow the clauses of a statement. -/
theorem accounts_end (hdefinitions : DefinitionsWritten definitions ds)
    (hselect : select.IsWord "SELECT") (haxes : AxesWritten axes placed)
    (hword : word.IsWord "FROM") (hcube : NameWritten cube name)
    (hslicer : SlicerWritten slicer slicer?)
    (hproperties : NamesWritten "CELL" "PROPERTIES" NameWritten properties names) :
    Accounts quotes s ((if s.startsWith .semicolon then s.advance else pure s) >>= fun s =>
        if s.atEnd then pure ((⟨ds, orderAxes placed, name, slicer?, names⟩, placed), s)
        else s.fail (.unexpected .afterStatement)) fun us => UncheckedWritten (definitions ++
          select :: (axes ++ word :: (cube ++ (slicer ++ (properties ++ us))))) := by
  have hwritten {ends : List Lexeme} (hends : EndWritten ends) :=
    written_statement hdefinitions hselect haxes hword hcube hslicer hproperties hends
  split
  · rename_i hat
    obtain ⟨l, rest, rfl, hl⟩ := exists_of_startsWith hat
    exact accounts_advance (accounts_atEnd (hwritten (.semicolon hl)))
  · exact accounts_atEnd (hwritten .none)

theorem accounts_uncheckedStatement :
    Accounts True s (uncheckedStatement s) UncheckedWritten := by
  rw [uncheckedStatement]
  refine accounts_definitions.bind (fun ds s₁ definitions _ hdefinitions => ?_)
    fun definitions ds h => begins_select h
  refine accounts_keyword (fun select s₂ _ hselect => ?_) (begins_select hdefinitions)
  refine accounts_axes.bind (fun placed s₃ axes _ haxes => ?_)
    fun axes placed h => begins_from hdefinitions hselect h
  refine accounts_keyword (fun word s₄ _ hword => ?_) (begins_from hdefinitions hselect haxes)
  have hbegins {cube slicer properties : List Lexeme} {name : String} {slicer? : Option Expr}
      {names : List String} (hcube : NameWritten cube name) (hslicer : SlicerWritten slicer slicer?)
      (hproperties : NamesWritten "CELL" "PROPERTIES" NameWritten properties names) :
      Begins (fun us => UncheckedWritten (definitions ++ select :: (axes ++ word ::
        (cube ++ (slicer ++ (properties ++ us)))))) [] :=
    ⟨[], _, written_statement hdefinitions hselect haxes hword hcube hslicer hproperties .none⟩
  refine accounts_cubeName.bind (fun name s₅ cube _ hcube => ?_)
    fun cube name h => hbegins h .none .none
  refine accounts_slicer.bind (fun slicer? s₆ slicer _ hslicer => ?_)
    fun slicer slicer? h => hbegins hcube h .none
  refine accounts_cellProperties.bind (fun names s₇ properties _ hproperties => ?_)
    fun properties names h => hbegins hcube hslicer h
  exact accounts_end hdefinitions hselect haxes hword hcube hslicer hproperties

end Statement

/-- Axes are judged when the whole statement has been read. -/
theorem accounts_statement : Accounts True s (statement s) fun ls st => st.Written ls := by
  rw [statement_eq]
  refine accounts_uncheckedStatement.seq (fun p s' ls hls hp => ?_) fun ls p hp => begins_of hp.1
  obtain ⟨st, placed⟩ := p
  dsimp only
  cases hcheck : checkAxes placed.length [] placed with
  | ok => exact accounts_read hls hp.1
  | error error =>
    obtain ⟨⟨q, hq, hposition⟩, hfault⟩ := checkAxes_error hcheck
    obtain ⟨l, hl, hstart⟩ := List.mem_map.1 (hp.2 q hq)
    obtain ⟨before, after, rfl⟩ := List.append_of_mem hl
    have hreach : Reaches True s before (.cons l (prepend after s')) := by
      rw [hls.eq, prepend_append]
      exact .here before _
    exact accounts_error (.earlier hreach (hposition.trans hstart.symm) hfault)

theorem atEnd_of_uncheckedStatement {p : Statement × List (Nat × AxisClause)}
    (h : uncheckedStatement s = .ok (p, rest)) : rest.atEnd = true := by
  -- The clauses that are read before the end is looked for.
  iterate 8 obtain ⟨_, -, h⟩ := exists_of_bind_eq_ok h
  split at h
  · rename_i hend
    cases h
    exact hend
  · exact absurd h fail_ne_ok

theorem atEnd_of_statement {st : Statement} (h : statement s = .ok (st, rest)) :
    rest.atEnd = true := by
  rw [statement_eq] at h
  obtain ⟨⟨p, s'⟩, hread, h⟩ := exists_of_bind_eq_ok h
  obtain ⟨_, -, h⟩ := exists_of_bind_eq_ok h
  cases h
  exact atEnd_of_uncheckedStatement hread

/-! ### Texts -/

variable {text : String}

/-- The statement of a text is written with all of its tokens. -/
theorem Statement.written_of_ofText {st : Statement} (h : Statement.ofText text = .ok st) :
    ∃ ls position, ofQuery text = prepend ls (.finish position) ∧ st.Written ls := by
  rw [Statement.ofText] at h
  rcases checked_cases (ofQuery text) with ⟨hchecked, hreadable⟩ | ⟨error, -, hchecked⟩
  · obtain ⟨s, hs, h⟩ := exists_of_bind_eq_ok h
    obtain rfl : ofQuery text = s := Except.ok.inj (hchecked.symm.trans hs)
    obtain ⟨⟨st', rest⟩, hread, h⟩ := exists_of_bind_eq_ok h
    cases h
    obtain ⟨ls, hls, hst⟩ := accounts_statement.result hread
    obtain ⟨position, rfl⟩ := exists_of_atEnd (atEnd_of_statement hread) (hls.readable_of hreadable)
    exact ⟨ls, position, hls.eq, hst⟩
  · rw [hchecked] at h
    cases h

theorem Statement.blame_of_ofText (h : Statement.ofText text = .error e) :
    Blame True (ofQuery text) (Begins fun ls st => Statement.Written ls st) e := by
  rw [Statement.ofText] at h
  rcases checked_cases (ofQuery text) with ⟨hchecked, -⟩ | ⟨error, hbroken, hchecked⟩
  · rw [hchecked] at h
    exact accounts_statement.failure (error_of_map_error h)
  · rw [hchecked] at h
    cases h
    rw [hbroken]
    exact .broken (.here [] _)

end CubeQuery.Language
