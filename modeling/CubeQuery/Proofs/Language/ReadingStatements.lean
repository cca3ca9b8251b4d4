import CubeQuery.Language.Parser.Statement
import CubeQuery.Proofs.Language.Reading
import CubeQuery.Proofs.Number.ReadBack

/-!
The tokens of a statement read back, clause by clause.
-/

namespace CubeQuery.Language

open CubeQuery.Number CubeQuery.Text

variable {α β γ : Type} {s : Lexemes} {t : Token} {ts us : List Token}

/-! ### Names -/

theorem reads_pathSegments {names : List String} (hnames : names ≠ [])
    (hus : us.head? ≠ some (.symbol .dot)) (hs : s.Spells (pathTokens names ++ us)) :
    Reads (pathSegments s) True (fun segments => segments = names) us := by
  induction names generalizing s with
  | nil => exact absurd rfl hnames
  | cons name names ih =>
    cases names with
    | nil =>
      obtain ⟨l, rest, rfl, hl, hrest⟩ := hs.cons_inv
      have hname : l.token.name? = some name := by
        rw [hl]
        rfl
      rw [pathSegments, hname]
      cases hrest with
      | finish position => exact reads_ok trivial rfl (.finish position)
      | cons next hrest =>
        have hnext : next.token ≠ .symbol .dot := fun hdot => hus (congrArg some hdot)
        dsimp only
        rw [if_neg hnext]
        exact reads_ok trivial rfl (.cons next hrest)
    | cons next names =>
      obtain ⟨l, rest, rfl, hl, hrest⟩ := hs.cons_inv
      obtain ⟨dot, tail, rfl, hdot, htail⟩ := hrest.cons_inv
      have hname : l.token.name? = some name := by
        rw [hl]
        rfl
      have hread := ih (by nofun) htail
      rw [pathSegments, hname]
      dsimp only
      rw [if_pos hdot]
      cases tail with
      | broken error => exact (htail.not_broken error rfl).elim
      | _ =>
        refine hread.map fun segments s₁ hsegments hs₁ => ?_
        exact reads_ok trivial (by rw [hsegments]) hs₁

theorem reads_path {names : List String} (hnames : names ≠ [])
    (hus : us.head? ≠ some (.symbol .dot)) (hs : s.Spells (pathTokens names ++ us)) :
    Reads (path s) True (fun p => p.segments = names) us := by
  refine (reads_pathSegments hnames hus hs).map fun segments s₁ hsegments hs₁ => ?_
  exact reads_ok trivial hsegments hs₁

/-! ### Items without separators -/

theorem reads_repeated {announced : Lexemes → Bool} {item : Parser α} {tokens : β → List Token}
    {next : List Token → Prop} {fitting : β → Prop} {view : α → γ} {goal : β → γ} {xs : List β}
    (hend : ∀ s, s.Spells us → announced s = false) (hus : next us)
    (hxs : ∀ x ∈ xs, tokens x ≠ [] ∧ ∀ vs, next (tokens x ++ vs) ∧
      ∀ s, s.Spells (tokens x ++ vs) → announced s = true)
    (hitem : ∀ x ∈ xs, ∀ s vs, s.Spells (tokens x ++ vs) → next vs →
      Reads (item s) (fitting x) (fun a => view a = goal x) vs)
    (hs : s.Spells (xs.flatMap tokens ++ us)) :
    Reads (repeated announced item s) (∀ x ∈ xs, fitting x)
      (fun as => as.map view = xs.map goal) us := by
  induction xs generalizing s with
  | nil =>
    rw [repeated, if_neg (by rw [hend s hs]; nofun)]
    exact reads_ok (by nofun) rfl hs
  | cons x xs ih =>
    obtain ⟨htokens, hannounced⟩ := hxs x List.mem_cons_self
    rw [List.flatMap_cons, List.append_assoc] at hs
    -- An item is followed by the next one, or by what ends the list.
    have hfollow : next (xs.flatMap tokens ++ us) := by
      cases xs with
      | nil => exact hus
      | cons y ys =>
        rw [List.flatMap_cons, List.append_assoc]
        exact ((hxs y (List.mem_cons_of_mem _ List.mem_cons_self)).2 _).1
    rw [repeated, if_pos ((hannounced _).2 s hs)]
    refine ((hitem x List.mem_cons_self s _ hs hfollow).bind
      fun a s₁ ha hs₁ => ?_).congr List.forall_mem_cons.symm
    have hshorter : s₁.size < s.size := by
      have := List.length_pos_iff.2 htokens
      rw [hs₁.size, hs.size, @List.length_append _ (tokens x)]
      omega
    dsimp only
    rw [if_pos hshorter]
    refine (ih (fun y hy => hxs y (List.mem_cons_of_mem _ hy))
      (fun y hy => hitem y (List.mem_cons_of_mem _ hy)) hs₁).map fun as s₂ has hs₂ => ?_
    exact reads_ok trivial (by rw [List.map_cons, List.map_cons, ha, has]) hs₂

/-! ### Definitions -/

theorem solveOrder?_whole {n : Nat} (hn : n ≤ solveOrderLimit) :
    solveOrder? (Decimal.mk n 0).toFloat = some (n : Int) := by
  have hlimit : solveOrderLimit < wholeLimit := by decide
  rw [solveOrder?, smallWhole?_whole (Nat.lt_of_le_of_lt hn hlimit)]
  dsimp only
  rw [if_pos hn]
  rfl

/-- What a setting must satisfy to be read back. -/
def MemberSetting.Allowed : MemberSetting → Prop
  | .format _ => True
  | .solveOrder n => n.natAbs ≤ solveOrderLimit

theorem reads_memberSetting {x : MemberSetting} (hx : x.Allowed) (hs : s.Spells (x.tokens ++ us)) :
    Reads (memberSetting s) True (fun a => a = x) us := by
  rw [memberSetting]
  cases x with
  | format f =>
    refine Moves.bind hs.advance fun s₁ hs₁ => ?_
    rw [hs₁.atKeyword_cons, if_pos (sameName_refl _)]
    refine Moves.bind hs₁.advance fun s₂ hs₂ => ?_
    refine Moves.bind (moves_expect hs₂) fun s₃ hs₃ => ?_
    refine Moves.bind hs₃.advance fun s₄ hs₄ => ?_
    rw [hs₃.peek?]
    exact reads_ok trivial rfl hs₄
  | solveOrder n =>
    refine Moves.bind hs.advance fun s₁ hs₁ => ?_
    rw [hs₁.atKeyword_cons, hs₁.atKeyword_cons, if_neg (by decide), if_pos (sameName_refl _)]
    refine Moves.bind hs₁.advance fun s₂ hs₂ => ?_
    refine Moves.bind (moves_expect hs₂) fun s₃ hs₃ => ?_
    have hvalue := solveOrder?_whole hx
    -- A negative order is written with its sign in front, as a token of its own.
    by_cases hnegative : n < 0
    · have htokens : intTokens n = [.symbol .minus, wholeToken n.natAbs] := if_pos hnegative
      have hn : -(n.natAbs : Int) = n := by omega
      rw [htokens] at hs₃
      dsimp only
      rw [hs₃.startsWith_cons, if_pos rfl]
      refine Moves.bind hs₃.advance fun s₄ hs₄ => ?_
      rw [hs₄.peek?_cons]
      dsimp only [wholeToken]
      rw [hvalue]
      refine Moves.bind hs₄.advance fun s₅ hs₅ => ?_
      exact reads_ok trivial (by rw [if_pos rfl, hn]) hs₅
    · have htokens : intTokens n = [wholeToken n.natAbs] := if_neg hnegative
      have hn : (n.natAbs : Int) = n := by omega
      rw [htokens] at hs₃
      have hminus : s₃.startsWith .minus = false := hs₃.not_startsWith (by nofun)
      dsimp only
      rw [hminus, if_neg (by nofun)]
      refine Moves.bind ⟨s₃, rfl, hs₃⟩ fun s₄ hs₄ => ?_
      rw [hs₄.peek?_cons]
      dsimp only [wholeToken]
      rw [hvalue]
      refine Moves.bind hs₄.advance fun s₅ hs₅ => ?_
      exact reads_ok trivial (by rw [if_neg (by nofun), hn]) hs₅

/-- A definition is followed by the next one or by the statement proper. -/
def Announced (ts : List Token) : Prop :=
  ∃ w, ts.head? = some (.word w)

theorem Announced.closed (h : Announced ts) : Closed ts := by
  obtain ⟨w, hw⟩ := h
  cases ts with
  | nil => cases hw
  | cons t ts =>
    obtain rfl : t = .word w := Option.some.inj hw
    exact closed_word w

theorem Announced.head_ne (h : Announced ts) (x : Symbol) : ts.head? ≠ some (.symbol x) := by
  obtain ⟨w, hw⟩ := h
  rw [hw]
  nofun

theorem reads_settings {d : MemberDefinition} (hd : d.solveOrder.natAbs ≤ solveOrderLimit)
    (hus : Announced us)
    (hs : s.Spells (d.settings.flatMap MemberSetting.tokens ++ us)) :
    Reads (repeated (·.startsWith .comma) memberSetting s) True (fun xs => xs = d.settings) us := by
  have hallowed : ∀ x ∈ d.settings, x.Allowed := by
    intro x hx
    rcases List.mem_append.1 hx with hx | hx
    · obtain ⟨f, -, rfl⟩ := List.mem_map.1 hx
      trivial
    · split at hx
      · cases hx
      · obtain rfl := List.mem_singleton.1 hx
        exact hd
  have hread : Reads (repeated (·.startsWith .comma) memberSetting s) (∀ x ∈ d.settings, True)
      (fun xs => xs.map id = d.settings.map id) us := by
    refine reads_repeated ?_ hus.closed ?_ ?_ hs
    · exact fun s hs => hs.not_startsWith (hus.head_ne _)
    · rintro (f | n) -
      · exact ⟨by nofun, fun vs => ⟨closed_comma, fun s hs => hs.startsWith_cons⟩⟩
      · exact ⟨by nofun, fun vs => ⟨closed_comma, fun s hs => hs.startsWith_cons⟩⟩
    · exact fun x hx s vs hs _ => reads_memberSetting (hallowed x hx) hs
  refine (hread.congr (iff_true_intro fun _ _ => trivial)).mono fun xs hxs => ?_
  rwa [List.map_id, List.map_id] at hxs

theorem foldl_settings (d : MemberDefinition) (p : Path) (e : Expr) :
    d.settings.foldl MemberDefinition.apply ⟨p, e, none, 0⟩ = { d with path := p, expr := e } := by
  obtain ⟨path, expr, format?, solveOrder⟩ := d
  rw [MemberDefinition.settings]
  by_cases horder : solveOrder = 0
  · subst horder
    cases format? <;> rfl
  · rw [if_neg horder]
    cases format? <;> rfl

theorem definitionBody_of_readable {e : Expr} (he : e.Readable) (hs : s.Spells (e.tokens ++ us)) :
    definitionBody s = expr s := by
  obtain ⟨t, run, htokens, ht⟩ := he.begins
  rw [htokens] at hs
  rw [definitionBody, hs.peek?_cons]
  cases t with
  | quoted s => cases ht
  | _ => rfl

theorem reads_definition {d : Definition} (hd : d.Readable) (hus : Announced us)
    (hs : s.Spells (d.tokens ++ us)) :
    Reads (definition s) (d.expr.depth ≤ nestingLimit) (fun a => a.unplaced = d.unplaced) us := by
  rw [definition]
  cases d with
  | member d =>
    rw [Definition.tokens, List.cons_append, List.append_assoc, List.cons_append,
      List.append_assoc] at hs
    refine Moves.bind hs.advance fun s₁ hs₁ => ?_
    -- The body ends before the comma of the first setting, or before what follows the definition.
    have hclosed : Closed (d.settings.flatMap MemberSetting.tokens ++ us) := by
      cases hsettings : d.settings with
      | nil => exact hus.closed
      | cons x xs => cases x <;> exact closed_comma
    refine (reads_path hd.segments (Announced.head_ne ⟨_, rfl⟩ _) hs₁).next fun p s₂ hp hs₂ => ?_
    refine Moves.bind (moves_keyword hs₂) fun s₃ hs₃ => ?_
    rw [definitionBody_of_readable hd.expr hs₃]
    refine (hd.expr.reads hs₃ hclosed).map fun e s₄ he hs₄ => ?_
    dsimp only
    rw [hs.atKeyword_cons, if_pos (sameName_refl _)]
    refine (reads_settings hd.order hus hs₄).map fun xs s₅ hxs hs₅ => ?_
    refine reads_ok trivial ?_ hs₅
    have hplaced : p.unplaced = d.path.unplaced := congrArg (Path.mk · 0) hp
    rw [hxs, foldl_settings, Definition.unplaced, Definition.unplaced, hplaced, he]
    rfl
  | set d =>
    rw [Definition.tokens, List.cons_append, List.append_assoc, List.cons_append] at hs
    refine Moves.bind hs.advance fun s₁ hs₁ => ?_
    refine (reads_path hd.segments (Announced.head_ne ⟨_, rfl⟩ _) hs₁).next fun p s₂ hp hs₂ => ?_
    refine Moves.bind (moves_keyword hs₂) fun s₃ hs₃ => ?_
    rw [definitionBody_of_readable hd.expr hs₃]
    refine (hd.expr.reads hs₃ hus.closed).map fun e s₄ he hs₄ => ?_
    dsimp only
    rw [hs.atKeyword_cons, if_neg (by decide)]
    refine reads_ok trivial ?_ hs₄
    have hplaced : p.unplaced = d.path.unplaced := congrArg (Path.mk · 0) hp
    rw [Definition.unplaced, Definition.unplaced, hplaced, he]
    rfl

theorem announced_definition (d : Definition) : Announced (d.tokens ++ us) := by
  cases d with
  | member d => exact ⟨_, rfl⟩
  | set d => exact ⟨_, rfl⟩

theorem atDefinition_tokens (d : Definition) (hs : s.Spells (d.tokens ++ us)) :
    atDefinition s = true := by
  cases d with
  | member d =>
    rw [atDefinition, Lexemes.Spells.atKeyword_cons hs, sameName_refl, Bool.true_or]
  | set d =>
    rw [atDefinition, Lexemes.Spells.atKeyword_cons hs, Lexemes.Spells.atKeyword_cons hs,
      sameName_refl, Bool.or_true]

theorem reads_definitions {ds : List Definition} (hds : ∀ d ∈ ds, d.Readable)
    (hs : s.Spells ((if ds = [] then [] else .word "WITH" :: ds.flatMap Definition.tokens) ++
      .word "SELECT" :: us)) :
    Reads (definitions s) (∀ d ∈ ds, d.expr.depth ≤ nestingLimit)
      (fun as => as.map Definition.unplaced = ds.map Definition.unplaced)
      (.word "SELECT" :: us) := by
  rw [definitions]
  by_cases hnil : ds = []
  · subst hnil
    rw [if_pos rfl] at hs
    rw [Lexemes.Spells.atKeyword_cons hs, if_neg (by decide)]
    exact reads_ok (by nofun) rfl hs
  · rw [if_neg hnil, List.cons_append] at hs
    rw [hs.atKeyword_cons, if_pos (sameName_refl _)]
    refine Moves.bind hs.advance fun s₁ hs₁ => ?_
    have hselect : Announced (.word "SELECT" :: us) := ⟨_, rfl⟩
    have hread : Reads (repeated atDefinition definition s₁)
        (∀ d ∈ ds, d.expr.depth ≤ nestingLimit)
        (fun as => as.map Definition.unplaced = ds.map Definition.unplaced)
        (.word "SELECT" :: us) := by
      refine reads_repeated ?_ hselect ?_ ?_ hs₁
      · intro s hs
        rw [atDefinition, hs.atKeyword_cons, hs.atKeyword_cons]
        decide
      · intro d hd
        refine ⟨?_, fun vs => ⟨announced_definition d, fun s hs => atDefinition_tokens d hs⟩⟩
        cases d <;> nofun
      · exact fun d hd s vs hs hvs => reads_definition (hds d hd) hvs hs
    refine hread.map fun as s₂ has hs₂ => ?_
    -- At least one definition was read, so the clause is not refused as empty.
    have hsome : as.isEmpty = false := by
      cases as with
      | nil => exact absurd (List.map_eq_nil_iff.1 has.symm) hnil
      | cons a as => rfl
    dsimp only
    rw [hsome, if_neg (by nofun)]
    exact reads_ok trivial has hs₂

/-! ### Axes -/

theorem reads_nameList {item : Parser String} {names : List String} (hnames : names ≠ [])
    (hend : us.head? ≠ some (.symbol .comma)) (hus : us.head? ≠ some (.symbol .dot))
    (hitem : ∀ name s vs, s.Spells (.bracketed name :: vs) → vs.head? ≠ some (.symbol .dot) →
      Reads (item s) True (fun a => a = name) vs)
    (hs : s.Spells (commaTokens (names.map fun name => [.bracketed name]) ++ us)) :
    Reads (separated item s) True (fun as => as = names) us := by
  have hread : Reads (separated item s) (∀ name ∈ names, True)
      (fun as => as.map id = names.map id) us :=
    reads_separated hnames hend hus (fun vs => by nofun)
      (fun name _ s vs hs hvs => hitem name s vs hs hvs) hs
  refine (hread.congr (iff_true_intro fun _ _ => trivial)).mono fun as has => ?_
  rwa [List.map_id, List.map_id] at has

theorem reads_dimensionProperty {name : String} (hus : us.head? ≠ some (.symbol .dot))
    (hs : s.Spells (.bracketed name :: us)) :
    Reads (dimensionProperty s) True (fun a => a = name) us := by
  rw [dimensionProperty]
  refine (@reads_path _ _ [name] (by nofun) hus hs).map fun p s₁ hp hs₁ => ?_
  dsimp only
  rw [hp]
  exact reads_ok trivial rfl hs₁

theorem axisNumber?_whole {n : Nat} (hn : n < axisLimit) :
    axisNumber? (Decimal.mk n 0).toFloat = some n := by
  have hlimit : axisLimit < wholeLimit := by decide
  rw [axisNumber?, smallWhole?_whole (Nat.lt_trans hn hlimit)]
  dsimp only
  rw [if_pos ⟨hn, .inl rfl⟩]

theorem reads_axisNumber {n : Nat} (what : Expectation) (hn : n < axisLimit)
    (hs : s.Spells (wholeToken n :: us)) : Reads (axisNumber what s) True (fun a => a = n) us := by
  rw [axisNumber, hs.peek?_cons]
  dsimp only [wholeToken]
  rw [axisNumber?_whole hn]
  refine Moves.bind hs.advance fun s₁ hs₁ => ?_
  exact reads_ok trivial rfl hs₁

theorem reads_axisIndex {n : Nat} (hn : n < axisLimit) (hs : s.Spells (axisTokens n ++ us)) :
    Reads (axisIndex s) True (fun a => a = n) us := by
  by_cases hnamed : n < 5
  · have hname : ∀ n < 5, namedAxis? (axisName n) = some n := by decide
    rw [axisTokens, if_pos hnamed] at hs
    rw [axisIndex, hs.peek?_cons]
    dsimp only
    rw [hname n hnamed]
    refine Moves.bind hs.advance fun s₁ hs₁ => ?_
    exact reads_ok trivial rfl hs₁
  · have hname : namedAxis? "AXIS" = none := by decide
    rw [axisTokens, if_neg hnamed] at hs
    rw [axisIndex, hs.peek?_cons]
    dsimp only
    rw [hname]
    dsimp only
    rw [if_pos (sameName_refl _)]
    refine Moves.bind hs.advance fun s₁ hs₁ => ?_
    refine Moves.bind (moves_expect hs₁) fun s₂ hs₂ => ?_
    refine (reads_axisNumber _ hn hs₂).next fun a s₃ ha hs₃ => ?_
    refine Moves.bind (moves_expect hs₃) fun s₄ hs₄ => ?_
    exact reads_ok trivial ha hs₄

/-- The words in front of an axis whose empty positions are left out. -/
def emptyMark (s : Lexemes) : Except SyntaxError Lexemes :=
  if s.atKeyword "NON" then s.advance >>= (·.expectKeyword "EMPTY") else pure s

def dimensionProperties : Parser (List String) := fun s =>
  if s.atKeyword "DIMENSION" then
    s.advance >>= (·.expectKeyword "PROPERTIES") >>= separated dimensionProperty
  else pure ([], s)

theorem ite_bind {c : Prop} [Decidable c] {r r' : Except SyntaxError α}
    {f : α → Except SyntaxError β} :
    (if c then r else r') >>= f = if c then r >>= f else r' >>= f := by
  split <;> rfl

/-- An axis read part by part. -/
theorem axisClause_eq (s : Lexemes) :
    axisClause s = emptyMark s >>= fun s₁ => expr s₁ >>= fun a => dimensionProperties a.2 >>=
      fun b => b.2.expectKeyword "ON" >>= axisIndex >>= fun c =>
        pure (⟨c.1, s.atKeyword "NON", a.1, b.1⟩, c.2) := by
  unfold axisClause emptyMark dimensionProperties
  simp only [ite_bind, bind_assoc, pure_bind]

theorem reads_dimensionProperties {names : List String}
    (hs : s.Spells (nameTokens ["DIMENSION", "PROPERTIES"] names ++ .word "ON" :: us)) :
    Reads (dimensionProperties s) True (fun as => as = names) (.word "ON" :: us) := by
  rw [dimensionProperties]
  by_cases hnil : names = []
  · rw [nameTokens, if_pos hnil] at hs
    rw [Lexemes.Spells.atKeyword_cons hs, if_neg (by decide)]
    exact reads_ok trivial hnil.symm hs
  · rw [nameTokens, if_neg hnil, List.append_assoc] at hs
    rw [Lexemes.Spells.atKeyword_cons hs, if_pos (sameName_refl _), bind_assoc]
    refine Moves.bind (Lexemes.Spells.advance hs) fun s₁ hs₁ => ?_
    refine Moves.bind (moves_keyword hs₁) fun s₂ hs₂ => ?_
    exact reads_nameList hnil (by nofun) (by nofun)
      (fun name s vs hs hvs => reads_dimensionProperty hvs hs) hs₂

/-- No keyword of a statement can start an expression. -/
theorem not_atKeyword_of_begins {keyword : String} (ht : t.begins = true)
    (hkeyword : keyword ∈ ["NON", "FROM"]) (hs : s.Spells (t :: us)) :
    s.atKeyword keyword = false := by
  have hfresh : ∀ keyword ∈ ["NON", "FROM"], ∀ w ∈ SetFunction.all.map SetFunction.name ++
      Flag.all.map Flag.name, sameName w keyword = false := by decide
  cases t with
  | word w =>
    rw [hs.atKeyword_cons]
    exact hfresh keyword hkeyword w (List.contains_iff_mem.1 ht)
  | _ => exact hs.not_atKeyword (by nofun) keyword

theorem moves_emptyMark {a : AxisClause} (hset : a.set.Readable)
    (hs : s.Spells ((if a.nonEmpty then [.word "NON", .word "EMPTY"] else []) ++
      (a.set.tokens ++ us))) :
    s.atKeyword "NON" = a.nonEmpty ∧ Moves (emptyMark s) (a.set.tokens ++ us) := by
  rw [emptyMark]
  cases hempty : a.nonEmpty with
  | false =>
    rw [hempty] at hs
    have hs : s.Spells (a.set.tokens ++ us) := hs
    have hnone : s.atKeyword "NON" = false := by
      obtain ⟨t, run, htokens, ht⟩ := hset.begins
      rw [htokens] at hs
      exact not_atKeyword_of_begins ht (by decide) hs
    rw [hnone, if_neg (by nofun)]
    exact ⟨rfl, s, rfl, hs⟩
  | true =>
    rw [hempty, if_pos rfl] at hs
    have hnon : s.atKeyword "NON" = true := (Lexemes.Spells.atKeyword_cons hs _).trans (by decide)
    rw [hnon, if_pos rfl]
    refine ⟨rfl, ?_⟩
    exact Moves.then (Lexemes.Spells.advance hs) fun s₁ hs₁ => moves_keyword hs₁

theorem reads_axisClause {a : AxisClause} (hset : a.set.Readable) (hindex : a.index < axisLimit)
    (hs : s.Spells (a.tokens ++ us)) :
    Reads (axisClause s) (a.set.depth ≤ nestingLimit) (fun b => b.unplaced = a.unplaced) us := by
  rw [AxisClause.tokens, List.append_assoc, List.append_assoc, List.append_assoc,
    List.cons_append] at hs
  obtain ⟨hnonEmpty, hmark⟩ := moves_emptyMark hset hs
  have hclosed : Closed (nameTokens ["DIMENSION", "PROPERTIES"] a.properties ++
      .word "ON" :: (axisTokens a.index ++ us)) := by
    rw [nameTokens]
    split <;> exact closed_word _
  rw [axisClause_eq, hnonEmpty]
  refine Moves.bind hmark fun s₁ hs₁ => ?_
  refine (hset.reads hs₁ hclosed).map fun e s₂ he hs₂ => ?_
  refine (reads_dimensionProperties hs₂).next fun names s₃ hnames hs₃ => ?_
  rw [bind_assoc]
  refine Moves.bind (moves_keyword hs₃) fun s₄ hs₄ => ?_
  refine (reads_axisIndex hindex hs₄).next fun n s₅ hn hs₅ => ?_
  refine reads_ok trivial ?_ hs₅
  rw [AxisClause.unplaced, AxisClause.unplaced, he, hn, hnames]

theorem reads_placedAxis {a : AxisClause} (hset : a.set.Readable) (hindex : a.index < axisLimit)
    (hs : s.Spells (a.tokens ++ us)) :
    Reads (placedAxis s) (a.set.depth ≤ nestingLimit) (fun b => b.2.unplaced = a.unplaced) us := by
  rw [placedAxis]
  refine (reads_axisClause hset hindex hs).map fun b s₁ hb hs₁ => ?_
  exact reads_ok trivial hb hs₁

theorem axis_not_from {a : AxisClause} (hset : a.set.Readable) (hs : s.Spells (a.tokens ++ us)) :
    s.atKeyword "FROM" = false := by
  rw [AxisClause.tokens] at hs
  cases hempty : a.nonEmpty with
  | true =>
    rw [hempty, if_pos rfl] at hs
    exact (Lexemes.Spells.atKeyword_cons hs _).trans (by decide)
  | false =>
    obtain ⟨t, run, htokens, ht⟩ := hset.begins
    rw [hempty, htokens] at hs
    exact not_atKeyword_of_begins ht (by decide) hs

theorem reads_axes {as : List AxisClause} (hsets : ∀ a ∈ as, a.set.Readable)
    (hindices : ∀ a ∈ as, a.index < axisLimit)
    (hs : s.Spells (commaTokens (as.map AxisClause.tokens) ++ .word "FROM" :: us)) :
    Reads (axes s) (∀ a ∈ as, a.set.depth ≤ nestingLimit)
      (fun placed => placed.map (fun b => b.2.unplaced) = as.map AxisClause.unplaced)
      (.word "FROM" :: us) := by
  rw [axes]
  cases as with
  | nil =>
    rw [Lexemes.Spells.atKeyword_cons hs, if_pos (sameName_refl _)]
    exact reads_ok (by nofun) rfl hs
  | cons a as =>
    have hfrom : s.atKeyword "FROM" = false := by
      have hset := hsets a List.mem_cons_self
      cases as with
      | nil =>
        rw [List.map_singleton, commaTokens_single] at hs
        exact axis_not_from hset hs
      | cons b bs =>
        rw [List.map_cons, List.map_cons, commaTokens_cons_cons, List.append_assoc] at hs
        exact axis_not_from hset hs
    have hnext : Closed (.word "FROM" :: us) := closed_word _
    rw [hfrom, if_neg (by nofun)]
    exact reads_separated (by nofun) (by nofun) hnext (fun vs => closed_comma)
      (fun b hb s vs hs _ => reads_placedAxis (hsets b hb) (hindices b hb) hs) hs

theorem checkAxes_of_nodup {count : Nat} {placed : List (Nat × AxisClause)} {seen : List Nat}
    (hbound : ∀ p ∈ placed, p.2.index < count)
    (hnodup : (placed.map fun p => p.2.index).Nodup)
    (hseen : ∀ p ∈ placed, p.2.index ∉ seen) : checkAxes count seen placed = .ok () := by
  induction placed generalizing seen with
  | nil => rfl
  | cons p placed ih =>
    rw [List.map_cons, List.nodup_cons] at hnodup
    rw [checkAxes, if_neg (Nat.not_le_of_gt (hbound p List.mem_cons_self)),
      if_neg (hseen p List.mem_cons_self)]
    refine ih (fun q hq => hbound q (List.mem_cons_of_mem _ hq)) hnodup.2 fun q hq hmem => ?_
    rcases List.mem_cons.1 hmem with heq | hmem
    · exact hnodup.1 (heq ▸ List.mem_map_of_mem hq)
    · exact hseen q (List.mem_cons_of_mem _ hq) hmem

theorem checkAxes_range {placed : List (Nat × AxisClause)} {n : Nat}
    (hplaced : placed.map (fun p => p.2.index) = List.range n) :
    checkAxes placed.length [] placed = .ok () := by
  have hlength : placed.length = n := by
    rw [← List.length_map, hplaced, List.length_range]
  apply checkAxes_of_nodup
  · intro p hp
    have hindex : p.2.index ∈ List.range n := by
      rw [← hplaced]
      exact List.mem_map_of_mem hp
    rw [hlength]
    exact List.mem_range.1 hindex
  · rw [hplaced]
    exact List.nodup_range
  · exact fun p hp => List.not_mem_nil

/-- Axes that are in order stay where they are. -/
theorem orderAxes_range {placed : List (Nat × AxisClause)} {n : Nat}
    (hplaced : placed.map (fun p => p.2.index) = List.range n) :
    orderAxes placed = placed.map fun p => p.2 := by
  apply List.mergeSort_of_pairwise
  have hsorted : ((placed.map fun p => p.2).map AxisClause.index).Pairwise (· ≤ ·) := by
    rw [List.map_map, show AxisClause.index ∘ (fun p : Nat × AxisClause => p.2) =
      fun p => p.2.index from rfl, hplaced]
    exact List.pairwise_le_range
  exact (List.pairwise_map.1 hsorted).imp fun h => decide_eq_true h

/-! ### Statements -/

theorem reads_cubeName {name : String} (hus : us.head? ≠ some (.symbol .dot))
    (hs : s.Spells (.bracketed name :: us)) : Reads (cubeName s) True (fun a => a = name) us := by
  rw [cubeName]
  refine (@reads_path _ _ [name] (by nofun) hus hs).map fun p s₁ hp hs₁ => ?_
  dsimp only
  rw [hp]
  exact reads_ok trivial rfl hs₁

theorem reads_slicer {slicer? : Option Expr} (hslicer : ∀ e ∈ slicer?, e.Readable)
    (hus : us = [] ∨ ∃ ts, us = .word "CELL" :: ts)
    (hs : s.Spells (slicerTokens slicer? ++ us)) :
    Reads (slicer s) (∀ e ∈ slicer?, e.depth ≤ nestingLimit)
      (fun a => a.map Expr.unplaced = slicer?.map Expr.unplaced) us := by
  rw [slicer]
  cases slicer? with
  | none =>
    have hs : s.Spells us := hs
    have hwhere : s.atKeyword "WHERE" = false := by
      rcases hus with rfl | ⟨ts, rfl⟩
      · exact hs.not_atKeyword (by nofun) _
      · rw [hs.atKeyword_cons]
        decide
    rw [hwhere, if_neg (by nofun)]
    exact reads_ok (by nofun) rfl hs
  | some e =>
    have hclosed : Closed us := by
      rcases hus with rfl | ⟨ts, rfl⟩
      · exact closed_nil
      · exact closed_word _
    rw [Lexemes.Spells.atKeyword_cons hs, if_pos (sameName_refl _)]
    refine Moves.bind (Lexemes.Spells.advance hs) fun s₁ hs₁ => ?_
    refine (((hslicer e rfl).reads hs₁ hclosed).congr ?_).map fun a s₂ ha hs₂ => ?_
    · simp
    · exact reads_ok trivial (congrArg some ha) hs₂

theorem reads_cellProperty {name : String} (hs : s.Spells (.bracketed name :: us)) :
    Reads (cellProperty s) True (fun a => a = name) us := by
  rw [cellProperty]
  refine Moves.bind hs.advance fun s₁ hs₁ => ?_
  rw [hs.peek?_cons]
  exact reads_ok trivial rfl hs₁

theorem reads_cellProperties {names : List String}
    (hs : s.Spells (nameTokens ["CELL", "PROPERTIES"] names ++ [])) :
    Reads (cellProperties s) True (fun as => as = names) [] := by
  rw [cellProperties]
  by_cases hnil : names = []
  · rw [nameTokens, if_pos hnil] at hs
    rw [Lexemes.Spells.not_atKeyword hs (by nofun), if_neg (by nofun)]
    exact reads_ok trivial hnil.symm hs
  · rw [nameTokens, if_neg hnil, List.append_assoc] at hs
    rw [Lexemes.Spells.atKeyword_cons hs, if_pos (sameName_refl _)]
    refine Moves.bind (Lexemes.Spells.advance hs) fun s₁ hs₁ => ?_
    refine Moves.bind (moves_keyword hs₁) fun s₂ hs₂ => ?_
    exact reads_nameList hnil (by nofun) (by nofun)
      (fun name s vs hs _ => reads_cellProperty hs) hs₂

theorem Statement.forall_exprs_iff {st : Statement} {P : Expr → Prop} :
    (∀ e ∈ st.exprs, P e) ↔
      (∀ d ∈ st.definitions, P d.expr) ∧ (∀ a ∈ st.axes, P a.set) ∧ ∀ e ∈ st.slicer?, P e := by
  simp only [exprs, List.forall_mem_append, List.forall_mem_map, Option.mem_toList]
  exact Iff.rfl

/-- Axes that read back alike have the same indices. -/
theorem indices_of_unplaced {placed : List (Nat × AxisClause)} {as : List AxisClause}
    (h : placed.map (fun p => p.2.unplaced) = as.map AxisClause.unplaced) :
    placed.map (fun p => p.2.index) = as.map AxisClause.index := by
  have hindex := congrArg (List.map AxisClause.index) h
  rw [List.map_map, List.map_map] at hindex
  exact hindex

/-- A statement reads back from its tokens. -/
theorem Statement.Readable.reads {st : Statement} (hst : st.Readable) (hs : s.Spells st.tokens) :
    Reads (statement s) (∀ e ∈ st.exprs, e.depth ≤ nestingLimit)
      (fun a => a.unplaced = st.unplaced) [] := by
  rw [Statement.tokens] at hs
  rw [statement]
  have hcell : nameTokens ["CELL", "PROPERTIES"] st.cellProperties = [] ∨
      ∃ ts, nameTokens ["CELL", "PROPERTIES"] st.cellProperties = .word "CELL" :: ts := by
    rw [nameTokens]
    split
    · exact .inl rfl
    · exact .inr ⟨_, rfl⟩
  have hslicer : (slicerTokens st.slicer? ++
      nameTokens ["CELL", "PROPERTIES"] st.cellProperties).head? ≠ some (.symbol .dot) := by
    cases st.slicer? with
    | some e => nofun
    | none =>
      rcases hcell with hcell | ⟨ts, hcell⟩
      all_goals
        rw [hcell]
        nofun
  -- The three places where expressions stand: definitions, axes and slicer.
  refine Reads.congr ?_ Statement.forall_exprs_iff.symm
  refine (reads_definitions hst.definitions hs).bind fun ds s₁ hds hs₁ => ?_
  refine Moves.bind (moves_keyword hs₁) fun s₂ hs₂ => ?_
  have hindex (a : AxisClause) (ha : a ∈ st.axes) := hst.index_lt ha
  refine (reads_axes hst.axes hindex hs₂).bind fun placed s₃ hplaced hs₃ => ?_
  refine Moves.bind (moves_keyword hs₃) fun s₄ hs₄ => ?_
  refine (reads_cubeName hslicer hs₄).next fun cube s₅ hcube hs₅ => ?_
  refine (reads_slicer hst.slicer hcell hs₅).map fun slicer? s₆ hslicer? hs₆ => ?_
  rw [← List.append_nil (nameTokens _ _)] at hs₆
  refine (reads_cellProperties hs₆).next fun names s₇ hnames hs₇ => ?_
  have hindices : placed.map (fun p => p.2.index) = List.range st.axes.length :=
    (indices_of_unplaced hplaced).trans hst.indices
  have hsemicolon : s₇.startsWith .semicolon = false := hs₇.not_startsWith (by nofun)
  dsimp only
  rw [hsemicolon, if_neg (by nofun)]
  refine Moves.bind ⟨s₇, rfl, hs₇⟩ fun s₈ hs₈ => ?_
  have hend : s₈.atEnd = true := by
    rw [Lexemes.atEnd, hs₈.peek?]
    rfl
  rw [if_pos hend, checkAxes_range hindices]
  refine reads_ok trivial ?_ hs₈
  rw [Statement.unplaced, Statement.unplaced, hds, hcube, hslicer?, hnames,
    orderAxes_range hindices, List.map_map, ← hplaced]
  rfl

end CubeQuery.Language
