import CubeQuery.Proofs.Language.Scanning
import CubeQuery.Proofs.Language.Tokens

/-!
Standard text is made of the tokens it was meant to have: for expressions by induction on what was
read, then for each clause of a statement and for the whole statement.
-/

namespace CubeQuery.Language

open CubeQuery.Number CubeQuery.Text

variable {α : Type} {c : Char} {cs : List Char} {ts us : List Token}

/-- The text has these tokens wherever a piece of standard text may end behind it. -/
def Writes (text : String) (ts : List Token) : Prop :=
  ∀ cs us, Ends cs → Spelled cs us → Spelled (text.toList ++ cs) (ts ++ us)

/-! ### What may stand behind a token -/

theorem ends_nil : Ends [] := by
  intro c hc
  cases hc

theorem ends_cons (hc : c ∈ [' ', ',', ')', '\x7d']) : Ends (c :: cs) := by
  rintro d ⟨⟩
  exact hc

theorem ends_blank : Ends (' ' :: cs) :=
  ends_cons (by decide)

theorem ends_comma : Ends (',' :: cs) :=
  ends_cons (by decide)

theorem Ends.head_ne (hcs : Ends cs) (hc : c ∉ [' ', ',', ')', '\x7d']) : cs.head? ≠ some c := by
  intro hhead
  exact hc (hcs c hhead)

theorem Ends.not_wordPart (hcs : Ends cs) : ∀ c ∈ cs.head?, isWordPart c = false := by
  intro c hc
  have := hcs c hc
  simp only [List.mem_cons, List.not_mem_nil, or_false] at this
  rcases this with rfl | rfl | rfl | rfl <;> rfl

theorem not_wordPart_openParen : ∀ c ∈ ('(' :: cs).head?, isWordPart c = false := by
  rintro c ⟨⟩
  decide

theorem plainWord_propertyName (p : Property) : plainWord p.name = true := by
  cases p <;> decide

theorem plainWord_functionName (f : SetFunction) : plainWord f.name = true := by
  cases f <;> decide

theorem plainWord_flagName (f : Flag) : plainWord f.name = true := by
  cases f <;> decide

/-! ### Lists and paths -/

theorem Spelled.comma (h : Spelled cs ts) : Spelled (',' :: ' ' :: cs) (.symbol .comma :: ts) :=
  Spelled.symbol .comma (by nofun) (by nofun) h.blank

theorem writes_commas {text : α → String} {tokens : α → List Token} {xs : List α}
    (hxs : ∀ x ∈ xs, Writes (text x) (tokens x)) :
    Writes (", ".intercalate (xs.map text)) (commaTokens (xs.map tokens)) := by
  intro cs us hcs h
  induction xs with
  | nil => exact h
  | cons x xs ih =>
    have hx := hxs x List.mem_cons_self
    have hrest := ih fun y hy => hxs y (List.mem_cons_of_mem _ hy)
    cases xs with
    | nil =>
      rw [List.map_singleton, List.map_singleton, String.intercalate_singleton,
        commaTokens_single]
      exact hx cs us hcs h
    | cons y ys =>
      simp only [List.map_cons, String.intercalate_cons_cons, commaTokens_cons_cons,
        String.toList_append, List.append_assoc, List.cons_append]
      exact hx _ _ ends_comma hrest.comma

/-- Items in brackets. Anything may follow the closing bracket. -/
theorem spelled_enclosed {text : α → String} {tokens : α → List Token} {xs : List α}
    (close : Symbol) (hclose : close ∈ [Symbol.closeParen, Symbol.closeBrace])
    (hxs : ∀ x ∈ xs, Writes (text x) (tokens x)) (h : Spelled cs us) :
    Spelled ((", ".intercalate (xs.map text)).toList ++ close.char :: cs)
      (commaTokens (xs.map tokens) ++ .symbol close :: us) := by
  simp only [List.mem_cons, List.not_mem_nil, or_false] at hclose
  rcases hclose with rfl | rfl
  · exact writes_commas hxs _ _ (ends_cons (by decide))
      (Spelled.symbol .closeParen (by nofun) (by nofun) h)
  · exact writes_commas hxs _ _ (ends_cons (by decide))
      (Spelled.symbol .closeBrace (by nofun) (by nofun) h)

/-- A dot may follow a path too. -/
theorem spelled_path {names : List String} (hnames : names ≠ []) (hcs : cs.head? ≠ some ']')
    (h : Spelled cs us) :
    Spelled ((bracketedPath names).toList ++ cs) (pathTokens names ++ us) := by
  induction names with
  | nil => exact absurd rfl hnames
  | cons name names ih =>
    cases names with
    | nil =>
      rw [bracketedPath, List.map_singleton, String.intercalate_singleton]
      exact Spelled.bracketed name hcs h
    | cons next names =>
      have hrest := ih (by nofun)
      rw [bracketedPath, List.map_cons, List.map_cons, String.intercalate_cons_cons,
        String.toList_append, String.toList_append, List.append_assoc, List.append_assoc]
      apply Spelled.bracketed name (by nofun)
      exact Spelled.symbol .dot (by nofun) (by nofun) hrest

/-- A path determines its segments, since it can be read back. -/
theorem bracketedPath_injective {names names' : List String} (hnames : names ≠ [])
    (hnames' : names' ≠ []) (h : bracketedPath names = bracketedPath names') : names = names' := by
  have hspelled {ns : List String} (hns : ns ≠ []) :
      Spelled (bracketedPath ns).toList (pathTokens ns) := by
    have hspelled := spelled_path hns (by nofun) spelled_nil
    rwa [List.append_nil, List.append_nil] at hspelled
  exact pathTokens_injective ((hspelled hnames).unique (h ▸ hspelled hnames'))

theorem writes_path {names : List String} (hnames : names ≠ []) :
    Writes (bracketedPath names) (pathTokens names) :=
  fun _ _ hcs h => spelled_path hnames (hcs.head_ne (by decide)) h

theorem writes_bracketed (name : String) : Writes (bracketed name) [.bracketed name] :=
  fun _ _ hcs h => Spelled.bracketed name (hcs.head_ne (by decide)) h

theorem writes_text (s : String) : Writes (textLiteral s) [.text s] :=
  fun _ _ hcs h => Spelled.text s (hcs.head_ne (by decide)) h

theorem writes_word {w : String} (hw : plainWord w = true) : Writes w [.word w] :=
  fun _ _ hcs h => Spelled.word hw hcs.not_wordPart h

theorem writes_number {x : Float} (hx : Unsigned x) : Writes (shortestText x) [.number x] := by
  intro cs us hcs h
  obtain ⟨whole, places, htext, hwhole, hdigits, hvalue⟩ := shortestText_spelled hx
  rw [htext]
  exact Spelled.number hwhole hdigits hvalue (isFinite_unsigned hx) hcs h

/-! ### Expressions -/

theorem bracketedPath_head {names : List String} (hnames : names ≠ []) :
    ∃ run, (bracketedPath names).toList = '[' :: run := by
  cases names with
  | nil => exact absurd rfl hnames
  | cons name names =>
    cases names with
    | nil =>
      rw [bracketedPath, List.map_singleton, String.intercalate_singleton, bracketed,
        String.toList_ofList]
      exact ⟨_, rfl⟩
    | cons next names =>
      rw [bracketedPath, List.map_cons, List.map_cons, String.intercalate_cons_cons,
        String.toList_append, String.toList_append, bracketed, String.toList_ofList]
      exact ⟨_, rfl⟩

/-- Only a negation starts with a minus sign. -/
theorem Expr.Readable.starts {e : Expr} (he : e.Readable) (hn : e.isNegation = false) :
    ∃ c run, e.render.toList = c :: run ∧ c ≠ '-' := by
  cases he with
  | path hsegments =>
    obtain ⟨run, hrun⟩ := bracketedPath_head hsegments
    exact ⟨'[', run, hrun, by decide⟩
  | property hsegments relative =>
    obtain ⟨run, hrun⟩ := bracketedPath_head hsegments
    rw [Expr.render, Path.render, String.toList_append, String.toList_append, hrun]
    exact ⟨'[', _, rfl, by decide⟩
  | set hitems =>
    rw [Expr.render, String.toList_append, String.toList_append]
    exact ⟨'\x7b', _, rfl, by decide⟩
  | tuple hlength hitems =>
    rw [Expr.render, String.toList_append, String.toList_append]
    exact ⟨'(', _, rfl, by decide⟩
  | @call f arguments harity harguments =>
    rw [Expr.render, String.toList_append, String.toList_append, String.toList_append]
    cases f
    all_goals exact ⟨_, _, rfl, by decide⟩
  | @number x hx =>
    obtain ⟨whole, places, htext, hwhole, hdigits, -⟩ := shortestText_spelled hx
    obtain ⟨c, run, rfl⟩ := List.exists_cons_of_ne_nil hwhole
    refine ⟨c, _, htext, ?_⟩
    rintro rfl
    have := hdigits '-' List.mem_cons_self
    revert this
    decide
  | text s =>
    rw [Expr.render, textLiteral, String.toList_ofList]
    exact ⟨'"', _, rfl, by decide⟩
  | flag f =>
    cases f
    all_goals exact ⟨_, _, rfl, by decide⟩
  | negate he => cases hn
  | binary op hleft hright =>
    rw [Expr.render]
    simp only [String.toList_append]
    exact ⟨'(', _, rfl, by decide⟩

theorem spelled_operator (op : Operator) (h : Spelled cs us) :
    Spelled (' ' :: (op.symbol.toList ++ ' ' :: cs)) (op.token :: us) := by
  apply Spelled.blank
  cases op with
  | add => exact Spelled.symbol .plus (by nofun) (by nofun) h.blank
  | subtract => exact Spelled.symbol .minus (fun _ => by nofun) (by nofun) h.blank
  | multiply => exact Spelled.symbol .star (by nofun) (by nofun) h.blank
  | divide => exact Spelled.symbol .slash (by nofun) (fun _ => rfl) h.blank

theorem Expr.renderAll_eq (items : List Expr) : renderAll items = items.map render := by
  induction items with
  | nil => rfl
  | cons e es ih => rw [renderAll, ih, List.map_cons]

/-- The standard text of an expression has the expression's tokens. -/
theorem Expr.Readable.writes {e : Expr} (he : e.Readable) (hn : e.NegatesOnce) :
    Writes e.render e.tokens := by
  induction he with
  | path hsegments => exact writes_path hsegments
  | @property p hsegments relative =>
    intro cs us hcs h
    rw [Expr.render, Expr.tokens]
    simp only [String.toList_append, List.append_assoc]
    apply spelled_path hsegments (by nofun)
    apply Spelled.symbol .dot (by nofun) (by nofun)
    exact writes_word (plainWord_propertyName relative) _ _ hcs h
  | @set items hitems ih =>
    intro cs us hcs h
    rw [Expr.NegatesOnce, Expr.negatesOnceAll_iff] at hn
    rw [Expr.render, Expr.tokens, Expr.renderAll_eq, Expr.tokensAll_eq]
    simp only [String.toList_append, List.append_assoc, List.cons_append]
    apply Spelled.symbol .openBrace (by nofun) (by nofun)
    exact spelled_enclosed .closeBrace (by decide) (fun e he => ih e he (hn e he)) h
  | @tuple items hlength hitems ih =>
    intro cs us hcs h
    rw [Expr.NegatesOnce, Expr.negatesOnceAll_iff] at hn
    rw [Expr.render, Expr.tokens, Expr.renderAll_eq, Expr.tokensAll_eq]
    simp only [String.toList_append, List.append_assoc, List.cons_append]
    apply Spelled.symbol .openParen (by nofun) (by nofun)
    exact spelled_enclosed .closeParen (by decide) (fun e he => ih e he (hn e he)) h
  | @call f arguments harity harguments ih =>
    intro cs us hcs h
    rw [Expr.NegatesOnce, Expr.negatesOnceAll_iff] at hn
    rw [Expr.render, Expr.tokens, Expr.renderAll_eq, Expr.tokensAll_eq]
    simp only [String.toList_append, List.append_assoc, List.cons_append]
    apply Spelled.word (plainWord_functionName f) not_wordPart_openParen
    apply Spelled.symbol .openParen (by nofun) (by nofun)
    exact spelled_enclosed .closeParen (by decide) (fun e he => ih e he (hn e he)) h
  | number hx => exact writes_number hx
  | text s => exact writes_text s
  | flag f => exact writes_word (plainWord_flagName f)
  | @negate e he ih =>
    intro cs us hcs h
    rw [Expr.NegatesOnce] at hn
    -- Two minus signs in a row would begin a comment, and the operand starts with none.
    obtain ⟨c, run, hrun, hc⟩ := he.starts hn.1
    have hoperand := ih hn.2 _ _ hcs h
    rw [Expr.render, Expr.tokens]
    simp only [String.toList_append, List.append_assoc, List.cons_append]
    apply Spelled.symbol .minus _ (by nofun) hoperand
    intro _
    rw [hrun]
    intro hhead
    exact hc (Option.some.inj hhead)
  | @binary op left right hleft hright ihl ihr =>
    intro cs us hcs h
    rw [Expr.NegatesOnce] at hn
    have hclose : Spelled (')' :: cs) (.symbol .closeParen :: us) :=
      Spelled.symbol .closeParen (by nofun) (by nofun) h
    have hoperands := ihr hn.2 _ _ (ends_cons (by decide)) hclose
    rw [Expr.render, Expr.tokens]
    simp only [String.toList_append, List.append_assoc, List.cons_append]
    apply Spelled.symbol .openParen (by nofun) (by nofun)
    exact ihl hn.1 _ _ ends_blank (spelled_operator op hoperands)

/-! ### Clauses -/

/-- A piece of a statement that may be left out. The piece before it may end there. -/
structure Clause (text : String) (ts : List Token) : Prop where
  writes : Writes text ts
  ends {cs : List Char} (hcs : Ends cs) : Ends (text.toList ++ cs)

theorem Writes.append {text next : String} (h : Writes text ts) (hnext : Clause next us) :
    Writes (text ++ next) (ts ++ us) := by
  intro cs vs hcs hv
  rw [String.toList_append, List.append_assoc, List.append_assoc]
  exact h _ _ (hnext.ends hcs) (hnext.writes _ _ hcs hv)

theorem Writes.clause {text : String} (h : Writes text ts) : Clause (" " ++ text) ts := by
  constructor
  · intro cs us hcs hu
    rw [String.toList_append, List.append_assoc]
    exact (h _ _ hcs hu).blank
  · intro cs hcs
    rw [String.toList_append, List.append_assoc]
    exact ends_blank

theorem clause_none : Clause "" [] :=
  ⟨fun _ _ _ h => h, fun hcs => hcs⟩

theorem Clause.append {text next : String} (h : Clause text ts) (hnext : Clause next us) :
    Clause (text ++ next) (ts ++ us) := by
  constructor
  · exact h.writes.append hnext
  · intro cs hcs
    rw [String.toList_append, List.append_assoc]
    exact h.ends (hnext.ends hcs)

/-- A keyword, and after a blank what it announces. -/
theorem Writes.announced {w text : String} (hw : plainWord w = true) (h : Writes text ts) :
    Writes (w ++ (" " ++ text)) (.word w :: ts) :=
  (writes_word hw).append h.clause

theorem clause_names {keyword first second : String} {names : List String}
    (hkeyword : keyword = " " ++ (first ++ (" " ++ (second ++ " "))))
    (hfirst : plainWord first = true) (hsecond : plainWord second = true) :
    Clause (renderNames keyword names) (nameTokens [first, second] names) := by
  unfold renderNames nameTokens
  split
  · exact clause_none
  · have hnames : Writes (", ".intercalate (names.map bracketed))
        (commaTokens (names.map fun name => [.bracketed name])) :=
      writes_commas fun name _ => writes_bracketed name
    rw [hkeyword]
    simp only [String.append_assoc]
    exact ((hnames.announced hsecond).announced hfirst).clause

/-! ### Definitions -/

theorem spelled_whole {n : Nat} (hn : n < 2 ^ 53) (hcs : Ends cs) (h : Spelled cs us) :
    Spelled (digitsOf n ++ cs) (wholeToken n :: us) := by
  have hdigits : ∀ c ∈ digitsOf n ++ [], c.isDigit = true := by
    intro c hc
    rw [List.append_nil] at hc
    exact isDigit_of_mem_digitsOf hc
  have hvalue : (Decimal.mk (ofDigits (digitsOf n ++ [])) (-(([] : List Char).length : Int))) =
      Decimal.mk n 0 := by
    rw [List.append_nil, ofDigits_digitsOf]
    rfl
  have hspelled := Spelled.number Nat.toDigits_ne_nil hdigits (congrArg Decimal.toFloat hvalue)
    (isFinite_unsigned (unsigned_whole hn)) hcs h
  rw [if_pos rfl, List.append_nil] at hspelled
  exact hspelled

theorem digitsOf_head_ne_minus (n : Nat) : (digitsOf n ++ cs).head? ≠ some '-' := by
  obtain ⟨c, run, hrun⟩ := List.exists_cons_of_ne_nil (@Nat.toDigits_ne_nil n 10)
  have hdigit : c.isDigit = true := isDigit_of_mem_digitsOf (by rw [digitsOf, hrun]; exact .head _)
  rw [digitsOf, hrun]
  rintro ⟨⟩
  cases hdigit

theorem writes_int {n : Int} (hn : n.natAbs < 2 ^ 53) : Writes (renderInt n) (intTokens n) := by
  intro cs us hcs h
  have hdigits := spelled_whole hn hcs h
  unfold renderInt intTokens signed
  by_cases hnegative : n < 0
  · rw [if_pos (decide_eq_true hnegative), if_pos hnegative, String.toList_append,
      String.toList_ofList (l := digitsOf n.natAbs), List.append_assoc]
    exact Spelled.symbol .minus (fun _ => digitsOf_head_ne_minus _) (by nofun) hdigits
  · rw [if_neg (by simpa using hnegative), if_neg hnegative, String.toList_ofList]
    exact hdigits

/-- A setting of a calculated member: its word, an equals sign and its value. -/
theorem clause_setting {w value : String} (hw : plainWord w = true) (hvalue : Writes value ts) :
    Clause (", " ++ (w ++ (" = " ++ value)))
      (.symbol .comma :: .word w :: .symbol .equals :: ts) := by
  constructor
  · intro cs us hcs h
    simp only [String.toList_append, List.append_assoc]
    have hequals : Spelled (' ' :: '=' :: ' ' :: (value.toList ++ cs))
        (.symbol .equals :: (ts ++ us)) :=
      (Spelled.symbol .equals (by nofun) (by nofun) (hvalue _ _ hcs h).blank).blank
    exact (Spelled.word hw ends_blank.not_wordPart hequals).comma
  · intro cs hcs
    rw [String.toList_append, List.append_assoc]
    exact ends_comma

theorem solveOrderLimit_lt : solveOrderLimit < 2 ^ 53 := by
  decide

theorem Definition.Readable.clause {d : Definition} (hd : d.Readable) (hn : d.expr.NegatesOnce) :
    Clause d.render d.tokens := by
  have hbody := hd.expr.writes hn
  have hpath := writes_path hd.segments
  cases d with
  | member d =>
    have hkeyword : (" MEMBER " : String) = " " ++ ("MEMBER" ++ " ") := rfl
    have has : (" AS " : String) = " " ++ ("AS" ++ " ") := rfl
    unfold Definition.render Definition.tokens MemberDefinition.settings
    dsimp only
    rw [hkeyword, has, List.flatMap_append]
    simp only [String.append_assoc]
    -- The two settings may be left out, each for itself.
    refine ((hpath.append (((hbody.append (.append ?_ ?_)).announced (by decide)).clause)).announced
      (by decide)).clause
    · cases d.format? with
      | none => exact clause_none
      | some f =>
        have hkeyword : (", FORMAT_STRING = " : String) = ", " ++ ("FORMAT_STRING" ++ " = ") := rfl
        dsimp only
        rw [hkeyword, String.append_assoc, String.append_assoc]
        exact clause_setting (by decide) (writes_text f)
    · split
      · exact clause_none
      · have hkeyword : (", SOLVE_ORDER = " : String) = ", " ++ ("SOLVE_ORDER" ++ " = ") := rfl
        rw [hkeyword, String.append_assoc, String.append_assoc, List.flatMap_singleton]
        exact clause_setting (by decide)
          (writes_int (Nat.lt_of_le_of_lt hd.order solveOrderLimit_lt))
  | set d =>
    have hkeyword : (" SET " : String) = " " ++ ("SET" ++ " ") := rfl
    have has : (" AS " : String) = " " ++ ("AS" ++ " ") := rfl
    unfold Definition.render
    dsimp only
    rw [hkeyword, has]
    simp only [String.append_assoc]
    exact ((hpath.append (hbody.announced (by decide)).clause).announced (by decide)).clause

theorem clause_definitions {ds : List Definition} (hds : ∀ d ∈ ds, d.Readable)
    (hn : ∀ d ∈ ds, d.expr.NegatesOnce) :
    Clause (String.join (ds.map Definition.render)) (ds.flatMap Definition.tokens) := by
  induction ds with
  | nil => exact clause_none
  | cons d ds ih =>
    have hd := (hds d List.mem_cons_self).clause (hn d List.mem_cons_self)
    have hrest := ih (fun d hd => hds d (List.mem_cons_of_mem _ hd))
      fun d hd => hn d (List.mem_cons_of_mem _ hd)
    rw [List.map_cons, String.join_cons, List.flatMap_cons]
    exact hd.append hrest

theorem Writes.after_definitions {ds : List Definition} {text : String}
    (hds : Clause (String.join (ds.map Definition.render)) (ds.flatMap Definition.tokens))
    (h : Writes text ts) :
    Writes
      ((if ds.isEmpty then "" else "WITH" ++ (String.join (ds.map Definition.render) ++ " ")) ++
        text)
      ((if ds = [] then [] else .word "WITH" :: ds.flatMap Definition.tokens) ++ ts) := by
  cases ds with
  | nil => exact h
  | cons d ds =>
    rw [if_neg (by nofun), if_neg (by nofun), String.append_assoc, String.append_assoc]
    exact (@writes_word "WITH" (by decide)).append (hds.append h.clause)

/-! ### Axes and statements -/

theorem writes_axisName {n : Nat} (hn : n < 2 ^ 53) : Writes (axisName n) (axisTokens n) := by
  by_cases hnamed : n < 5
  · have hplain : ∀ n < 5, plainWord (axisName n) = true := by decide
    rw [axisTokens, if_pos hnamed]
    exact writes_word (hplain n hnamed)
  · intro cs us hcs h
    have hname : axisName n = "AXIS(" ++ String.ofList (digitsOf n) ++ ")" := by
      obtain ⟨k, rfl⟩ : ∃ k, n = k + 5 := ⟨n - 5, by omega⟩
      rfl
    have hclose : Spelled (')' :: cs) (.symbol .closeParen :: us) :=
      Spelled.symbol .closeParen (by nofun) (by nofun) h
    have hopen : Spelled ('(' :: (digitsOf n ++ ')' :: cs)) _ :=
      Spelled.symbol .openParen (by nofun) (by nofun)
        (spelled_whole hn (ends_cons (by decide)) hclose)
    rw [hname, axisTokens, if_neg hnamed]
    simp only [String.toList_append, List.append_assoc, String.toList_ofList]
    exact @Spelled.word _ _ "AXIS" (by decide) not_wordPart_openParen hopen

theorem writes_axis {a : AxisClause} (hset : a.set.Readable) (hn : a.set.NegatesOnce)
    (hindex : a.index < 2 ^ 53) : Writes a.render a.tokens := by
  have hproperties := @clause_names " DIMENSION PROPERTIES " "DIMENSION" "PROPERTIES" a.properties
    rfl (by decide) (by decide)
  have hon : (" ON " : String) = " " ++ ("ON" ++ " ") := rfl
  have hall := (hset.writes hn).append
    (hproperties.append ((writes_axisName hindex).announced (w := "ON") (by decide)).clause)
  unfold AxisClause.render AxisClause.tokens
  rw [hon]
  simp only [String.append_assoc]
  cases a.nonEmpty with
  | false => exact hall
  | true =>
    have hkeyword : ("NON EMPTY " : String) = "NON" ++ (" " ++ ("EMPTY" ++ " ")) := rfl
    rw [if_pos rfl, if_pos rfl, hkeyword]
    simp only [String.append_assoc]
    exact (hall.announced (by decide)).announced (by decide)

theorem axisLimit_lt : axisLimit < 2 ^ 53 := by
  decide

theorem Statement.Readable.clause_axes {s : Statement} (hs : s.Readable)
    (hn : ∀ e ∈ s.exprs, e.NegatesOnce) :
    Clause (if s.axes.isEmpty then "" else " " ++ ", ".intercalate (s.axes.map AxisClause.render))
      (commaTokens (s.axes.map AxisClause.tokens)) := by
  have hcommas : Writes (", ".intercalate (s.axes.map AxisClause.render))
      (commaTokens (s.axes.map AxisClause.tokens)) := by
    apply writes_commas
    intro a ha
    have hset : a.set ∈ s.exprs :=
      List.mem_append_right _ (List.mem_append_left _ (List.mem_map_of_mem ha))
    exact writes_axis (hs.axes a ha) (hn _ hset) (Nat.lt_trans (hs.index_lt ha) axisLimit_lt)
  cases haxes : s.axes with
  | nil => exact clause_none
  | cons a as =>
    rw [← haxes, if_neg (by rw [haxes]; nofun)]
    exact hcommas.clause

/-- The standard text of a statement has the statement's tokens. -/
theorem Statement.Readable.writes {s : Statement} (hs : s.Readable)
    (hn : ∀ e ∈ s.exprs, e.NegatesOnce) : Writes s.render s.tokens := by
  have hdefinitions := clause_definitions hs.definitions fun d hd =>
    hn _ (List.mem_append_left _ (List.mem_map_of_mem hd))
  have hproperties := @clause_names " CELL PROPERTIES " "CELL" "PROPERTIES" s.cellProperties
    rfl (by decide) (by decide)
  have hcube {slicer : String} (hslicer : Clause slicer (slicerTokens s.slicer?)) :=
    (writes_bracketed s.cube).append (hslicer.append hproperties)
  have hselect {slicer : String} (hslicer : Clause slicer (slicerTokens s.slicer?)) :=
    (@writes_word "SELECT" (by decide)).append
      ((hs.clause_axes hn).append ((hcube hslicer).announced (w := "FROM") (by decide)).clause)
  have hfrom : (" FROM " : String) = " " ++ ("FROM" ++ " ") := rfl
  unfold Statement.render Statement.tokens
  dsimp only
  rw [hfrom]
  simp only [String.append_assoc]
  refine Writes.after_definitions hdefinitions (hselect ?_)
  cases hslicer : s.slicer? with
  | none => exact clause_none
  | some e =>
    have he : e ∈ s.exprs := by
      refine List.mem_append_right _ (List.mem_append_right _ ?_)
      rw [hslicer]
      exact List.mem_singleton_self e
    have hwhere : (" WHERE " : String) = " " ++ ("WHERE" ++ " ") := rfl
    dsimp only
    rw [hwhere, String.append_assoc, String.append_assoc]
    exact (((hs.slicer e hslicer).writes (hn e he)).announced (by decide)).clause

end CubeQuery.Language
