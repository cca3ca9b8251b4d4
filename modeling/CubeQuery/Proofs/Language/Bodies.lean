import CubeQuery.Proofs.Language.LineBreaks
import CubeQuery.Proofs.Language.PathPlaces

/-!
The body of a definition in its two forms. Between single quotes, with every single quote inside it
doubled, an expression means what it means without them in front of a line break.
-/

namespace CubeQuery.Language

open Lexemes CubeQuery.Text

variable {r r' s s' rest : Lexemes} {ls path : List Lexeme} {l word as : Lexeme}
  {names : List String}

/-! ### Up to the body -/

theorem checked_of_readable (h : ∀ error, s ≠ .broken error) : s.checked = .ok s := by
  cases s with
  | broken error => exact absurd rfl (h error)
  | _ => rfl

theorem along_prepend (ls : List Lexeme) : Along r r' (prepend ls r) (prepend ls r') := by
  induction ls with
  | nil => exact .stop
  | cons l ls ih => exact .cons rfl ih

theorem Names.pathSegments (h : Names ls names) (hrest : ∀ error, rest ≠ .broken error)
    (hdot : rest.startsWith .dot = false) :
    pathSegments (prepend ls rest) = .ok (names, rest) := by
  induction h with
  | single hl =>
    show Language.pathSegments (.cons _ rest) = _
    rw [pathSegments_cons hl, advance, checked_of_readable hrest]
    show (if rest.startsWith .dot then _ else _) = _
    rw [hdot, if_neg Bool.false_ne_true]
    rfl
  | @cons l dot ls name names hl hdot' h ih =>
    have hreadable : (prepend ls rest).checked = .ok (prepend ls rest) := by
      obtain ⟨next, us, rfl, -⟩ := h.exists_head
      rfl
    show Language.pathSegments (.cons l (.cons dot (prepend ls rest))) = _
    rw [pathSegments_cons hl]
    show (if (Lexemes.cons dot (prepend ls rest)).startsWith .dot then _ else _) = _
    rw [if_pos (startsWith_of_eq hdot'), advance, hreadable]
    show (Language.pathSegments (prepend ls rest) >>= _) = _
    rw [ih]
    rfl

/-- A definition that is read up to its body. -/
theorem definition_prepend (word : Lexeme) (hpath : Names path names) (has : as.IsWord "AS")
    (hs : ∀ error, s ≠ .broken error) :
    ∃ start, definition (.cons word (prepend path (.cons as s))) =
      definitionBody s >>= fun a =>
        if (Lexemes.cons word s).atKeyword "MEMBER" then
          repeated (·.startsWith .comma) memberSetting a.2 >>= fun b =>
            pure (.member (b.1.foldl MemberDefinition.apply ⟨⟨names, start⟩, a.1, none, 0⟩), b.2)
        else pure (.set ⟨⟨names, start⟩, a.1⟩, a.2) := by
  obtain ⟨first, us, hfirst, -⟩ := hpath.exists_head
  have hadvance : (Lexemes.cons word (prepend path (.cons as s))).advance =
      .ok (prepend path (.cons as s)) := by
    rw [hfirst]
    rfl
  have hdot : (Lexemes.cons as s).startsWith .dot = false := by
    obtain ⟨w, hw, -⟩ := has
    refine startsWith_of_ne ?_
    rw [hw]
    nofun
  have hread : Language.path (prepend path (.cons as s)) =
      .ok (⟨names, first.start⟩, .cons as s) := by
    rw [Language.path, hpath.pathSegments (cons_readable as s) hdot, hfirst]
    rfl
  have hkeyword : (Lexemes.cons as s).expectKeyword "AS" = .ok s := by
    rw [expectKeyword, if_pos (atKeyword_of_isWord has)]
    exact checked_of_readable hs
  refine ⟨first.start, ?_⟩
  rw [definition, hadvance]
  show (Language.path (prepend path (.cons as s)) >>= _) = _
  rw [hread]
  show ((Lexemes.cons as s).expectKeyword "AS" >>= _) = _
  rw [hkeyword]
  rfl

/-- Lexemes that are read as a definition if nothing follows them. -/
structure DefinitionAlone (ls : List Lexeme) : Prop where
  announced : atDefinition (prepend ls (.finish 0)) = true
  read : ∃ d, definition (prepend ls (.finish 0)) = .ok (d, .finish 0)

/-- What stands before the body of a definition: the definitions before it and its beginning. -/
inductive BeforeBody : List Lexeme → Prop
  | mk {first word as : Lexeme} {groups : List (List Lexeme)} {path : List Lexeme}
      {names : List String} (hfirst : first.IsWord "WITH")
      (hgroups : ∀ ls ∈ groups, DefinitionAlone ls)
      (hword : word.IsWord "MEMBER" ∨ word.IsWord "SET") (hpath : Names path names)
      (has : as.IsWord "AS") : BeforeBody (first :: (groups.flatten ++ word :: (path ++ [as])))

theorem atDefinition_cons (hword : word.IsWord "MEMBER" ∨ word.IsWord "SET") (s : Lexemes) :
    atDefinition (.cons word s) = true := by
  rw [atDefinition]
  rcases hword with hword | hword
  · rw [atKeyword_of_isWord hword, Bool.true_or]
  · rw [atKeyword_of_isWord hword, Bool.or_true]

theorem Definition.shorter {d : Definition} (hs : atDefinition s = true)
    (hd : definition s = .ok (d, rest)) : rest.size < s.size := by
  obtain ⟨ls, hls, hwritten⟩ := (accounts_definition hs).result hd
  exact hls.size_lt hwritten.ne_nil

/-- One definition after another. -/
theorem tracks_definition_cons (hs : atDefinition s = true) (hs' : atDefinition s' = true)
    (h : ∀ d u, definition s = .ok (d, u) → ∃ d' u', definition s' = .ok (d', u') ∧
      d'.unplaced = d.unplaced ∧ Tracks r r' (List.map Definition.unplaced)
        (repeated atDefinition definition u) (repeated atDefinition definition u')) :
    Tracks r r' (List.map Definition.unplaced) (repeated atDefinition definition s)
      (repeated atDefinition definition s') := by
  rw [repeated, repeated, hs, hs']
  cases hd : definition s with
  | error error => exact tracks_error
  | ok p =>
    obtain ⟨d, u⟩ := p
    obtain ⟨d', u', hd', hview, hrest⟩ := h d u hd
    rw [hd']
    show Tracks r r' _ (if u.size < s.size then _ else _) (if u'.size < s'.size then _ else _)
    rw [if_pos (Definition.shorter hs hd), if_pos (Definition.shorter hs' hd')]
    refine hrest.bind fun ds ds' v v' hds hv => tracks_ok ?_ hv
    rw [List.map_cons, List.map_cons, hview, hds]

theorem exists_word (h : atDefinition s = true) : ∃ w, s.peek? = some (.word w) := by
  obtain ⟨l, rest, rfl, ⟨-, w, hl, -⟩ | ⟨-, w, hl, -⟩⟩ := atDefinition_cases h
  · exact ⟨w, congrArg some hl⟩
  · exact ⟨w, congrArg some hl⟩

/-- A definition is the same one in front of another one. -/
theorem DefinitionAlone.read_before (h : DefinitionAlone ls) (hs : atDefinition s = true) :
    atDefinition (prepend ls s) = true ∧
      ∀ d, definition (prepend ls (.finish 0)) = .ok (d, .finish 0) →
        ∃ d', definition (prepend ls s) = .ok (d', s) ∧ d'.unplaced = d.unplaced := by
  obtain ⟨w, hw⟩ := exists_word hs
  have hsymbol (x : Symbol) : s.startsWith x = false := by
    rw [startsWith, hw]
    rfl
  have hparting : Parting (.finish 0) s := by
    refine ⟨rfl, fun _ error hbroken => ?_, fun x _ => hsymbol x⟩
    rw [hbroken] at hw
    cases hw
  refine ⟨?_, fun d hd => ?_⟩
  · cases ls with
    | nil => cases h.announced
    | cons l ls => exact h.announced
  · obtain ⟨d', u, hd', hview, hu⟩ :=
      tracks_definition hparting (hsymbol .comma) (along_prepend ls) d _ hd
    cases hu
    exact ⟨d', hd', hview⟩

/-- The definitions before another one. -/
theorem tracks_definitions_before {groups : List (List Lexeme)}
    (hgroups : ∀ ls ∈ groups, DefinitionAlone ls) (hs : atDefinition s = true)
    (hs' : atDefinition s' = true) (h : Tracks r r' (List.map Definition.unplaced)
      (repeated atDefinition definition s) (repeated atDefinition definition s')) :
    atDefinition (prepend groups.flatten s) = true ∧
      atDefinition (prepend groups.flatten s') = true ∧
      Tracks r r' (List.map Definition.unplaced)
        (repeated atDefinition definition (prepend groups.flatten s))
        (repeated atDefinition definition (prepend groups.flatten s')) := by
  induction groups with
  | nil => exact ⟨hs, hs', h⟩
  | cons ls groups ih =>
    obtain ⟨hls, hgroups⟩ := List.forall_mem_cons.1 hgroups
    obtain ⟨ht, ht', hrest⟩ := ih hgroups
    obtain ⟨hu, hread⟩ := hls.read_before ht
    obtain ⟨hu', hread'⟩ := hls.read_before ht'
    rw [List.flatten_cons, prepend_append, prepend_append]
    refine ⟨hu, hu', tracks_definition_cons hu hu' fun d u hd => ?_⟩
    obtain ⟨d₀, hd₀⟩ := hls.read
    obtain ⟨d₁, hd₁, hview⟩ := hread d₀ hd₀
    obtain ⟨d₂, hd₂, hview'⟩ := hread' d₀ hd₀
    cases hd₁.symm.trans hd
    exact ⟨d₂, _, hd₂, hview'.trans hview.symm, hrest⟩

theorem definitions_cons {first : Lexeme} (hfirst : first.IsWord "WITH")
    (hs : atDefinition s = true) : definitions (.cons first s) =
      repeated atDefinition definition s >>= fun a =>
        if a.1.isEmpty then a.2.fail (.expected .definition) else pure a := by
  have hadvance : (Lexemes.cons first s).advance = .ok s := by
    obtain ⟨l, rest, rfl, -⟩ := atDefinition_cases hs
    rfl
  rw [definitions, if_pos (atKeyword_of_isWord hfirst), hadvance]
  rfl

section

variable (hclosing : Closing r r') (hs : ∀ error, s ≠ .broken error)
  (hs' : ∀ error, s' ≠ .broken error)
  (hbody : Tracks r r' Expr.unplaced (definitionBody s) (definitionBody s'))

include hclosing hs hs' hbody

/-- The definition that has the body, and those behind it. -/
theorem tracks_with_body (hword : word.IsWord "MEMBER" ∨ word.IsWord "SET")
    (hpath : Names path names) (has : as.IsWord "AS") :
    Tracks r r' (List.map Definition.unplaced)
      (repeated atDefinition definition (.cons word (prepend path (.cons as s))))
      (repeated atDefinition definition (.cons word (prepend path (.cons as s')))) := by
  have hcomma : r'.startsWith .comma = false := by
    rw [startsWith, hclosing.second]
    rfl
  have hannounced (u u' : Lexemes) (hu : Along r r' u u') : atDefinition u' = atDefinition u := by
    rw [atDefinition, atDefinition, hu.atKeyword_eq hclosing, hu.atKeyword_eq hclosing]
  refine tracks_definition_cons (atDefinition_cons hword _) (atDefinition_cons hword _)
    fun d u hd => ?_
  obtain ⟨start, heq⟩ := definition_prepend word hpath has hs
  obtain ⟨start', heq'⟩ := definition_prepend word hpath has hs'
  have hread : Tracks r r' Definition.unplaced
      (definition (.cons word (prepend path (.cons as s))))
      (definition (.cons word (prepend path (.cons as s')))) := by
    rw [heq, heq']
    exact hbody.bind fun e e' v v' he hv =>
      tracks_defined hclosing.parting hcomma _ rfl he hv
  obtain ⟨d', u', hd', hview, hu⟩ := hread d u hd
  exact ⟨d', u', hd', hview, tracks_repeated hannounced
    (fun _ _ => tracks_definition hclosing.parting hcomma) hu⟩

theorem tracks_before_body (hls : BeforeBody ls) :
    Tracks r r' Statement.unplaced (statement (prepend ls s)) (statement (prepend ls s')) := by
  refine tracks_statement hclosing ?_
  cases hls with
  | @mk first word as groups path names hfirst hgroups hword hpath has =>
    obtain ⟨ht, ht', hrepeated⟩ := tracks_definitions_before hgroups (atDefinition_cons hword _)
      (atDefinition_cons hword _) (tracks_with_body hclosing hs hs' hbody hword hpath has)
    have hprepend (s : Lexemes) :
        prepend (first :: (groups.flatten ++ word :: (path ++ [as]))) s =
          .cons first (prepend groups.flatten (.cons word (prepend path (.cons as s)))) := by
      show Lexemes.cons first (prepend (groups.flatten ++ word :: (path ++ [as])) s) = _
      rw [prepend_append]
      show Lexemes.cons first (prepend _ (.cons word (prepend (path ++ [as]) s))) = _
      rw [prepend_append]
      rfl
    rw [hprepend, hprepend, definitions_cons hfirst ht, definitions_cons hfirst ht']
    refine hrepeated.bind fun ds ds' u u' hds hu => ?_
    have hempty : ds'.isEmpty = ds.isEmpty := by
      rw [← List.isEmpty_map (f := Definition.unplaced), hds, List.isEmpty_map]
    dsimp only
    rw [hempty]
    split
    · exact tracks_fail
    · exact tracks_ok hds hu

end

/-! ### The two forms -/

/-- An expression between single quotes. -/
def quotedText (body : String) : String :=
  String.ofList ('\'' :: (doubled '\'' body ++ ['\'']))

/-- The text goes on with a comma or a word, as it does behind a definition. -/
def GoesOn (text : String) : Prop :=
  (ofQuery text).peek? = some (.symbol .comma) ∨ ∃ w, (ofQuery text).peek? = some (.word w)

/-- Behind the front, the text is read as if it began there. -/
def ReadsOn (front : String) (ls : List Lexeme) (text : String) : Prop :=
  ofQuery (front ++ text) = prepend ls (scan Char.utf8Size front.utf8ByteSize text.toList)

variable {body back text : String} {e : Expr} {start : Nat}

theorem Expr.read_of_ofText (h : Expr.ofText text = .ok e) : ∃ ls last,
    ofQuery text = prepend ls (.finish last) ∧ expr (ofQuery text) = .ok (e, .finish last) := by
  rw [Expr.ofText] at h
  rcases checked_cases (ofQuery text) with ⟨hchecked, hreadable⟩ | ⟨error, -, hchecked⟩
  · rw [hchecked] at h
    obtain ⟨s, hs, h⟩ := exists_of_bind_eq_ok h
    cases hs
    obtain ⟨⟨e', s⟩, hread, h⟩ := exists_of_bind_eq_ok h
    have haccounts : Accounts False (ofQuery text) _ Expr.Written := accounts_expr
    obtain ⟨ls, hls, -⟩ := haccounts.result hread
    dsimp only at h
    split at h
    · rename_i hend
      cases h
      obtain ⟨last, rfl⟩ := exists_of_atEnd hend (hls.readable_of hreadable)
      exact ⟨ls, last, hls.eq, hread⟩
    · cases h
  · rw [hchecked] at h
    cases h

/-- No expression begins with a quoted text. -/
theorem definitionBody_of_expr {p : Expr × Lexemes} (h : expr s = .ok p) :
    definitionBody s = .ok p := by
  rw [definitionBody]
  split
  · rename_i text hpeek
    obtain ⟨levels, hlevels⟩ : ∃ n, nestingLimit = n + 1 := ⟨127, rfl⟩
    have hoperand : operand (exprWithin levels) s = s.fail (.unexpected .inExpression) := by
      rw [operand, hpeek]
    rw [expr, hlevels, exprWithin] at h
    dsimp only at h
    rw [hoperand] at h
    cases h
  · exact h

theorem GoesOn.first_token (h : GoesOn back) (start : Nat) :
    (scan Char.utf8Size start back.toList).peek? = some (.symbol .comma) ∨
      ∃ w, (scan Char.utf8Size start back.toList).peek? = some (.word w) := by
  obtain ⟨r, r', hclosing, halong⟩ :=
    scan_along Char.utf8Size Char.utf8Size 0 start back.toList
  rw [halong.peek?_eq hclosing]
  exact h

theorem GoesOn.parting (h : GoesOn back) (last start : Nat) :
    Parting (.finish last) (scan Char.utf8Size start back.toList) := by
  have hpeek := h.first_token start
  generalize scan Char.utf8Size start back.toList = s at hpeek ⊢
  refine ⟨rfl, fun _ error hbroken => ?_, fun x hx => beq_eq_false_iff_ne.2 fun heq => ?_⟩
  · rw [hbroken] at hpeek
    rcases hpeek with hpeek | ⟨w, hpeek⟩ <;> cases hpeek
  · rw [heq] at hpeek
    rcases hpeek with hpeek | ⟨w, hpeek⟩
    · cases hpeek
      exact hx rfl
    · cases hpeek

/-- The expression in front of a line break. -/
theorem definitionBody_inline (h : Expr.ofText body = .ok e) (hback : GoesOn back) :
    ∃ e' last, definitionBody (scan Char.utf8Size start (body ++ "\n" ++ back).toList) =
      .ok (e', scan Char.utf8Size last back.toList) ∧ e'.unplaced = e.unplaced := by
  obtain ⟨ls, last, hls, hread⟩ := Expr.read_of_ofText h
  obtain ⟨position, halong⟩ :=
    @along_newline body.toList back.toList Char.utf8Size Char.utf8Size 0 start ls last hls
  rw [scan_blank (by decide)] at halong
  have htext : (body ++ "\n" ++ back).toList = body.toList ++ '\n' :: back.toList := by
    simp
  obtain ⟨e', u, hread', hview, hu⟩ := tracks_definitionBody (hback.parting _ _) halong e _
    (definitionBody_of_expr hread)
  cases hu
  rw [htext]
  exact ⟨e', _, hread', hview⟩

/-- The expression between single quotes, which is a text of its own. -/
theorem definitionBody_quoted (h : Expr.ofText body = .ok e) (hl : l.token = .quoted body)
    (hs : ∀ error, s ≠ .broken error) :
    ∃ e', definitionBody (.cons l s) = .ok (e', s) ∧ e'.unplaced = e.unplaced := by
  obtain ⟨ls, last, hls, hread⟩ := Expr.read_of_ofText h
  -- Between quotes a quote takes twice its width, which moves tokens and changes nothing else.
  obtain ⟨r, r', hclosing, halong⟩ := scan_along Char.utf8Size
    (fun c => if c = '\'' then 2 else c.utf8Size) 0 (l.start + 1) body.toList
  obtain ⟨e', u, hread', hview, hu⟩ := tracks_expr hclosing.parting halong e _ hread
  have hreadable : ∀ error, ofQuery body ≠ .broken error := by
    rw [hls]
    cases ls with
    | nil => exact finish_readable last
    | cons l ls => exact cons_readable l _
  obtain ⟨-, hinner⟩ := halong.checked hclosing.parting (checked_of_readable hreadable)
  have hend : u.atEnd = true := by
    rw [atEnd, hu.peek?_eq hclosing]
    rfl
  have hadvance : (Lexemes.cons l s).advance = .ok s := checked_of_readable hs
  refine ⟨e', ?_, hview⟩
  rw [definitionBody, peek?, hl, hadvance]
  show ((ofQuoted (l.start + 1) body).checked >>= _) = _
  rw [ofQuoted, hinner]
  show (expr _ >>= _) = _
  rw [hread']
  show (if u.atEnd then _ else _) = _
  rw [if_pos hend]
  rfl

/-- A quote begins a token, which goes on to the closing quote. -/
theorem drop_gapLength_quote (tail : List Char) :
    ('\'' :: tail).drop (gapLength ('\'' :: tail)) = '\'' :: tail := by
  rw [gapLength_zero (gapUnit_of_not_symbol (by decide) (by decide))]
  rfl

theorem tokenAt_quote (tail : List Char) :
    tokenAt '\'' tail = delimitedAt '\'' .unclosedQuote .quoted tail := by
  rw [tokenAt, if_neg (fun h => by cases h.1)]
  rfl

theorem scan_quotedText (hback : back.toList.head? ≠ some '\'') :
    ∃ l last, scan Char.utf8Size start (quotedText body ++ back).toList =
      .cons l (scan Char.utf8Size last back.toList) ∧ l.token = .quoted body := by
  have htext : (quotedText body ++ back).toList =
      '\'' :: (doubled '\'' body ++ '\'' :: back.toList) := by
    rw [String.toList_append, quotedText, String.toList_ofList]
    simp
  have htoken : tokenAt '\'' (doubled '\'' body ++ '\'' :: back.toList) =
      .ok (.quoted body, (doubled '\'' body).length + 2) :=
    (tokenAt_quote _).trans (delimitedAt_doubled body hback)
  rw [htext, scan_cons (drop_gapLength_quote _) htoken, drop_doubled]
  exact ⟨_, _, rfl, rfl⟩

/-- A quote is neither a comma nor a word. -/
theorem GoesOn.head (h : GoesOn back) : back.toList.head? ≠ some '\'' := by
  intro hhead
  obtain ⟨tail, htail⟩ := List.head?_eq_some_iff.1 hhead
  have hbody := drop_gapLength_quote tail
  have htoken := tokenAt_quote tail
  rw [GoesOn, ofQuery, htail] at h
  cases hquoted : delimitedAt '\'' .unclosedQuote .quoted tail with
  | error error =>
    rw [scan_broken hbody (htoken.trans hquoted)] at h
    rcases h with h | ⟨w, h⟩ <;> cases h
  | ok p =>
    obtain ⟨s, more, ht, -⟩ := delimitedAt_eq_ok hquoted
    rw [scan_cons hbody (htoken.trans hquoted), peek?, ht] at h
    rcases h with h | ⟨w, h⟩ <;> cases h

theorem toOption_eq_of_tracks {α γ : Type} {view : α → γ}
    {p p' : Except SyntaxError (α × Lexemes)} (h : Tracks r r' view p p')
    (h' : Tracks r' r view p' p) :
    p.toOption.map (fun a => view a.1) = p'.toOption.map fun a => view a.1 := by
  cases hp : p with
  | ok a =>
    obtain ⟨a', s', hp', hview, -⟩ := h a.1 a.2 hp
    rw [hp']
    exact congrArg some hview.symm
  | error error =>
    cases hp' : p' with
    | ok a' =>
      obtain ⟨a, s, ha, -⟩ := h' a'.1 a'.2 hp'
      cases hp.symm.trans ha
    | error error' => rfl

theorem Statement.toOption_ofText (h : ∀ error, ofQuery text ≠ .broken error) :
    (Statement.ofText text).toOption.map Statement.unplaced =
      (statement (ofQuery text)).toOption.map fun a => a.1.unplaced := by
  rw [Statement.ofText, checked_of_readable h]
  show (statement (ofQuery text) >>= fun a => pure a.1).toOption.map _ = _
  cases statement (ofQuery text) <;> rfl

theorem BeforeBody.readable (h : BeforeBody ls) (s : Lexemes) (error : SyntaxError) :
    prepend ls s ≠ .broken error := by
  cases h
  exact cons_readable _ _ error

/-- Both forms of a body give the same statement, apart from positions. -/
theorem quoted_or_inline {front : String} (hbody : Expr.ofText body = .ok e)
    (hlead : BeforeBody ls) (hquoted : ReadsOn front ls (quotedText body ++ back))
    (hinline : ReadsOn front ls (body ++ "\n" ++ back)) (hback : GoesOn back) :
    (Statement.ofText (front ++ (quotedText body ++ back))).toOption.map Statement.unplaced =
      (Statement.ofText (front ++ (body ++ "\n" ++ back))).toOption.map Statement.unplaced := by
  have hreadable (start : Nat) (error : SyntaxError) :
      scan Char.utf8Size start back.toList ≠ .broken error :=
    (hback.parting 0 start).readable (finish_readable 0) error
  obtain ⟨l, last, hscan, hl⟩ :=
    @scan_quotedText body back front.utf8ByteSize hback.head
  obtain ⟨e₁, hread₁, he₁⟩ := definitionBody_quoted hbody hl (hreadable last)
  obtain ⟨e₂, last', hread₂, he₂⟩ :=
    @definitionBody_inline body back e front.utf8ByteSize hbody hback
  obtain ⟨r, r', hclosing, halong⟩ :=
    scan_along Char.utf8Size Char.utf8Size last last' back.toList
  rw [ReadsOn, hscan] at hquoted
  rw [ReadsOn] at hinline
  generalize scan Char.utf8Size front.utf8ByteSize (body ++ "\n" ++ back).toList = s
    at hinline hread₂
  -- A body has been read from `s`, so it does not begin with a fault.
  have hs : ∀ error, s ≠ .broken error := by
    rintro error rfl
    obtain ⟨error', herror⟩ := @expr_of_peek? (.broken error) rfl
    have hbroken : definitionBody (.broken error) = expr (.broken error) := rfl
    rw [hbroken, herror] at hread₂
    cases hread₂
  have hcons := cons_readable l (scan Char.utf8Size last back.toList)
  rw [Statement.toOption_ofText (hquoted ▸ hlead.readable _),
    Statement.toOption_ofText (hinline ▸ hlead.readable _), hquoted, hinline]
  refine toOption_eq_of_tracks (tracks_before_body hclosing hcons hs ?_ hlead)
    (tracks_before_body hclosing.symm hs hcons ?_ hlead)
  · rw [hread₁, hread₂]
    exact tracks_ok (he₂.trans he₁.symm) halong
  · rw [hread₁, hread₂]
    exact tracks_ok (he₁.trans he₂.symm) halong.symm

/-- A body means the same between quotes and in front of a line break. Where a text is read, it is
read with all of its tokens, and every path is placed at the first byte of its first name; where it
is refused, the complaint points in front of a character or to the end. -/
theorem definition_forms_and_places :
    (∀ (front back body : String) (ls : List Lexeme) (e : Expr), Expr.ofText body = .ok e →
      BeforeBody ls → ReadsOn front ls (quotedText body ++ back) →
      ReadsOn front ls (body ++ "\n" ++ back) → GoesOn back →
        (Statement.ofText (front ++ (quotedText body ++ back))).toOption.map Statement.unplaced =
          (Statement.ofText (front ++ (body ++ "\n" ++ back))).toOption.map Statement.unplaced) ∧
    (∀ (text : String) (st : Statement), Statement.ofText text = .ok st →
      (∃ ls last, ofQuery text = prepend ls (.finish last) ∧ st.Written ls) ∧
        ∀ p ∈ st.paths, p.StandsIn text) ∧
    ∀ (text : String) (error : SyntaxError), Statement.ofText text = .error error →
      ∃ pre post, text = pre ++ post ∧ error.position = pre.utf8ByteSize := by
  refine ⟨?_, fun text st h => ⟨Statement.written_of_ofText h, ?_⟩, ?_⟩
  · intro front back body ls e hbody hls hquoted hinline hback
    exact quoted_or_inline hbody hls hquoted hinline hback
  · exact fun p hp => Statement.paths_stand h hp
  · exact fun text error h => Statement.error_place h

theorem exists_of_toOption {ε α β : Type} {p : Except ε α} {f : α → β} {b : β}
    (h : p.toOption.map f = some b) : ∃ a, p = .ok a ∧ f a = b := by
  cases p with
  | error error => cases h
  | ok a => exact ⟨a, rfl, Option.some.inj h⟩

/-- A quote and a letter of two bytes in the body of the second definition. -/
theorem definition_forms_and_places_second :
    (Statement.ofText ("WITH SET [s] AS [a].[é] MEMBER [m] AS " ++
      (quotedText "[it's].[é] + [b]" ++ ", SOLVE_ORDER = 1 SELECT FROM [c]"))).toOption.map
        Statement.unplaced =
      (Statement.ofText ("WITH SET [s] AS [a].[é] MEMBER [m] AS " ++
        ("[it's].[é] + [b]" ++ "\n" ++ ", SOLVE_ORDER = 1 SELECT FROM [c]"))).toOption.map
          Statement.unplaced ∧
    (∃ st, Statement.ofText "WITH MEMBER [m] AS '[it''s].[é] + [b]' SELECT FROM [c]" = .ok st ∧
      st.paths.map Path.position = [12, 20, 35] ∧
        ∀ p ∈ st.paths, p.StandsIn "WITH MEMBER [m] AS '[it''s].[é] + [b]' SELECT FROM [c]") ∧
    ∃ error, Statement.ofText "WITH MEMBER [m] AS '[it''s].[é] +' SELECT FROM [c]" = .error error ∧
      ∃ pre post, "WITH MEMBER [m] AS '[it''s].[é] +' SELECT FROM [c]" = pre ++ post ∧
        error.position = pre.utf8ByteSize := by
  obtain ⟨hforms, hplaces, herrors⟩ := definition_forms_and_places
  refine ⟨?_, ?_, ?_⟩
  · obtain ⟨e, he, -⟩ : ∃ e, Expr.ofText "[it's].[é] + [b]" = .ok e ∧ e.paths.length = 2 :=
      exists_of_toOption (by decide +kernel)
    have halone : DefinitionAlone [⟨.word "SET", 5, "SET"⟩, ⟨.bracketed "s", 9, "[s]"⟩,
        ⟨.word "AS", 13, "AS"⟩, ⟨.bracketed "a", 16, "[a]"⟩, ⟨.symbol .dot, 19, "."⟩,
        ⟨.bracketed "é", 20, "[é]"⟩] := by
      obtain ⟨⟨d, s⟩, hd, rfl⟩ := exists_of_toOption (p := definition (prepend
        [⟨.word "SET", 5, "SET"⟩, ⟨.bracketed "s", 9, "[s]"⟩, ⟨.word "AS", 13, "AS"⟩,
          ⟨.bracketed "a", 16, "[a]"⟩, ⟨.symbol .dot, 19, "."⟩, ⟨.bracketed "é", 20, "[é]"⟩]
        (.finish 0))) (f := Prod.snd) (b := .finish 0) (by decide +kernel)
      exact ⟨by decide, d, hd⟩
    refine hforms _ _ _ _ e he (@BeforeBody.mk ⟨.word "WITH", 0, "WITH"⟩
      ⟨.word "MEMBER", 25, "MEMBER"⟩ ⟨.word "AS", 36, "AS"⟩ _ [⟨.bracketed "m", 32, "[m]"⟩] ["m"]
      ⟨_, rfl, by decide⟩ (List.forall_mem_singleton.2 halone) (.inl ⟨_, rfl, by decide⟩)
      (.single rfl) ⟨_, rfl, by decide⟩) ?_ ?_ (.inl ?_)
    · rw [ReadsOn]
      decide +kernel
    · rw [ReadsOn]
      decide +kernel
    · decide +kernel
  · obtain ⟨st, hst, hpositions⟩ := exists_of_toOption (p := Statement.ofText
      "WITH MEMBER [m] AS '[it''s].[é] + [b]' SELECT FROM [c]")
      (f := fun st => st.paths.map Path.position) (b := [12, 20, 35]) (by decide +kernel)
    exact ⟨st, hst, hpositions, (hplaces _ st hst).2⟩
  · cases h : Statement.ofText "WITH MEMBER [m] AS '[it''s].[é] +' SELECT FROM [c]" with
    | error error => exact ⟨error, rfl, herrors _ error h⟩
    | ok st =>
      have hnone : (Statement.ofText "WITH MEMBER [m] AS '[it''s].[é] +' SELECT FROM [c]"
          ).toOption.isNone = true := by
        decide +kernel
      rw [h] at hnone
      cases hnone

end CubeQuery.Language
