import CubeQuery.Proofs.Language.Places
import CubeQuery.Proofs.Language.StatementAccounts

/-!
Where the parser complains about a token. The tokens before the one it shows begin a statement, up
to those that it has passed over although nothing goes on with them: one token in place of a name or
text, or further names in the name of a cube.
-/

namespace CubeQuery.Language

open Lexemes CubeQuery.Number CubeQuery.Text

variable {text : String} {e : SyntaxError} {width : Char → Nat} {position : Nat} {cs : List Char}
  {before : List Lexeme} {rest : Lexemes} {l : Lexeme} {c : Char}

/-! ### Messages -/

namespace SyntaxFault

/-- The message tells that one token was expected, or that another one was not. -/
def Refuses (f : SyntaxFault) : Prop :=
  "expected".toList <+: f.message.toList ∨ "unexpected token".toList <+: f.message.toList

instance (f : SyntaxFault) : Decidable f.Refuses :=
  inferInstanceAs (Decidable (_ ∨ _))

theorem not_refuses_of_head {f : SyntaxFault} {d : Char} (hd : f.message.toList.head? = some d)
    (hexpected : d ≠ 'e') (hunexpected : d ≠ 'u') : ¬f.Refuses := by
  rintro (⟨rest, h⟩ | ⟨rest, h⟩)
  · rw [← h] at hd
    cases hd
    exact hexpected rfl
  · rw [← h] at hd
    cases hd
    exact hunexpected rfl

/-- The name of a function starts with a capital. -/
theorem not_refuses_wrongArity (f : SetFunction) (given : Nat) : ¬(wrongArity f given).Refuses := by
  have hname : f.name.toList.head?.any (fun d => d ≠ 'e' ∧ d ≠ 'u') = true := by
    cases f <;> decide
  obtain ⟨d, hd, hfirst⟩ := (Option.any_eq_true _ _).1 hname
  obtain ⟨hexpected, hunexpected⟩ := of_decide_eq_true hfirst
  have hmessage : (wrongArity f given).message =
      f.name ++ " expects " ++ f.arityText ++ " arguments, got " ++ toString given :=
    rfl
  refine not_refuses_of_head (d := d) ?_ hexpected hunexpected
  rw [hmessage]
  simp only [String.toList_append, List.append_assoc]
  rw [List.head?_append, hd, Option.some_or]

theorem Refuses.aboutToken {f : SyntaxFault} (h : f.Refuses)
    (hdigits : f ≠ .expected .exponentDigits) : f.AboutToken := by
  cases f with
  | expected what => exact fun hwhat => hdigits (congrArg _ hwhat)
  | unexpected place => trivial
  | wrongArity f given => exact absurd h (not_refuses_wrongArity f given)
  | _ => exact absurd h (by decide)

end SyntaxFault

/-! ### What cannot be read as a token -/

theorem delimitedAt_fault {close : Char} {fault : SyntaxFault} {token : String → Token}
    {error : TokenFault} (h : delimitedAt close fault token cs = .error error) :
    error.fault = fault := by
  unfold delimitedAt at h
  split at h <;> cases h
  rfl

theorem not_aboutToken_of_numberAt {error : TokenFault} (h : numberAt cs = .error error) :
    ¬error.fault.AboutToken := by
  unfold numberAt at h
  dsimp only at h
  split at h
  · cases h
    exact fun hne => hne rfl
  · generalize Decimal.toFloat _ = x at h
    by_cases hfinite : x.isFinite = true
    · rw [if_pos hfinite] at h
      cases h
    · rw [if_neg hfinite] at h
      cases h
      nofun

theorem not_aboutToken_of_tokenAt {error : TokenFault} (h : tokenAt c cs = .error error) :
    ¬error.fault.AboutToken := by
  cases tokenAt_cases h with
  | unclosedComment _ _ h | stray h =>
    cases h
    nofun
  | symbol _ h | word _ h => cases h
  | delimited hdelimits h =>
    rw [delimitedAt_fault h]
    cases hdelimits <;> nofun
  | number _ h => exact not_aboutToken_of_numberAt h

theorem not_aboutToken_of_broken (h : scan width position cs = prepend before (.broken e)) :
    ¬e.fault.AboutToken := by
  fun_induction scan width position cs generalizing before with
  | case1 =>
    obtain ⟨-, hrest⟩ := eq_of_finish_eq_prepend h
    cases hrest
  | case2 position cs gap start c tail hbody shorter error htoken =>
    obtain ⟨-, hrest⟩ := eq_of_broken_eq_prepend h
    cases hrest
    exact not_aboutToken_of_tokenAt htoken
  | case3 position cs gap start c tail hbody shorter token length htoken body =>
    rename_i ih
    cases before with
    | nil => cases h
    | cons l before => exact ih (Lexemes.cons.inj h).2

/-! ### Places in a query -/

theorem ofQuery_starts {text : String} (h : ofQuery text = prepend before rest) (hl : l ∈ before) :
    l.start < rest.position :=
  (scan_starts Char.utf8Size_pos h hl).2

theorem ofQuoted_starts {position : Nat} {body : String}
    (h : ofQuoted position body = prepend before rest) :
    position ≤ rest.position ∧ ∀ l ∈ before, l.start < rest.position := by
  have hwidth (c : Char) : 0 < if c = '\'' then 2 else c.utf8Size := by
    split
    · exact Nat.two_pos
    · exact c.utf8Size_pos
  obtain ⟨pre, post, -, hposition, -⟩ := scan_split h
  exact ⟨hposition ▸ Nat.le_add_right _ _, fun l hl => (scan_starts hwidth h hl).2⟩

/-- The lexemes before a place of a query start before it, in a quoted body too. -/
theorem Reaches.starts {quotes : Prop} (h : Reaches quotes (ofQuery text) before rest)
    (hl : l ∈ before) : l.start < rest.position := by
  generalize hs : ofQuery text = s at h
  cases h with
  | here => exact ofQuery_starts hs hl
  | @inside hquotes outer quoted body hquoted after inner rest hinner =>
    obtain ⟨hposition, hstarts⟩ := ofQuoted_starts hinner
    rcases List.mem_append.1 hl with hl | hl
    · have hstart : l.start < quoted.start := ofQuery_starts hs hl
      omega
    · exact hstarts l hl

/-- What cannot be read as a token is no fault of the next token. -/
theorem Reaches.not_aboutToken {quotes : Prop}
    (h : Reaches quotes (ofQuery text) before (.broken e)) : ¬e.fault.AboutToken := by
  generalize hs : ofQuery text = s at h
  generalize hrest : Lexemes.broken e = rest at h
  cases h with
  | here =>
    subst hrest
    exact not_aboutToken_of_broken hs
  | inside hquotes outer hl after hinner =>
    subst hrest
    exact not_aboutToken_of_broken hinner

/-! ### Refused tokens -/

/-- A text that is refused for its next token, or for its end, is refused with that token: the
lexemes before it begin a statement, up to those that the complaint overruns. Missing digits of an
exponent are found inside a number. -/
theorem refused_token_shown (h : Statement.ofText text = .error e) (hrefuses : e.fault.Refuses)
    (hdigits : e.fault ≠ .expected .exponentDigits) :
    ∃ before more rest, Reaches True (ofQuery text) (before ++ more) rest ∧
      (∀ l ∈ before ++ more, l.start < e.position) ∧ (∀ error, rest ≠ .broken error) ∧
      e = rest.fault e.fault ∧ (∃ after st, Statement.Written (before ++ after) st) ∧
      e.fault.Overruns more := by
  have habout : e.fault.AboutToken := hrefuses.aboutToken hdigits
  cases Statement.blame_of_ofText h with
  | @token before more rest hreach hbefore hmore he =>
    have hreadable (error : SyntaxError) : rest ≠ .broken error := by
      rintro rfl
      obtain rfl : e = error := he
      exact hreach.not_aboutToken habout
    have hposition : e.position = rest.position := by
      rw [he, fault_position]
    exact ⟨before, more, rest, hreach, fun l hl => hposition ▸ hreach.starts hl, hreadable, he,
      hbefore, hmore⟩
  | broken hreach => exact absurd habout hreach.not_aboutToken
  | earlier hreach hposition hfault => exact absurd habout hfault

/-- The fault that a text is refused for. -/
def faultOf? (text : String) : Option SyntaxError :=
  match Statement.ofText text with
  | .error e => some e
  | .ok _ => none

theorem ofText_of_faultOf? (h : faultOf? text = some e) : Statement.ofText text = .error e := by
  unfold faultOf? at h
  split at h <;> cases h
  assumption

/-- A sum without its last operand, in a quoted body. -/
theorem refused_token_shown_quoted :
    ∃ before rest, Reaches True (ofQuery "WITH MEMBER [Measures].[m] AS 'a + ' SELECT FROM [c]")
        before rest ∧ (∀ l ∈ before, l.start < 35) ∧ rest.position = 35 ∧
      ∃ after st, Statement.Written (before ++ after) st := by
  have h : Statement.ofText "WITH MEMBER [Measures].[m] AS 'a + ' SELECT FROM [c]" =
      .error ⟨35, "end of input", .unexpected .inExpression⟩ :=
    ofText_of_faultOf? (by decide +kernel)
  obtain ⟨before, more, rest, hreach, hstarts, hreadable, he, hbefore, hmore⟩ :=
    refused_token_shown h (by decide) (by decide)
  cases hmore with
  | none =>
    rw [List.append_nil] at hreach hstarts
    refine ⟨before, rest, hreach, hstarts, ?_, hbefore⟩
    rw [← fault_position, ← he]

/-! ### A token that is passed over -/

theorem Lexeme.IsWord.unique {word word' : String} (h : l.IsWord word) (h' : l.IsWord word') :
    sameName word word' = true := by
  obtain ⟨w, hl, hw⟩ := h
  obtain ⟨w', hl', hw'⟩ := h'
  cases hl.symm.trans hl'
  rw [sameName_iff] at hw hw' ⊢
  exact hw.symm.trans hw'

theorem Joined.head {ls : List Lexeme} {groups : List (List Lexeme)} {group : List Lexeme}
    (h : Joined ls (group :: groups)) : ∃ us, ls = group ++ us := by
  cases h with
  | single => exact ⟨[], (List.append_nil _).symm⟩
  | cons hcomma h => exact ⟨_, rfl⟩

theorem Listed.head_name {ls : List Lexeme} {names : List String} (h : Listed NameWritten ls names)
    (hnames : names ≠ []) : ∃ l us name, ls = l :: us ∧ l.token.name? = some name := by
  obtain ⟨items, hjoined, rfl, hitems⟩ := h
  cases items with
  | nil => exact absurd rfl hnames
  | cons p items =>
    obtain ⟨us, rfl⟩ := hjoined.head
    obtain ⟨l, hp, hl⟩ := hitems p List.mem_cons_self
    exact ⟨l, us, p.2, by rw [hp]; rfl, hl⟩

/-- Behind the words that announce the properties of cells there is a name. -/
theorem not_begins_cellProperty {select word cube cell properties : Lexeme}
    (hselect : select.IsWord "SELECT") (hword : word.IsWord "FROM") (hcell : cell.IsWord "CELL")
    (hl : l.token.name? = none) :
    ¬∃ after st, Statement.Written ([select, word, cube, cell, properties, l] ++ after) st := by
  rintro ⟨after, st, h⟩
  have hdiffer {l : Lexeme} {word word' : String} (h : l.IsWord word) (h' : l.IsWord word')
      (hne : sameName word word' = false) : False :=
    Bool.false_ne_true (hne.symm.trans (h.unique h'))
  generalize hls : [select, word, cube, cell, properties, l] ++ after = ls at h
  -- `SELECT FROM cube CELL PROPERTIES` leaves no choice: no definition, no axis, no slicer.
  cases h with
  | mk hdefinitions hselect' hfirst haxes hword' hcube hslicer hproperties hends =>
    rename_i definitions axes cube' slicer properties' ends select' word' ds clauses name slicer?
      names
    cases hdefinitions with
    | some hwith =>
      obtain rfl := (List.cons.inj hls).1
      exact hdiffer hselect hwith (by decide)
    | none =>
      cases axes with
      | cons first axes =>
        obtain rfl := (List.cons.inj (List.cons.inj hls).2).1
        exact hfirst _ rfl hword
      | nil =>
        obtain ⟨cube', rfl, hname⟩ := hcube
        cases hslicer with
        | some hwhere =>
          obtain rfl := (List.cons.inj (List.cons.inj (List.cons.inj (List.cons.inj hls).2).2).2).1
          exact hdiffer hcell hwhere (by decide)
        | none =>
          cases hproperties with
          | none => cases hends <;> cases hls
          | some hfirst hnext hnames hlisted =>
            obtain ⟨l', us, name, rfl, hl'⟩ := hlisted.head_name hnames
            cases hls
            cases hl.symm.trans hl'

/-- A number in place of the name of a cell property is passed over: the word behind it is shown,
and what stands before that word begins no statement. -/
theorem cellProperty_overrun : ∃ e before l position,
    Statement.ofText "SELECT FROM [c] CELL PROPERTIES 5 x" = .error e ∧ e.fault.Refuses ∧
      ofQuery "SELECT FROM [c] CELL PROPERTIES 5 x" = prepend before (.cons l (.finish position)) ∧
      e.position = l.start ∧ e.token = l.text ∧
      ¬∃ after st, Statement.Written (before ++ after) st := by
  have h : Statement.ofText "SELECT FROM [c] CELL PROPERTIES 5 x" =
      .error ⟨34, "x", .expected .cellProperty⟩ :=
    ofText_of_faultOf? (by decide +kernel)
  have hquery : ofQuery "SELECT FROM [c] CELL PROPERTIES 5 x" = prepend
      [⟨.word "SELECT", 0, "SELECT"⟩, ⟨.word "FROM", 7, "FROM"⟩, ⟨.bracketed "c", 12, "[c]"⟩,
        ⟨.word "CELL", 16, "CELL"⟩, ⟨.word "PROPERTIES", 21, "PROPERTIES"⟩,
        ⟨.number (Number.Decimal.mk 5 0).toFloat, 32, "5"⟩]
      (.cons ⟨.word "x", 34, "x"⟩ (.finish 35)) := by
    decide +kernel
  refine ⟨_, _, _, _, h, by decide, hquery, rfl, rfl, ?_⟩
  apply not_begins_cellProperty
  · exact ⟨_, rfl, by decide⟩
  · exact ⟨_, rfl, by decide⟩
  · exact ⟨_, rfl, by decide⟩
  · rfl

end CubeQuery.Language
