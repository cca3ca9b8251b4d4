import CubeQuery.Proofs.Language.Accepting
import CubeQuery.Proofs.Language.Sentences

/-!
What a parser does, result or failure, in terms of sentences. A result is written with the lexemes
that were taken for it. A complaint about the next token comes when the lexemes before it can still
be completed; where it comes later than that, it says by what it overran.
-/

namespace CubeQuery.Language

open CubeQuery.Text Lexemes

variable {α β : Type} {quotes : Prop} {s rest : Lexemes} {ls us before : List Lexeme} {l : Lexeme}
  {form : List Lexeme → α → Prop} {form' : List Lexeme → β → Prop} {e : SyntaxError}

/-! ### How far a parser has come -/

/-- The remainders of a sequence with the lexemes before them. A quoted body may be entered in place
of its quoted form. -/
inductive Reaches (quotes : Prop) : Lexemes → List Lexeme → Lexemes → Prop
  | here (before : List Lexeme) (rest : Lexemes) : Reaches quotes (prepend before rest) before rest
  | inside (hquotes : quotes) (before : List Lexeme) {l : Lexeme} {text : String}
      (hl : l.token = .quoted text) (after : Lexemes) {inner : List Lexeme} {rest : Lexemes}
      (hinner : ofQuoted (l.start + 1) text = prepend inner rest) :
      Reaches quotes (prepend before (.cons l after)) (before ++ inner) rest

/-- Lexemes are taken from the front. What stands behind the last of them can be read. -/
structure Consumed (s : Lexemes) (ls : List Lexeme) (rest : Lexemes) : Prop where
  eq : s = prepend ls rest
  readable (hls : ls ≠ []) (error : SyntaxError) : rest ≠ .broken error

theorem consumed_nil (s : Lexemes) : Consumed s [] s :=
  ⟨rfl, fun hnil => absurd rfl hnil⟩

theorem Consumed.append {s' : Lexemes} (h : Consumed s ls s') (h' : Consumed s' us rest) :
    Consumed s (ls ++ us) rest := by
  refine ⟨by rw [h.eq, h'.eq, prepend_append], fun hne => ?_⟩
  by_cases hus : us = []
  · subst hus
    obtain rfl : s' = rest := h'.eq
    exact h.readable (by rwa [List.append_nil] at hne)
  · exact h'.readable hus

theorem Consumed.size_lt (h : Consumed s ls rest) (hls : ls ≠ []) : rest.size < s.size := by
  have := List.length_pos_iff.2 hls
  rw [h.eq, size_prepend]
  omega

theorem Reaches.after (h : Reaches quotes s before rest) (ls : List Lexeme) :
    Reaches quotes (prepend ls s) (ls ++ before) rest := by
  cases h with
  | here =>
    rw [← prepend_append]
    exact .here _ _
  | inside hquotes _ hl after hinner =>
    rw [← prepend_append, ← List.append_assoc]
    exact .inside hquotes _ hl after hinner

theorem Reaches.eq_prepend (h : Reaches False s before rest) : s = prepend before rest := by
  cases h with
  | here => rfl
  | inside hquotes => exact hquotes.elim

/-- Dots with names behind them, the last of which is missing. -/
inductive Dotted : List Lexeme → Prop
  | dot {dot : Lexeme} (hdot : dot.IsSymbol .dot) : Dotted [dot]
  | name {dot l : Lexeme} {name : String} {ls : List Lexeme} (hdot : dot.IsSymbol .dot)
      (hl : l.token.name? = some name) (h : Dotted ls) : Dotted (dot :: l :: ls)

namespace SyntaxFault

/-- Complaints about the next token. Missing digits of an exponent are found within a token. -/
def AboutToken : SyntaxFault → Prop
  | expected what => what ≠ .exponentDigits
  | unexpected _ => True
  | _ => False

/-- The lexemes that a parser has passed over before it complains, although no sentence goes on with
them: a token in place of a name or text that is dropped before it is judged, or further names in
the name of a cube. -/
inductive Overruns : SyntaxFault → List Lexeme → Prop
  | none (f : SyntaxFault) : Overruns f []
  | dropped {what : Expectation} (l : Lexeme)
      (hwhat : what = .nameAfterDot ∨ what = .formatText ∨ what = .cellProperty) :
      Overruns (.expected what) [l]
  | names {ls : List Lexeme} (h : Dotted ls) : Overruns (.expected .name) ls

end SyntaxFault

/-- Lexemes that can be completed. -/
def Begins (form : List Lexeme → α → Prop) (ls : List Lexeme) : Prop :=
  ∃ more a, form (ls ++ more) a

theorem begins_of {a : α} (h : form ls a) : Begins form ls :=
  ⟨[], a, by rwa [List.append_nil]⟩

/-- Where a failure comes from: the next token, what cannot be read as a token, or something that
was judged when all of it had been read. -/
inductive Blame (quotes : Prop) (s : Lexemes) (viable : List Lexeme → Prop) (e : SyntaxError) : Prop
  | token (before more : List Lexeme) {rest : Lexemes} (h : Reaches quotes s (before ++ more) rest)
      (hbefore : viable before) (hmore : e.fault.Overruns more) (he : e = rest.fault e.fault)
  | broken {before : List Lexeme} (h : Reaches quotes s before (.broken e))
  | earlier {before : List Lexeme} {rest : Lexemes} (h : Reaches quotes s before rest)
      (hposition : e.position = rest.position) (hfault : ¬e.fault.AboutToken)

theorem Blame.after {viable viable' : List Lexeme → Prop} (ls : List Lexeme)
    (h : Blame quotes s viable e)
    (hviable : ∀ before, viable before → viable' (ls ++ before)) :
    Blame quotes (prepend ls s) viable' e := by
  cases h with
  | @token before more rest h hbefore hmore he =>
    refine .token (ls ++ before) more ?_ (hviable before hbefore) hmore he
    rw [List.append_assoc]
    exact h.after ls
  | broken h => exact .broken (h.after ls)
  | earlier h hposition hfault => exact .earlier (h.after ls) hposition hfault

theorem Blame.mono {viable viable' : List Lexeme → Prop} (h : Blame quotes s viable e)
    (hviable : ∀ before, viable before → viable' before) : Blame quotes s viable' e :=
  h.after [] hviable

/-- A result is of the form that belongs to the lexemes taken for it, and a failure is accounted for
by lexemes that begin something of that form. -/
structure Accounts (quotes : Prop) (s : Lexemes) (r : Except SyntaxError (α × Lexemes))
    (form : List Lexeme → α → Prop) : Prop where
  result {a : α} {s' : Lexemes} (h : r = .ok (a, s')) : ∃ ls, Consumed s ls s' ∧ form ls a
  failure {e : SyntaxError} (h : r = .error e) : Blame quotes s (Begins form) e

theorem accounts_read {a : α} (hs : Consumed s ls rest) (ha : form ls a) :
    Accounts quotes s (.ok (a, rest)) form := by
  constructor
  · rintro _ _ ⟨⟩
    exact ⟨ls, hs, ha⟩
  · nofun

theorem accounts_ok {a : α} (ha : form [] a) : Accounts quotes s (.ok (a, s)) form :=
  accounts_read (consumed_nil s) ha

theorem accounts_error (h : Blame quotes s (Begins form) e) :
    Accounts quotes s (.error e) form := by
  constructor
  · nofun
  · rintro _ ⟨⟩
    exact h

theorem fault_fault (s : Lexemes) (f : SyntaxFault) : s.fault f = s.fault (s.fault f).fault := by
  cases s <;> rfl

theorem fault_position (s : Lexemes) (f : SyntaxFault) : (s.fault f).position = s.position := by
  cases s <;> rfl

/-- A failure at the next token, if something of the form can begin here. -/
theorem accounts_fail (h : Begins form []) (f : SyntaxFault) :
    Accounts quotes s (s.fail f) form :=
  accounts_error (.token [] [] (.here [] s) h (.none _) (fault_fault s f))

theorem Accounts.mono {r : Except SyntaxError (α × Lexemes)} {form₁ : List Lexeme → α → Prop}
    (h : Accounts quotes s r form) (hform : ∀ ls a, form ls a → form₁ ls a) :
    Accounts quotes s r form₁ := by
  refine ⟨fun hr => ?_, fun hr => ?_⟩
  · obtain ⟨ls, hs, ha⟩ := h.result hr
    exact ⟨ls, hs, hform ls _ ha⟩
  · refine (h.failure hr).mono ?_
    rintro before ⟨more, a, ha⟩
    exact ⟨more, a, hform _ a ha⟩

/-- A parser goes on behind lexemes that are read already. -/
theorem Accounts.behind {s' : Lexemes} {r : Except SyntaxError (α × Lexemes)}
    (hs : Consumed s ls s') (h : Accounts quotes s' r fun us => form (ls ++ us)) :
    Accounts quotes s r form := by
  refine ⟨fun hr => ?_, fun hr => ?_⟩
  · obtain ⟨us, hus, ha⟩ := h.result hr
    exact ⟨ls ++ us, hs.append hus, ha⟩
  · rw [hs.eq]
    refine (h.failure hr).after ls ?_
    rintro before ⟨more, a, ha⟩
    exact ⟨more, a, by rwa [List.append_assoc]⟩

/-- One parser after another, as seen from where the first one starts. What the first one needs must
be completed by what the second one reads. -/
theorem Accounts.seq {r : Except SyntaxError (α × Lexemes)}
    {f : α × Lexemes → Except SyntaxError (β × Lexemes)} (h : Accounts quotes s r form)
    (hf : ∀ a s' ls, Consumed s ls s' → form ls a → Accounts quotes s (f (a, s')) form')
    (hnext : ∀ ls a, form ls a → Begins form' ls) : Accounts quotes s (r >>= f) form' := by
  cases r with
  | error error =>
    refine accounts_error ((h.failure rfl).mono ?_)
    rintro before ⟨more, a, ha⟩
    obtain ⟨rest, b, hb⟩ := hnext _ a ha
    exact ⟨more ++ rest, b, List.append_assoc before more rest ▸ hb⟩
  | ok p =>
    obtain ⟨a, s'⟩ := p
    obtain ⟨ls, hs, ha⟩ := h.result rfl
    exact hf a s' ls hs ha

/-- One parser after another. -/
theorem Accounts.bind {r : Except SyntaxError (α × Lexemes)}
    {f : α × Lexemes → Except SyntaxError (β × Lexemes)} (h : Accounts quotes s r form)
    (hf : ∀ a s' ls, Consumed s ls s' → form ls a →
      Accounts quotes s' (f (a, s')) fun us => form' (ls ++ us))
    (hnext : ∀ ls a, form ls a → Begins form' ls) : Accounts quotes s (r >>= f) form' :=
  h.seq (fun a s' ls hs ha => (hf a s' ls hs ha).behind hs) hnext

/-- Only the result is changed. -/
theorem Accounts.map {r : Except SyntaxError (α × Lexemes)} {f : α → β}
    (h : Accounts quotes s r form) (hf : ∀ ls a, form ls a → form' ls (f a)) :
    Accounts quotes s (r >>= fun p => pure (f p.1, p.2)) form' := by
  refine h.bind (fun a s' ls _ ha => accounts_ok ?_) fun ls a ha => begins_of (hf ls a ha)
  rw [List.append_nil]
  exact hf ls a ha

/-! ### Single tokens -/

theorem exists_of_peek? {t : Token} (h : s.peek? = some t) :
    ∃ l rest, s = .cons l rest ∧ l.token = t := by
  cases s with
  | cons l rest => exact ⟨l, rest, rfl, Option.some.inj h⟩
  | _ => cases h

theorem exists_of_atKeyword {word : String} (h : s.atKeyword word = true) :
    ∃ l rest, s = .cons l rest ∧ l.IsWord word := by
  unfold atKeyword at h
  split at h
  · rename_i w hpeek
    obtain ⟨l, rest, rfl, hl⟩ := exists_of_peek? hpeek
    exact ⟨l, rest, rfl, w, hl, h⟩
  · cases h

theorem exists_of_startsWith {x : Symbol} (h : s.startsWith x = true) :
    ∃ l rest, s = .cons l rest ∧ l.IsSymbol x :=
  exists_of_peek? (eq_of_beq h)

/-- The token that is passed over may still be blamed. -/
theorem accounts_past {f : Lexemes → Except SyntaxError (α × Lexemes)}
    (h : Consumed (.cons l rest) [l] rest → Accounts quotes (.cons l rest) (f rest) form) :
    Accounts quotes (.cons l rest) ((Lexemes.cons l rest).advance >>= f) form := by
  cases rest with
  | broken error => exact accounts_error (.broken (.here [l] (.broken error)))
  | finish position => exact h ⟨rfl, fun _ => by nofun⟩
  | cons next rest => exact h ⟨rfl, fun _ => by nofun⟩

theorem accounts_advance {f : Lexemes → Except SyntaxError (α × Lexemes)}
    (h : Accounts quotes rest (f rest) fun us => form (l :: us)) :
    Accounts quotes (.cons l rest) ((Lexemes.cons l rest).advance >>= f) form :=
  accounts_past fun hl => h.behind hl

theorem accounts_expect {x : Symbol} {f : Lexemes → Except SyntaxError (α × Lexemes)}
    (hf : ∀ l rest, s = .cons l rest → l.IsSymbol x →
      Accounts quotes rest (f rest) fun us => form (l :: us))
    (hbegins : Begins form []) : Accounts quotes s (s.expect x >>= f) form := by
  unfold expect
  split
  · rename_i hstart
    obtain ⟨l, rest, rfl, hl⟩ := exists_of_startsWith hstart
    exact accounts_advance (hf l rest rfl hl)
  · exact accounts_fail hbegins _

theorem accounts_keyword {word : String} {f : Lexemes → Except SyntaxError (α × Lexemes)}
    (hf : ∀ l rest, s = .cons l rest → l.IsWord word →
      Accounts quotes rest (f rest) fun us => form (l :: us))
    (hbegins : Begins form []) : Accounts quotes s (s.expectKeyword word >>= f) form := by
  unfold expectKeyword
  split
  · rename_i hat
    obtain ⟨l, rest, rfl, hl⟩ := exists_of_atKeyword hat
    exact accounts_advance (hf l rest rfl hl)
  · exact accounts_fail hbegins _

/-- A lexeme with a given token, wherever it stands. -/
def Token.lexeme (t : Token) : Lexeme :=
  ⟨t, 0, ""⟩

theorem isWord_lexeme (word : String) : (Token.word word).lexeme.IsWord word :=
  ⟨word, rfl, sameName_refl word⟩

/-! ### Lists -/

theorem listed_nil : Listed form [] [] :=
  ⟨[], .nil, rfl, List.forall_mem_nil _⟩

theorem listed_single {a : α} (ha : form ls a) : Listed form ls [a] :=
  ⟨[(ls, a)], .single ls, rfl, List.forall_mem_singleton.2 ha⟩

theorem listed_cons {comma : Lexeme} {a : α} {as : List α} (ha : form ls a)
    (hcomma : comma.IsSymbol .comma) (h : Listed form us as) (has : as ≠ []) :
    Listed form (ls ++ comma :: us) (a :: as) := by
  obtain ⟨items, hjoined, rfl, hitems⟩ := h
  cases items with
  | nil => exact absurd rfl has
  | cons p items =>
    exact ⟨(ls, a) :: p :: items, .cons hcomma hjoined, rfl, List.forall_mem_cons.2 ⟨ha, hitems⟩⟩

/-- Items with commas between them. -/
theorem accounts_separated {item : Parser α} (hitem : ∀ s, Accounts quotes s (item s) form) :
    Accounts quotes s (separated item s) fun ls as => Listed form ls as ∧ as ≠ [] := by
  induction hn : s.size using Nat.strong_induction_on generalizing s with
  | _ n ih =>
    have hsingle {ls : List Lexeme} {a : α} (ha : form ls a) :
        Listed form (ls ++ []) [a] ∧ [a] ≠ [] := by
      rw [List.append_nil]
      exact ⟨listed_single ha, List.cons_ne_nil a []⟩
    rw [separated]
    refine (hitem s).bind (fun a s₁ ls hs ha => ?_) fun ls a ha => ⟨[], [a], hsingle ha⟩
    dsimp only
    split
    · rename_i hcomma
      obtain ⟨comma, s₂, rfl, hl⟩ := exists_of_startsWith hcomma
      refine accounts_advance ?_
      have hshorter : s₂.size < s.size := by
        rw [hs.eq, size_prepend, size]
        omega
      rw [if_pos hshorter]
      refine (ih _ (hn ▸ hshorter) rfl).map ?_
      rintro us as ⟨has, hne⟩
      exact ⟨listed_cons ha hl has hne, List.cons_ne_nil a as⟩
    · exact accounts_ok (hsingle ha)

theorem sequence_nil : Sequence form [] [] :=
  ⟨[], rfl, rfl, List.forall_mem_nil _⟩

theorem Sequence.eq_nil (h : Sequence form ls []) : ls = [] := by
  obtain ⟨items, rfl, hitems, -⟩ := h
  rw [List.map_eq_nil_iff.1 hitems.symm]
  rfl

theorem sequence_cons {a : α} {as : List α} (ha : form ls a) (h : Sequence form us as) :
    Sequence form (ls ++ us) (a :: as) := by
  obtain ⟨items, rfl, rfl, hitems⟩ := h
  exact ⟨(ls, a) :: items, rfl, rfl, List.forall_mem_cons.2 ⟨ha, hitems⟩⟩

/-- Items for as long as they are announced. -/
theorem accounts_repeated {announced : Lexemes → Bool} {item : Parser α}
    (hitem : ∀ s, announced s = true → Accounts quotes s (item s) form)
    (hform : ∀ ls a, form ls a → ls ≠ []) :
    Accounts quotes s (repeated announced item s) (Sequence form) := by
  induction hn : s.size using Nat.strong_induction_on generalizing s with
  | _ n ih =>
    rw [repeated]
    split
    · rename_i hannounced
      refine (hitem s hannounced).bind (fun a s₁ ls hs ha => ?_)
        fun ls a ha => ⟨[], [a], sequence_cons ha sequence_nil⟩
      have hshorter : s₁.size < s.size := hs.size_lt (hform ls a ha)
      dsimp only
      rw [if_pos hshorter]
      exact (ih _ (hn ▸ hshorter) rfl).map fun us as has => sequence_cons ha has
    · exact accounts_ok sequence_nil

/-! ### Paths -/

/-- What is read of a path before a name is missing. -/
inductive Awaits : List Lexeme → Prop
  | first : Awaits []
  | next {l : Lexeme} {name : String} {ls : List Lexeme} (hl : l.token.name? = some name)
      (h : Dotted ls) : Awaits (l :: ls)

theorem Awaits.begins (h : Awaits ls) : Begins Names ls := by
  have hname : Names [(Token.word "").lexeme] [""] := .single rfl
  cases h with
  | first => exact ⟨_, _, hname⟩
  | @next l name ls hl h =>
    induction h generalizing l name with
    | dot hdot => exact ⟨_, _, .cons hl hdot hname⟩
    | name hdot hnext h ih =>
      obtain ⟨more, names, hnames⟩ := ih hnext
      exact ⟨more, name :: names, .cons hl hdot hnames⟩

theorem fail_ne_ok {f : SyntaxFault} {p : α × Lexemes} : s.fail f ≠ .ok p := by
  nofun

theorem fail_error {f : SyntaxFault}
    (h : (s.fail f : Except SyntaxError (α × Lexemes)) = .error e) : e = s.fault f :=
  (Except.error.inj h).symm

theorem error_of_map_error {ε : Type} {r : Except ε α} {f : α → β} {error : ε}
    (h : (r >>= fun a => pure (f a)) = .error error) : r = .error error := by
  cases r with
  | error error' =>
    cases h
    rfl
  | ok a => cases h

theorem cons_readable (l : Lexeme) (s : Lexemes) (error : SyntaxError) :
    Lexemes.cons l s ≠ .broken error := by
  nofun

theorem finish_readable (position : Nat) (error : SyntaxError) :
    Lexemes.finish position ≠ .broken error := by
  nofun

theorem pathSegments_result {names : List String} (h : pathSegments s = .ok (names, rest)) :
    ∃ ls, Consumed s ls rest ∧ Names ls names := by
  fun_induction pathSegments s generalizing names with
  | case4 l name hname next hdot tail htail ih =>
    obtain ⟨⟨names', s'⟩, hread, h⟩ := exists_of_bind_eq_ok h
    cases h
    obtain ⟨ls, hls, hnames⟩ := ih hread
    have hfirst : Consumed (.cons l (.cons next tail)) [l, next] tail :=
      ⟨rfl, fun _ error => htail error⟩
    exact ⟨l :: next :: ls, hfirst.append hls, .cons hname hdot hnames⟩
  | case5 l name hname next rest' hdot =>
    cases h
    exact ⟨[l], ⟨rfl, fun _ => cons_readable _ _⟩, .single hname⟩
  | case6 l name hname position =>
    cases h
    exact ⟨[l], ⟨rfl, fun _ => finish_readable _⟩, .single hname⟩
  | case1 | case7 => exact absurd h fail_ne_ok
  | case2 | case3 => cases h

theorem Awaits.after {dot : Lexeme} {name : String} (hl : l.token.name? = some name)
    (hdot : dot.IsSymbol .dot) (h : Awaits ls) : Awaits (l :: dot :: ls) := by
  cases h with
  | first => exact .next hl (.dot hdot)
  | next hnext h => exact .next hl (.name hdot hnext h)

theorem pathSegments_failure (h : pathSegments s = .error e) :
    (∃ ls, s = prepend ls (.broken e)) ∨
      ∃ ls rest, s = prepend ls rest ∧ Awaits ls ∧ e = rest.fault (.expected .name) := by
  fun_induction pathSegments s with
  | case1 l rest hname => exact .inr ⟨[], _, rfl, .first, fail_error h⟩
  | case2 l name hname error =>
    cases h
    exact .inl ⟨[l], rfl⟩
  | case3 l name hname next hdot error =>
    cases h
    exact .inl ⟨[l, next], rfl⟩
  | case4 l name hname next hdot tail htail ih =>
    rcases ih (error_of_map_error h) with ⟨ls, rfl⟩ | ⟨ls, rest, rfl, hls, he⟩
    · exact .inl ⟨l :: next :: ls, rfl⟩
    · exact .inr ⟨l :: next :: ls, rest, rfl, hls.after hname hdot, he⟩
  | case5 | case6 => cases h
  | case7 s hcons => exact .inr ⟨[], s, rfl, .first, fail_error h⟩

theorem Names.exists_head {names : List String} (h : Names ls names) :
    ∃ l us, ls = l :: us ∧ l.token.name? = names.head? := by
  cases h with
  | single hl => exact ⟨_, _, rfl, hl⟩
  | cons hl hdot h => exact ⟨_, _, rfl, hl⟩

theorem path_result {p : Path} (h : path s = .ok (p, rest)) :
    ∃ ls, Consumed s ls rest ∧ p.Written ls := by
  obtain ⟨⟨names, s'⟩, hread, h⟩ := exists_of_bind_eq_ok h
  obtain ⟨ls, hls, hnames⟩ := pathSegments_result hread
  cases h
  obtain ⟨l, us, rfl, -⟩ := hnames.exists_head
  exact ⟨l :: us, hls, hnames, by rw [hls.eq]; rfl⟩

theorem path_failure (h : path s = .error e) :
    (∃ ls, s = prepend ls (.broken e)) ∨
      ∃ ls rest, s = prepend ls rest ∧ Awaits ls ∧ e = rest.fault (.expected .name) :=
  pathSegments_failure (error_of_map_error h)

theorem Names.begins_path {names : List String} (h : Names (ls ++ us) names) :
    Begins (fun ls p => Path.Written ls p) ls := by
  obtain ⟨l, ls', hls, -⟩ := h.exists_head
  exact ⟨us, ⟨names, l.start⟩, h, by rw [hls]; rfl⟩

theorem accounts_path : Accounts quotes s (path s) fun ls p => p.Written ls := by
  refine ⟨path_result, fun h => ?_⟩
  rcases path_failure h with ⟨ls, rfl⟩ | ⟨ls, rest, rfl, hls, he⟩
  · exact .broken (.here ls _)
  · obtain ⟨more, names, hnames⟩ := hls.begins
    have hreaches : Reaches quotes (prepend ls rest) (ls ++ []) rest := by
      rw [List.append_nil]
      exact .here ls rest
    refine .token ls [] hreaches hnames.begins_path (.none _) ?_
    rw [he]
    exact fault_fault rest _

/-! ### Path tails -/

/-- What follows the first name of a path, with the names and the property that it adds. -/
def TailWritten (ls : List Lexeme) (a : List String × Option Property) : Prop :=
  PathTail (ls.map Lexeme.token) a.1 a.2

/-- A name behind a dot. A last name must not be that of a property. -/
theorem TailWritten.name {l next : Lexeme} {name : String} {a : List String × Option Property}
    (hdot : l.IsSymbol .dot) (hname : next.token.name? = some name)
    (hlast : ls = [] → ∀ w, next.token = .word w → Property.ofName? w = none)
    (ha : TailWritten ls a) : TailWritten (l :: next :: ls) (name :: a.1, a.2) := by
  rw [TailWritten, List.map_cons, List.map_cons, hdot]
  exact .name hname (fun hnil => hlast (List.map_eq_nil_iff.1 hnil)) ha

theorem TailWritten.property {l next : Lexeme} {w : String} {p : Property}
    (hdot : l.IsSymbol .dot) (hword : next.token = .word w) (hp : Property.ofName? w = some p) :
    TailWritten [l, next] ([], some p) := by
  rw [TailWritten, List.map_cons, List.map_cons, hdot, hword]
  exact .property hp

theorem pathTail_result {a : List String × Option Property} (h : pathTail s = .ok (a, rest)) :
    ∃ ls, Consumed s ls rest ∧ TailWritten ls a ∧ rest.startsWith .dot = false := by
  have hpair {l next : Lexeme} {tail : Lexemes} (htail : ∀ error, tail = .broken error → False) :
      Consumed (.cons l (.cons next tail)) [l, next] tail :=
    ⟨rfl, fun _ error => htail error⟩
  have hname {next : Lexeme} {t : Token} {name : String} (hnext : next.token = t)
      (hname : t.name? = some name) : next.token.name? = some name :=
    hnext ▸ hname
  fun_induction pathTail s generalizing a with
  -- A bracketed name is always one.
  | case2 l next hdot tail htail name hnext ih =>
    obtain ⟨⟨a', s'⟩, hread, h⟩ := exists_of_bind_eq_ok h
    cases h
    obtain ⟨ls, hls, ha, hrest⟩ := ih hread
    refine ⟨l :: next :: ls, (hpair htail).append hls, ?_, hrest⟩
    exact ha.name hdot (hname hnext rfl) fun _ w hw => by cases hnext.symm.trans hw
  -- A bare name at the end may be that of a property, and is a name otherwise.
  | case3 l next hdot tail htail name hnext p hp =>
    cases h
    split at hp
    · cases hp
    · rename_i hstart
      exact ⟨[l, next], hpair htail, .property hdot hnext hp, Bool.eq_false_of_not_eq_true hstart⟩
  | case4 l next hdot tail htail name hnext hnone ih =>
    obtain ⟨⟨a', s'⟩, hread, h⟩ := exists_of_bind_eq_ok h
    cases h
    obtain ⟨ls, hls, ha, hrest⟩ := ih hread
    refine ⟨l :: next :: ls, (hpair htail).append hls, ?_, hrest⟩
    refine ha.name hdot (hname hnext rfl) ?_
    rintro rfl w hw
    obtain rfl : tail = rest := hls.eq
    rw [hrest, if_neg Bool.false_ne_true] at hnone
    cases hnext.symm.trans hw
    exact hnone
  -- Without a dot there is nothing to read.
  | case6 l next tail hdot =>
    cases h
    exact ⟨[], consumed_nil _, .nil, Lexemes.startsWith_of_ne hdot⟩
  | case8 l error hdot =>
    cases h
    exact ⟨[], consumed_nil _, .nil, Lexemes.startsWith_of_ne hdot⟩
  | case10 l position hdot =>
    cases h
    exact ⟨[], consumed_nil _, .nil, Lexemes.startsWith_of_ne hdot⟩
  | case11 s hpair hbroken hfinish =>
    cases h
    refine ⟨[], consumed_nil _, .nil, ?_⟩
    cases rest with
    | cons l s =>
      cases s with
      | cons next s => exact (hpair l next s rfl).elim
      | broken error => exact (hbroken l error rfl).elim
      | finish position => exact (hfinish l position rfl).elim
    | _ => rfl
  | _ => cases h

/-- Behind any name there is room for one more. -/
theorem Begins.exists_tail (h : Begins TailWritten ls) :
    ∃ more a, ls ++ more ≠ [] ∧ TailWritten (ls ++ more) a := by
  obtain ⟨more, a, ha⟩ := h
  by_cases hnil : ls ++ more = []
  · obtain ⟨rfl, -⟩ := List.append_eq_nil_iff.1 hnil
    have hname : PathTail [.symbol .dot, .bracketed ""] [""] none :=
      .name rfl (fun _ => by nofun) .nil
    exact ⟨[(Token.symbol .dot).lexeme, (Token.bracketed "").lexeme], ([""], none),
      List.cons_ne_nil _ _, hname⟩
  · exact ⟨more, a, hnil, ha⟩

theorem Begins.after_name {dot next : Lexeme} {name : String} (hdot : dot.IsSymbol .dot)
    (hname : next.token.name? = some name) (h : Begins TailWritten ls) :
    Begins TailWritten (dot :: next :: ls) := by
  obtain ⟨more, a, hne, ha⟩ := h.exists_tail
  exact ⟨more, (name :: a.1, a.2), ha.name hdot hname fun hnil => absurd hnil hne⟩

theorem begins_dot {dot : Lexeme} (hdot : dot.IsSymbol .dot) : Begins TailWritten [dot] := by
  have hname : PathTail [dot.token, .bracketed ""] [""] none := by
    rw [hdot]
    exact .name rfl (fun _ => by nofun) .nil
  exact ⟨[(Token.bracketed "").lexeme], ([""], none), hname⟩

theorem pathTail_failure (h : pathTail s = .error e) : Blame quotes s (Begins TailWritten) e := by
  have hname {next : Lexeme} {name : String}
      (hnext : next.token = .word name ∨ next.token = .bracketed name) :
      next.token.name? = some name := by
    rcases hnext with hnext | hnext
    all_goals
      rw [hnext]
      rfl
  fun_induction pathTail s with
  | case1 l next hdot error =>
    cases h
    exact .broken (.here [l, next] _)
  | case2 l next hdot tail htail name hnext ih =>
    exact (ih (error_of_map_error h)).after [l, next] fun _ =>
      .after_name hdot (hname (.inr hnext))
  | case4 l next hdot tail htail name hnext hnone ih =>
    exact (ih (error_of_map_error h)).after [l, next] fun _ =>
      .after_name hdot (hname (.inl hnext))
  -- What stands behind the dot is no name.
  | case5 l next hdot tail htail hbracketed hword =>
    obtain rfl := fail_error h
    refine .token [l] [next] (.here [l, next] tail) (begins_dot hdot) ?_ (fault_fault _ _)
    cases tail with
    | broken error => exact (htail error rfl).elim
    | _ => exact .dropped next (.inl rfl)
  | case7 l error hdot =>
    cases h
    exact .broken (.here [l] _)
  -- Nothing stands behind the dot.
  | case9 l position hdot =>
    obtain rfl := fail_error h
    exact .token [l] [] (.here [l] _) (begins_dot hdot) (.none _) rfl
  | _ => cases h

end CubeQuery.Language
