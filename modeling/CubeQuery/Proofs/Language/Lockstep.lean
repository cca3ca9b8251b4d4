import CubeQuery.Proofs.Language.Accepting

/-!
Two sequences with the same tokens up to a point where the first one ends. Whatever a parser reads
in the first one it reads in the second one too, apart from positions, as long as no symbol stands
in the second one at that point.
-/

namespace CubeQuery.Language

open Lexemes CubeQuery.Text

variable {α β γ δ : Type} {r r' s s' : Lexemes} {l l' : Lexeme} {t : Token}

/-- The first sequence goes on to `r` with the tokens with which the second one goes on to `r'`. -/
inductive Along (r r' : Lexemes) : Lexemes → Lexemes → Prop
  | stop : Along r r' r r'
  | cons {l l' : Lexeme} {s s' : Lexemes} (htoken : l'.token = l.token) (h : Along r r' s s') :
      Along r r' (.cons l s) (.cons l' s')

/-- The first sequence ends, and no symbol but a comma stands in the second one. -/
structure Parting (r r' : Lexemes) : Prop where
  ended : r.peek? = none
  readable (h : ∀ error, r ≠ .broken error) (error : SyntaxError) : r' ≠ .broken error
  symbol (x : Symbol) (hx : x ≠ .comma) : r'.startsWith x = false

/-- Whatever the first result is, the second one is the same in view, and both stand at the same
token. -/
def Tracks (r r' : Lexemes) (view : α → γ) (p p' : Except SyntaxError (α × Lexemes)) : Prop :=
  ∀ a s, p = .ok (a, s) → ∃ a' s', p' = .ok (a', s') ∧ view a' = view a ∧ Along r r' s s'

section

variable {view : α → γ} {viewb : β → δ}

theorem tracks_ok {a a' : α} (ha : view a' = view a) (h : Along r r' s s') :
    Tracks r r' view (.ok (a, s)) (.ok (a', s')) := by
  rintro _ _ ⟨⟩
  exact ⟨a', s', rfl, ha, h⟩

theorem tracks_error {error : SyntaxError} {p' : Except SyntaxError (α × Lexemes)} :
    Tracks r r' view (.error error) p' := by
  nofun

theorem tracks_fail {f : SyntaxFault} {p' : Except SyntaxError (α × Lexemes)} :
    Tracks r r' view (s.fail f) p' := by
  nofun

theorem Tracks.bind {p p' : Except SyntaxError (α × Lexemes)}
    {f f' : α × Lexemes → Except SyntaxError (β × Lexemes)} (h : Tracks r r' view p p')
    (hf : ∀ a a' s s', view a' = view a → Along r r' s s' →
      Tracks r r' viewb (f (a, s)) (f' (a', s'))) :
    Tracks r r' viewb (p >>= f) (p' >>= f') := by
  cases p with
  | error error => nofun
  | ok q =>
    obtain ⟨a', s', rfl, ha, hs⟩ := h q.1 q.2 rfl
    exact hf q.1 a' q.2 s' ha hs

end

namespace Along

theorem peek? (h : Along r r' s s') (hparting : Parting r r') (ht : s.peek? = some t) :
    ∃ l l' u u', s = .cons l u ∧ s' = .cons l' u' ∧ l.token = t ∧ l'.token = t ∧
      Along r r' u u' := by
  cases h with
  | stop => cases hparting.ended.symm.trans ht
  | cons htoken h =>
    obtain rfl := Option.some.inj ht
    exact ⟨_, _, _, _, rfl, rfl, rfl, htoken, h⟩

/-- A comma may stand where the first sequence ends. -/
theorem startsWith_of (h : Along r r' s s') (hparting : Parting r r') {x : Symbol}
    (hx : x = .comma → s.peek? = none → r'.startsWith .comma = false) :
    s'.startsWith x = s.startsWith x := by
  cases h with
  | stop =>
    have hr : r.startsWith x = false := by
      rw [startsWith, hparting.ended]
      rfl
    have hr' : r'.startsWith x = false := by
      by_cases hcomma : x = .comma
      · rw [hcomma]
        exact hx hcomma hparting.ended
      · exact hparting.symbol x hcomma
    rw [hr, hr']
  | cons htoken h =>
    rw [startsWith, startsWith, Lexemes.peek?, Lexemes.peek?, htoken]

theorem startsWith (h : Along r r' s s') (hparting : Parting r r') {x : Symbol}
    (hx : x ≠ .comma) : s'.startsWith x = s.startsWith x :=
  h.startsWith_of hparting fun hcomma => absurd hcomma hx

theorem size (h : Along r r' s s') : s.size + r'.size = s'.size + r.size := by
  induction h with
  | stop => exact Nat.add_comm _ _
  | cons htoken h ih =>
    rw [Lexemes.size, Lexemes.size]
    omega

theorem checked (h : Along r r' s s') (hparting : Parting r r') {u : Lexemes}
    (hchecked : s.checked = .ok u) : u = s ∧ s'.checked = .ok s' := by
  cases h with
  | stop =>
    have hreadable : ∀ error, r ≠ .broken error := by
      rintro error rfl
      cases hchecked
    constructor
    · cases r with
      | broken error => exact absurd rfl (hreadable error)
      | _ => exact (Except.ok.inj hchecked).symm
    · have hreadable' := hparting.readable hreadable
      cases r' with
      | broken error => exact absurd rfl (hreadable' error)
      | _ => rfl
  | cons htoken h => exact ⟨(Except.ok.inj hchecked).symm, rfl⟩

theorem advance (h : Along r r' s s') (hparting : Parting r r') {u : Lexemes}
    (hadvance : (Lexemes.cons l s).advance = .ok u) :
    u = s ∧ (Lexemes.cons l' s').advance = .ok s' :=
  h.checked hparting hadvance

theorem operator? (h : Along r r' s s') (hparting : Parting r r') :
    s'.operator? = s.operator? := by
  cases h with
  | stop =>
    have hr : r.operator? = none := by
      rw [Lexemes.operator?, hparting.ended]
    have hsymbol (x : Symbol) (hx : x ≠ .comma) : r'.peek? ≠ some (.symbol x) :=
      beq_eq_false_iff_ne.1 (hparting.symbol x hx)
    rw [hr]
    unfold Lexemes.operator?
    split
    · exact absurd ‹_› (hsymbol .plus (by decide))
    · exact absurd ‹_› (hsymbol .minus (by decide))
    · exact absurd ‹_› (hsymbol .star (by decide))
    · exact absurd ‹_› (hsymbol .slash (by decide))
    · rfl
  | cons htoken h =>
    unfold Lexemes.operator?
    rw [Lexemes.peek?, Lexemes.peek?, htoken]

end Along

theorem tracks_repeated {view : α → γ} {announced : Lexemes → Bool} {item : Parser α}
    (hannounced : ∀ s s', Along r r' s s' → announced s' = announced s)
    (hitem : ∀ s s', Along r r' s s' → Tracks r r' view (item s) (item s')) (h : Along r r' s s') :
    Tracks r r' (List.map view) (repeated announced item s) (repeated announced item s') := by
  induction hn : s.size using Nat.strong_induction_on generalizing s s' with
  | _ n ih =>
    rw [repeated, repeated, hannounced s s' h]
    split
    · refine (hitem s s' h).bind fun a a' s₁ s₁' ha hs₁ => ?_
      have hsize := h.size
      have hsize₁ := hs₁.size
      dsimp only
      by_cases hshorter : s₁.size < s.size
      · rw [if_pos hshorter, if_pos (by omega)]
        refine (ih _ (hn ▸ hshorter) hs₁ rfl).bind fun as as' s₂ s₂' has hs₂ => ?_
        exact tracks_ok (by rw [List.map_cons, List.map_cons, ha, has]) hs₂
      · rw [if_neg hshorter, if_neg (by omega)]
        exact tracks_ok (by rw [List.map_singleton, List.map_singleton, ha]) hs₁
    · exact tracks_ok rfl h

/-- The names of a path, token by token. -/
theorem pathSegments_cons {rest : Lexemes} {name : String} (hname : l.token.name? = some name) :
    pathSegments (.cons l rest) = (Lexemes.cons l rest).advance >>= fun s =>
      if s.startsWith .dot then
        s.advance >>= fun s => pathSegments s >>= fun p => pure (name :: p.1, p.2)
      else pure ([name], s) := by
  rw [pathSegments, hname]
  cases rest with
  | broken error => rfl
  | finish position => rfl
  | cons next tail =>
    show _ = if (Lexemes.cons next tail).startsWith .dot then _ else _
    by_cases hdot : next.token = .symbol .dot
    · rw [if_pos (startsWith_of_eq hdot)]
      dsimp only
      rw [if_pos hdot]
      cases tail <;> rfl
    · rw [startsWith_of_ne hdot]
      dsimp only
      rw [if_neg hdot]
      rfl

/-- What follows a name of a path, token by token. -/
theorem pathTail_eq (s : Lexemes) :
    pathTail s = if s.startsWith .dot then s.advance >>= fun s => s.advance >>= fun rest =>
        match s.peek? with
        | some (.bracketed name) =>
          pathTail rest >>= fun p => pure ((name :: p.1.1, p.1.2), p.2)
        | some (.word name) =>
          match if rest.startsWith .dot then none else Property.ofName? name with
          | some property => pure (([], some property), rest)
          | none => pathTail rest >>= fun p => pure ((name :: p.1.1, p.1.2), p.2)
        | _ => rest.fail (.expected .nameAfterDot)
      else pure (([], none), s) := by
  cases s with
  | finish position => rfl
  | broken error => rfl
  | cons l s =>
    by_cases hdot : l.token = .symbol .dot
    · rw [if_pos (startsWith_of_eq hdot)]
      cases s with
      | broken error =>
        rw [pathTail, if_pos hdot]
        rfl
      | finish position =>
        rw [pathTail, if_pos hdot]
        rfl
      | cons next rest =>
        cases rest with
        | broken error =>
          rw [pathTail, if_pos hdot]
          rfl
        | _ =>
          rw [pathTail, if_pos hdot]
          · obtain ⟨t, start, text⟩ := next
            cases t <;> rfl
          · intro error h
            cases h
    · rw [startsWith_of_ne hdot, if_neg Bool.false_ne_true]
      cases s with
      | cons next rest =>
        unfold pathTail
        cases rest <;> exact if_neg hdot
      | _ => rw [pathTail, if_neg hdot]

section

variable {view : α → γ} (hparting : Parting r r')

include hparting

theorem tracks_advance {f f' : Lexemes → Except SyntaxError (α × Lexemes)} (h : Along r r' s s')
    (hf : Tracks r r' view (f s) (f' s')) :
    Tracks r r' view ((Lexemes.cons l s).advance >>= f) ((Lexemes.cons l' s').advance >>= f') := by
  cases hadvance : (Lexemes.cons l s).advance with
  | error error => exact tracks_error
  | ok u =>
    obtain ⟨rfl, hadvance'⟩ : u = s ∧ (Lexemes.cons l' s').advance = .ok s' :=
      h.advance hparting hadvance
    rw [hadvance']
    exact hf

theorem tracks_expect {x : Symbol} {f f' : Lexemes → Except SyntaxError (α × Lexemes)}
    (h : Along r r' s s')
    (hf : ∀ u u', Along r r' u u' → Tracks r r' view (f u) (f' u')) :
    Tracks r r' view (s.expect x >>= f) (s'.expect x >>= f') := by
  unfold expect
  split
  · rename_i hstart
    obtain ⟨l, l', u, u', rfl, rfl, hl, hl', hu⟩ := h.peek? hparting (eq_of_beq hstart)
    rw [if_pos (startsWith_of_eq hl')]
    exact tracks_advance hparting hu (hf u u' hu)
  · exact tracks_fail

theorem Along.atKeyword {word : String} (h : Along r r' s s') (hat : s.atKeyword word = true) :
    ∃ l l' u u', s = .cons l u ∧ s' = .cons l' u' ∧ s'.atKeyword word = true ∧ Along r r' u u' := by
  cases h with
  | stop =>
    rw [Lexemes.atKeyword, hparting.ended] at hat
    cases hat
  | cons htoken h =>
    refine ⟨_, _, _, _, rfl, rfl, ?_, h⟩
    rw [Lexemes.atKeyword, Lexemes.peek?, htoken]
    exact hat

theorem tracks_keyword {word : String} {f f' : Lexemes → Except SyntaxError (α × Lexemes)}
    (h : Along r r' s s')
    (hf : ∀ u u', Along r r' u u' → Tracks r r' view (f u) (f' u')) :
    Tracks r r' view (s.expectKeyword word >>= f) (s'.expectKeyword word >>= f') := by
  unfold expectKeyword
  split
  · rename_i hat
    obtain ⟨l, l', u, u', rfl, rfl, hat', hu⟩ := h.atKeyword hparting hat
    rw [if_pos hat']
    exact tracks_advance hparting hu (hf u u' hu)
  · exact tracks_fail

/-- A list that does not end where the first sequence does, or is followed by no comma there. -/
theorem separated_tracks {item : Parser α}
    (hitem : ∀ s s', Along r r' s s' → Tracks r r' view (item s) (item s')) (h : Along r r' s s')
    {as : List α} {u : Lexemes} (hread : separated item s = .ok (as, u))
    (hend : u.peek? = none → r'.startsWith .comma = false) :
    ∃ as' u', separated item s' = .ok (as', u') ∧ as'.map view = as.map view ∧ Along r r' u u' := by
  induction hn : s.size using Nat.strong_induction_on generalizing s s' as with
  | _ n ih =>
    rw [separated] at hread
    obtain ⟨⟨a, s₁⟩, hfirst, hread⟩ := exists_of_bind_eq_ok hread
    obtain ⟨a', s₁', hfirst', ha, hs₁⟩ := hitem s s' h a s₁ hfirst
    rw [separated, hfirst']
    show ∃ as' u', (if s₁'.startsWith .comma then _ else _) = _ ∧ _
    dsimp only at hread
    by_cases hcomma : s₁.startsWith .comma = true
    · rw [if_pos hcomma] at hread
      obtain ⟨l, l', u₁, u₁', rfl, rfl, -, hl', hu₁⟩ := hs₁.peek? hparting (eq_of_beq hcomma)
      obtain ⟨s₂, hadvance, hnext⟩ := exists_of_bind_eq_ok hread
      obtain ⟨rfl, hadvance'⟩ : s₂ = u₁ ∧ (Lexemes.cons l' u₁').advance = .ok u₁' :=
        hu₁.advance hparting hadvance
      rw [if_pos (startsWith_of_eq hl'), hadvance']
      show ∃ as' u', (if u₁'.size < s'.size then _ else _) = _ ∧ _
      -- What each sequence has left ends in the same rest, so both go on or both stop.
      have hsize := h.size
      have hsize₁ := hu₁.size
      by_cases hshorter : s₂.size < s.size
      · rw [if_pos hshorter] at hnext
        obtain ⟨⟨bs, v⟩, hrest, hnext⟩ := exists_of_bind_eq_ok hnext
        cases hnext
        obtain ⟨bs', v', hrest', hbs, hv⟩ := ih _ (hn ▸ hshorter) hu₁ hrest rfl
        rw [if_pos (by omega), hrest']
        exact ⟨a' :: bs', v', rfl, by rw [List.map_cons, List.map_cons, ha, hbs], hv⟩
      · rw [if_neg hshorter] at hnext
        cases hnext
        rw [if_neg (by omega)]
        exact ⟨[a'], u₁', rfl, by rw [List.map_singleton, List.map_singleton, ha], hu₁⟩
    · rw [if_neg hcomma] at hread
      cases hread
      rw [hs₁.startsWith_of hparting fun _ => hend, if_neg hcomma]
      exact ⟨[a'], s₁', rfl, by rw [List.map_singleton, List.map_singleton, ha], hs₁⟩

theorem tracks_separated {item : Parser α}
    (hitem : ∀ s s', Along r r' s s' → Tracks r r' view (item s) (item s'))
    (hcomma : r'.startsWith .comma = false) (h : Along r r' s s') :
    Tracks r r' (List.map view) (separated item s) (separated item s') :=
  fun _ _ hread => separated_tracks hparting hitem h hread fun _ => hcomma

/-! ### Paths -/

theorem tracks_pathSegments (h : Along r r' s s') :
    Tracks r r' id (pathSegments s) (pathSegments s') := by
  induction hn : s.size using Nat.strong_induction_on generalizing s s' with
  | _ n ih =>
    cases h with
    | stop =>
      -- Where the sequences part the first one has ended, and no name starts there.
      have hfail : pathSegments r = r.fail (.expected .name) := by
        cases r with
        | cons l rest => cases hparting.ended
        | _ => rfl
      rw [hfail]
      exact tracks_fail
    | @cons l l' s s' htoken h =>
      cases hname : l.token.name? with
      | none =>
        rw [pathSegments, hname]
        exact tracks_fail
      | some name =>
        rw [pathSegments_cons hname, pathSegments_cons (htoken ▸ hname)]
        refine tracks_advance hparting h ?_
        rw [h.startsWith hparting (by decide)]
        split
        · rename_i hdot
          obtain ⟨next, next', u, u', rfl, rfl, -, -, hu⟩ := h.peek? hparting (eq_of_beq hdot)
          refine tracks_advance hparting hu ?_
          have hshorter : u.size < n := by
            rw [← hn, size, size]
            omega
          refine (ih _ hshorter hu rfl).bind fun names names' s₁ s₁' hnames hs₁ => ?_
          exact tracks_ok (congrArg (name :: ·) hnames) hs₁
        · exact tracks_ok rfl h

theorem tracks_path (h : Along r r' s s') :
    Tracks r r' Path.unplaced (path s) (path s') := by
  refine (tracks_pathSegments hparting h).bind fun names names' s₁ s₁' hnames hs₁ => ?_
  obtain rfl : names' = names := hnames
  exact tracks_ok rfl hs₁

theorem tracks_pathTail (h : Along r r' s s') :
    Tracks r r' id (pathTail s) (pathTail s') := by
  induction hn : s.size using Nat.strong_induction_on generalizing s s' with
  | _ n ih =>
    rw [pathTail_eq, pathTail_eq, h.startsWith hparting (by decide)]
    split
    · rename_i hdot
      obtain ⟨l, l', u, u', rfl, rfl, -, -, hu⟩ := h.peek? hparting (eq_of_beq hdot)
      refine tracks_advance hparting hu ?_
      cases hpeek : u.peek? with
      | none =>
        cases u with
        | cons next rest => cases hpeek
        | finish position => exact tracks_fail
        | broken error => exact tracks_error
      | some t =>
        obtain ⟨next, next', v, v', rfl, rfl, hnext, hnext', hv⟩ := hu.peek? hparting hpeek
        refine tracks_advance hparting hv ?_
        have hpeek' : (Lexemes.cons next' v').peek? = some t := congrArg some hnext'
        rw [hpeek', hv.startsWith hparting (by decide)]
        -- What both sequences do with a name that is no property: the rest of the path follows.
        have hname (name : String) : Tracks r r' id
            (pathTail v >>= fun p => pure ((name :: p.1.1, p.1.2), p.2))
            (pathTail v' >>= fun p => pure ((name :: p.1.1, p.1.2), p.2)) := by
          have hshorter : v.size < n := by
            rw [← hn, size, size]
            omega
          refine (ih _ hshorter hv rfl).bind fun a a' s₁ s₁' ha hs₁ => ?_
          obtain rfl : a' = a := ha
          exact tracks_ok rfl hs₁
        cases t with
        | bracketed name => exact hname name
        | word name =>
          dsimp only
          split
          · exact tracks_ok rfl hv
          · exact hname name
        | _ => exact tracks_fail
    · exact tracks_ok rfl h

end

end CubeQuery.Language
