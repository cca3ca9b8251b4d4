import CubeQuery.Proofs.Language.ExpressionLockstep
import CubeQuery.Proofs.Language.Places
import CubeQuery.Proofs.Language.StatementAccounts

/-!
Definitions and statements in two sequences with the same tokens: what is read in the first one is
read in the second one, apart from positions. A definition may be followed by more than its own
tokens; a statement ends where its text does.
-/

namespace CubeQuery.Language

open Lexemes CubeQuery.Text CubeQuery.Number

variable {α γ : Type} {r r' s s' : Lexemes} {view : α → γ}

/-! ### The same text in two places -/

/-- Two ends, at which both sequences can be read or both cannot. -/
structure Closing (r r' : Lexemes) : Prop where
  first : r.peek? = none
  second : r'.peek? = none
  readable : (∀ error, r ≠ .broken error) ↔ ∀ error, r' ≠ .broken error

namespace Closing

theorem symm (h : Closing r r') : Closing r' r :=
  ⟨h.second, h.first, h.readable.symm⟩

theorem parting (h : Closing r r') : Parting r r' where
  ended := h.first
  readable := h.readable.1
  symbol x _ := by
    rw [startsWith, h.second]
    rfl

theorem finish (position position' : Nat) : Closing (.finish position) (.finish position') where
  first := rfl
  second := rfl
  readable := iff_of_true (finish_readable position) (finish_readable position')

theorem broken (e e' : SyntaxError) : Closing (.broken e) (.broken e') where
  first := rfl
  second := rfl
  readable := iff_of_false (fun h => h e rfl) fun h => h e' rfl

end Closing

theorem Along.symm (h : Along r r' s s') : Along r' r s' s := by
  induction h with
  | stop => exact .stop
  | cons htoken h ih => exact .cons htoken.symm ih

theorem Along.peek?_eq (h : Along r r' s s') (hclosing : Closing r r') : s'.peek? = s.peek? := by
  cases h with
  | stop => rw [hclosing.first, hclosing.second]
  | cons htoken h => exact congrArg some htoken

/-- The tokens of a text do not depend on where it stands and how wide it is there. -/
theorem scan_along (width width' : Char → Nat) (position position' : Nat) (cs : List Char) :
    ∃ r r', Closing r r' ∧ Along r r' (scan width position cs) (scan width' position' cs) := by
  induction hn : cs.length using Nat.strong_induction_on generalizing cs position position' with
  | _ n ih =>
    cases hbody : cs.drop (gapLength cs) with
    | nil =>
      rw [scan_nil hbody, scan_nil hbody]
      exact ⟨_, _, .finish _ _, .stop⟩
    | cons c rest =>
      cases htoken : tokenAt c rest with
      | error error =>
        rw [scan_broken hbody htoken, scan_broken hbody htoken]
        exact ⟨_, _, .broken _ _, .stop⟩
      | ok p =>
        obtain ⟨t, length⟩ := p
        rw [scan_cons hbody htoken, scan_cons hbody htoken]
        have hshorter : (rest.drop (length - 1)).length < n := by
          have := congrArg List.length hbody
          rw [List.length_drop, List.length_cons] at this
          rw [List.length_drop]
          omega
        obtain ⟨r, r', hclosing, h⟩ := ih _ hshorter _ _ _ rfl
        exact ⟨r, r', hclosing, .cons rfl h⟩

/-! ### Definitions -/

theorem expr_of_peek? (h : s.peek? = none) : ∃ error, expr s = .error error := by
  obtain ⟨levels, hlevels⟩ : ∃ n, nestingLimit = n + 1 := ⟨127, rfl⟩
  have hoperand : operand (exprWithin levels) s = s.fail (.unexpected .inExpression) := by
    rw [operand, h]
  rw [expr, hlevels, exprWithin]
  dsimp only
  rw [hoperand]
  exact ⟨_, rfl⟩

/-- Expressions that are texts of their own. -/
theorem tracks_quoted {v v' inner inner' : Lexemes} (hclosing : Closing v v')
    (hinner : Along v v' inner inner') (h : Along r r' s s') :
    Tracks r r' Expr.unplaced
      (inner.checked >>= fun inner => expr inner >>= fun p =>
        if p.2.atEnd then pure (p.1, s) else p.2.fail (.unexpected .inQuotedExpression))
      (inner'.checked >>= fun inner => expr inner >>= fun p =>
        if p.2.atEnd then pure (p.1, s') else p.2.fail (.unexpected .inQuotedExpression)) := by
  cases hchecked : inner.checked with
  | error error => exact tracks_error
  | ok u =>
    obtain ⟨rfl, hchecked'⟩ := hinner.checked hclosing.parting hchecked
    rw [hchecked']
    cases hread : expr u with
    | error error =>
      show Tracks r r' _ (expr u >>= _) _
      rw [hread]
      exact tracks_error
    | ok p =>
      obtain ⟨e', w', hread', he, hw⟩ := tracks_expr hclosing.parting hinner p.1 p.2 hread
      show Tracks r r' _ (expr u >>= _) (expr inner' >>= _)
      rw [hread, hread']
      show Tracks r r' _ (if p.2.atEnd then _ else _) (if w'.atEnd then _ else _)
      rw [atEnd, atEnd, hw.peek?_eq hclosing]
      split
      · exact tracks_ok he h
      · exact tracks_fail

section

variable (hparting : Parting r r')

include hparting

/-- Where the first sequence ends nothing can be read. -/
theorem tracks_next {p p' : Except SyntaxError (α × Lexemes)} (h : Along r r' s s')
    (hcons : ∀ l l' u u', s = .cons l u → s' = .cons l' u' → l'.token = l.token →
      Along r r' u u' → Tracks r r' view p p')
    (hend : s.peek? = none → ∃ error, p = .error error) : Tracks r r' view p p' := by
  cases hpeek : s.peek? with
  | some t =>
    obtain ⟨l, l', u, u', hs, hs', hl, hl', hu⟩ := h.peek? hparting hpeek
    exact hcons l l' u u' hs hs' (hl'.trans hl.symm) hu
  | none =>
    obtain ⟨error, rfl⟩ := hend hpeek
    exact tracks_error

theorem tracks_definitionBody (h : Along r r' s s') :
    Tracks r r' Expr.unplaced (definitionBody s) (definitionBody s') := by
  refine tracks_next hparting h (fun l l' u u' hs hs' hl hu => ?_) fun hpeek => ?_
  · subst hs hs'
    rw [definitionBody, definitionBody, peek?, peek?, hl]
    cases ht : l.token with
    | quoted text =>
      refine tracks_advance hparting hu ?_
      obtain ⟨v, v', hclosing, hv⟩ := scan_along _ _ (l.start + 1) (l'.start + 1) text.toList
      exact tracks_quoted hclosing hv hu
    | _ => exact tracks_expr hparting h
  · rw [definitionBody, hpeek]
    exact expr_of_peek? hpeek

theorem tracks_order (g : Int → MemberSetting) (h : Along r r' s s') :
    Tracks r r' id
      (match s.peek? with
        | some (.number x) =>
          match solveOrder? x with
          | some n => s.advance >>= fun s => pure (g n, s)
          | none => s.fail (.expected .solveOrder)
        | _ => s.fail (.expected .solveOrder))
      (match s'.peek? with
        | some (.number x) =>
          match solveOrder? x with
          | some n => s'.advance >>= fun s => pure (g n, s)
          | none => s'.fail (.expected .solveOrder)
        | _ => s'.fail (.expected .solveOrder)) := by
  refine tracks_next hparting h (fun l l' u u' hs hs' hl hu => ?_) fun hpeek => ?_
  · subst hs hs'
    rw [peek?, peek?, hl]
    cases l.token with
    | number x =>
      dsimp only
      cases solveOrder? x with
      | none => exact tracks_fail
      | some n => exact tracks_advance hparting hu (tracks_ok rfl hu)
    | _ => exact tracks_fail
  · rw [hpeek]
    exact ⟨_, rfl⟩

theorem tracks_format (h : Along r r' s s') :
    Tracks r r' id
      (s.advance >>= fun rest => match s.peek? with
        | some (.text t) | some (.quoted t) => pure (MemberSetting.format t, rest)
        | _ => rest.fail (.expected .formatText))
      (s'.advance >>= fun rest => match s'.peek? with
        | some (.text t) | some (.quoted t) => pure (MemberSetting.format t, rest)
        | _ => rest.fail (.expected .formatText)) := by
  refine tracks_next hparting h (fun l l' u u' hs hs' hl hu => ?_) fun hpeek => ?_
  · subst hs hs'
    refine tracks_advance hparting hu ?_
    rw [peek?, peek?, hl]
    cases l.token with
    | text t => exact tracks_ok rfl hu
    | quoted t => exact tracks_ok rfl hu
    | _ => exact tracks_fail
  · cases s with
    | cons l rest => cases hpeek
    | _ => exact ⟨_, rfl⟩

theorem tracks_memberSetting (h : Along r r' s s') :
    Tracks r r' id (memberSetting s) (memberSetting s') := by
  have hkeyword {l l' : Lexeme} (u u' : Lexemes) (hl : l'.token = l.token) (word : String) :
      (Lexemes.cons l' u').atKeyword word = (Lexemes.cons l u).atKeyword word := by
    rw [atKeyword, atKeyword, peek?, peek?, hl]
  refine tracks_next hparting h (fun l l' u u' hs hs' hl hu => ?_) fun hpeek => ?_
  · subst hs hs'
    rw [memberSetting, memberSetting]
    refine tracks_advance hparting hu (tracks_next hparting hu ?_ fun hpeek => ?_)
    · intro m m' v v' hs hs' hm hv
      subst hs hs'
      rw [hkeyword v v' hm, hkeyword v v' hm]
      split
      -- `FORMAT_STRING`, then `SOLVE_ORDER` with or without a sign.
      · exact tracks_advance hparting hv <| tracks_expect hparting hv fun w w' hw =>
          tracks_format hparting hw
      · split
        · refine tracks_advance hparting hv (tracks_expect hparting hv fun w w' hw => ?_)
          dsimp only
          rw [hw.startsWith hparting (by decide)]
          split
          · rename_i hminus
            obtain ⟨x, x', y, y', rfl, rfl, -, -, hy⟩ := hw.peek? hparting (eq_of_beq hminus)
            exact tracks_advance hparting hy (tracks_order hparting _ hy)
          · exact tracks_order hparting _ hw
        · exact tracks_fail
    · rw [atKeyword, atKeyword, hpeek]
      exact ⟨_, rfl⟩
  · cases s with
    | cons l rest => cases hpeek
    | _ => exact ⟨_, rfl⟩

variable (hcomma : r'.startsWith .comma = false)

include hcomma

theorem tracks_settings (h : Along r r' s s') :
    Tracks r r' id (repeated (·.startsWith .comma) memberSetting s)
      (repeated (·.startsWith .comma) memberSetting s') := by
  have hannounced (s s' : Lexemes) (h : Along r r' s s') :
      s'.startsWith .comma = s.startsWith .comma :=
    h.startsWith_of hparting fun _ _ => hcomma
  have hread := tracks_repeated hannounced (fun _ _ => tracks_memberSetting hparting) h
  rwa [List.map_id_fun] at hread

omit hparting hcomma in
theorem unplaced_settings (as : List MemberSetting) (d : MemberDefinition) :
    (Definition.member (as.foldl MemberDefinition.apply d)).unplaced =
      .member (as.foldl MemberDefinition.apply
        { d with path := d.path.unplaced, expr := d.expr.unplaced }) := by
  induction as generalizing d with
  | nil => rfl
  | cons a as ih => cases a <;> exact ih _

/-- What follows the body of a definition. -/
theorem tracks_defined (isMember : Bool) {p p' : Path} {e e' : Expr}
    (hp : p'.unplaced = p.unplaced) (he : e'.unplaced = e.unplaced) (h : Along r r' s s') :
    Tracks r r' Definition.unplaced
      (if isMember then repeated (·.startsWith .comma) memberSetting s >>= fun a =>
          pure (.member (a.1.foldl MemberDefinition.apply ⟨p, e, none, 0⟩), a.2)
        else pure (.set ⟨p, e⟩, s))
      (if isMember then repeated (·.startsWith .comma) memberSetting s' >>= fun a =>
          pure (.member (a.1.foldl MemberDefinition.apply ⟨p', e', none, 0⟩), a.2)
        else pure (.set ⟨p', e'⟩, s')) := by
  split
  · refine (tracks_settings hparting hcomma h).bind fun as as' u u' has hu => tracks_ok ?_ hu
    obtain rfl : as' = as := has
    rw [unplaced_settings, unplaced_settings, hp, he]
  · refine tracks_ok ?_ h
    rw [Definition.unplaced, Definition.unplaced, hp, he]

theorem tracks_definition (h : Along r r' s s') :
    Tracks r r' Definition.unplaced (definition s) (definition s') := by
  refine tracks_next hparting h (fun l l' u u' hs hs' hl hu => ?_) fun hpeek => ?_
  · subst hs hs'
    rw [definition, definition]
    have hmember : (Lexemes.cons l' u').atKeyword "MEMBER" =
        (Lexemes.cons l u).atKeyword "MEMBER" := by
      rw [atKeyword, atKeyword, peek?, peek?, hl]
    rw [hmember]
    refine tracks_advance hparting hu ((tracks_path hparting hu).bind fun p p' v v' hp hv => ?_)
    refine tracks_keyword hparting hv fun w w' hw => ?_
    refine (tracks_definitionBody hparting hw).bind fun e e' x x' he hx => ?_
    exact tracks_defined hparting hcomma _ hp he hx
  · cases s with
    | cons l rest => cases hpeek
    | _ => exact ⟨_, rfl⟩

end

/-! ### Axes -/

/-- What is said about axes does not depend on where they stand, unless one of them is at fault. -/
theorem checkAxes_congr {count : Nat} {seen : List Nat} {placed placed' : List (Nat × AxisClause)}
    (h : placed'.map (fun p => p.2.unplaced) = placed.map fun p => p.2.unplaced)
    (hcheck : checkAxes count seen placed = .ok ()) : checkAxes count seen placed' = .ok () := by
  induction placed generalizing seen placed' with
  | nil =>
    obtain rfl := List.map_eq_nil_iff.1 h
    rfl
  | cons p placed ih =>
    cases placed' with
    | nil => cases h
    | cons p' placed' =>
      obtain ⟨hp, hplaced⟩ := List.cons.inj h
      have hclause := congrArg AxisClause.index (show p'.2.unplaced = p.2.unplaced from hp)
      have hindex : p'.2.index = p.2.index := hclause
      rw [checkAxes] at hcheck ⊢
      rw [hindex]
      split at hcheck
      · cases hcheck
      · rename_i hcount
        split at hcheck
        · cases hcheck
        · rename_i hseen
          rw [if_neg hcount, if_neg hseen]
          exact ih hplaced hcheck

theorem orderAxes_congr {placed placed' : List (Nat × AxisClause)}
    (h : placed'.map (fun p => p.2.unplaced) = placed.map fun p => p.2.unplaced) :
    (orderAxes placed').map AxisClause.unplaced = (orderAxes placed).map AxisClause.unplaced := by
  have hsort (placed : List (Nat × AxisClause)) : (orderAxes placed).map AxisClause.unplaced =
      (placed.map fun p => p.2.unplaced).mergeSort (·.index ≤ ·.index) := by
    have hmap := List.map_mergeSort (f := AxisClause.unplaced) (l := placed.map (·.2))
      (r := fun a b => a.index ≤ b.index) (s := fun a b => a.index ≤ b.index)
      fun _ _ _ _ => rfl
    rw [List.map_map] at hmap
    exact hmap
  rw [hsort, hsort, h]

section

variable (hclosing : Closing r r')

include hclosing

theorem Along.startsWith_eq (h : Along r r' s s') (x : Symbol) :
    s'.startsWith x = s.startsWith x := by
  rw [Lexemes.startsWith, Lexemes.startsWith, h.peek?_eq hclosing]

theorem Along.atKeyword_eq (h : Along r r' s s') (word : String) :
    s'.atKeyword word = s.atKeyword word := by
  rw [Lexemes.atKeyword, Lexemes.atKeyword, h.peek?_eq hclosing]

theorem tracks_drop {f f' : Lexemes → Except SyntaxError (α × Lexemes)} (h : Along r r' s s')
    (hf : ∀ u u', Along r r' u u' → Tracks r r' view (f u) (f' u')) :
    Tracks r r' view (s.advance >>= f) (s'.advance >>= f') := by
  cases h with
  | stop =>
    have hadvance {s : Lexemes} (hs : s.peek? = none) : s.advance = s.checked := by
      cases s with
      | cons l rest => cases hs
      | _ => rfl
    rw [hadvance hclosing.first, hadvance hclosing.second]
    cases hchecked : r.checked with
    | error error => exact tracks_error
    | ok u =>
      obtain ⟨rfl, hchecked'⟩ := Along.stop.checked hclosing.parting hchecked
      rw [hchecked']
      exact hf u r' .stop
  | cons htoken h => exact tracks_advance hclosing.parting h (hf _ _ h)

theorem tracks_axisNumber (what : Expectation) (h : Along r r' s s') :
    Tracks r r' id (axisNumber what s) (axisNumber what s') := by
  rw [axisNumber, axisNumber, h.peek?_eq hclosing]
  split
  · split
    · exact tracks_drop hclosing h fun u u' hu => tracks_ok rfl hu
    · exact tracks_fail
  · exact tracks_fail

theorem tracks_axisIndex (h : Along r r' s s') :
    Tracks r r' id (axisIndex s) (axisIndex s') := by
  rw [axisIndex, axisIndex, h.peek?_eq hclosing]
  split
  · split
    · exact tracks_drop hclosing h fun u u' hu => tracks_ok rfl hu
    · split
      · refine tracks_drop hclosing h fun u u' hu => ?_
        refine tracks_expect hclosing.parting hu fun v v' hv => ?_
        refine (tracks_axisNumber hclosing .axisNumber hv).bind fun n n' w w' hn hw => ?_
        exact tracks_expect hclosing.parting hw fun x x' hx => tracks_ok hn hx
      · exact tracks_fail
  · exact tracks_axisNumber hclosing .axisName h

theorem tracks_dimensionProperty (h : Along r r' s s') :
    Tracks r r' id (dimensionProperty s) (dimensionProperty s') := by
  rw [dimensionProperty_eq, dimensionProperty_eq]
  refine (tracks_path hclosing.parting h).bind fun p p' u u' hp hu => tracks_ok ?_ hu
  show p'.unplaced.propertyName = p.unplaced.propertyName
  rw [hp]

theorem tracks_names (h : Along r r' s s') {first second : String} {item : Parser String}
    (hitem : ∀ s s', Along r r' s s' → Tracks r r' id (item s) (item s')) :
    Tracks r r' id
      (if s.atKeyword first then
        s.advance >>= fun s => s.expectKeyword second >>= fun s => separated item s
      else pure ([], s))
      (if s'.atKeyword first then
        s'.advance >>= fun s => s.expectKeyword second >>= fun s => separated item s
      else pure ([], s')) := by
  rw [h.atKeyword_eq hclosing]
  split
  · refine tracks_drop hclosing h fun u u' hu => ?_
    refine tracks_keyword hclosing.parting hu fun v v' hv => ?_
    have hcomma : r'.startsWith .comma = false := by
      rw [startsWith, hclosing.second]
      rfl
    have hread := tracks_separated hclosing.parting hitem hcomma hv
    rwa [List.map_id_fun] at hread
  · exact tracks_ok rfl h

theorem tracks_dimensionProperties (h : Along r r' s s') :
    Tracks r r' id (dimensionProperties s) (dimensionProperties s') := by
  rw [dimensionProperties, dimensionProperties]
  simp only [bind_assoc]
  exact tracks_names hclosing h fun _ _ => tracks_dimensionProperty hclosing

theorem tracks_emptyMark {f f' : Lexemes → Except SyntaxError (α × Lexemes)}
    (h : Along r r' s s')
    (hf : ∀ u u', Along r r' u u' → Tracks r r' view (f u) (f' u')) :
    Tracks r r' view (emptyMark s >>= f) (emptyMark s' >>= f') := by
  rw [emptyMark, emptyMark, h.atKeyword_eq hclosing]
  split
  · rw [bind_assoc, bind_assoc]
    exact tracks_drop hclosing h fun u u' hu => tracks_keyword hclosing.parting hu hf
  · exact hf s s' h

theorem tracks_axisClause (h : Along r r' s s') :
    Tracks r r' AxisClause.unplaced (axisClause s) (axisClause s') := by
  rw [axisClause_eq, axisClause_eq, h.atKeyword_eq hclosing]
  refine tracks_emptyMark hclosing h fun u u' hu => ?_
  refine (tracks_expr hclosing.parting hu).bind fun e e' v v' he hv => ?_
  refine (tracks_dimensionProperties hclosing hv).bind fun names names' w w' hnames hw => ?_
  dsimp only
  rw [bind_assoc, bind_assoc]
  refine tracks_keyword hclosing.parting hw fun x x' hx => ?_
  refine (tracks_axisIndex hclosing hx).bind fun n n' y y' hn hy => tracks_ok ?_ hy
  obtain rfl : names' = names := hnames
  obtain rfl : n' = n := hn
  rw [AxisClause.unplaced, AxisClause.unplaced, he]

theorem tracks_placedAxis (h : Along r r' s s') :
    Tracks r r' (fun p => p.2.unplaced) (placedAxis s) (placedAxis s') :=
  (tracks_axisClause hclosing h).bind fun _ _ _ _ ha hu => tracks_ok ha hu

theorem tracks_axes (h : Along r r' s s') :
    Tracks r r' (List.map fun p => p.2.unplaced) (axes s) (axes s') := by
  rw [axes, axes, h.atKeyword_eq hclosing]
  split
  · exact tracks_ok rfl h
  · have hcomma : r'.startsWith .comma = false := by
      rw [startsWith, hclosing.second]
      rfl
    exact tracks_separated hclosing.parting (fun _ _ => tracks_placedAxis hclosing) hcomma h

/-! ### Statements -/

theorem tracks_cubeName (h : Along r r' s s') :
    Tracks r r' id (cubeName s) (cubeName s') := by
  refine (tracks_path hclosing.parting h).bind fun p p' u u' hp hu => ?_
  obtain ⟨names, position⟩ := p
  obtain ⟨names', position'⟩ := p'
  obtain rfl : names' = names := congrArg Path.segments hp
  rcases names' with _ | ⟨name, _ | ⟨next, names⟩⟩
  · exact tracks_error
  · exact tracks_ok rfl hu
  · exact tracks_error

theorem tracks_slicer (h : Along r r' s s') :
    Tracks r r' (Option.map Expr.unplaced) (slicer s) (slicer s') := by
  rw [slicer, slicer, h.atKeyword_eq hclosing]
  split
  · refine tracks_drop hclosing h fun u u' hu => ?_
    refine (tracks_expr hclosing.parting hu).bind fun e e' v v' he hv => ?_
    exact tracks_ok (congrArg some he) hv
  · exact tracks_ok rfl h

theorem tracks_cellProperty (h : Along r r' s s') :
    Tracks r r' id (cellProperty s) (cellProperty s') := by
  rw [cellProperty, cellProperty, h.peek?_eq hclosing]
  refine tracks_drop hclosing h fun u u' hu => ?_
  split
  · exact tracks_ok rfl hu
  · exact tracks_fail

theorem tracks_cellProperties (h : Along r r' s s') :
    Tracks r r' id (cellProperties s) (cellProperties s') :=
  tracks_names hclosing h fun _ _ => tracks_cellProperty hclosing

theorem tracks_end {f f' : Lexemes → Except SyntaxError (α × Lexemes)} (h : Along r r' s s')
    (hf : ∀ u u', Along r r' u u' → Tracks r r' view (f u) (f' u')) :
    Tracks r r' view ((if s.startsWith .semicolon then s.advance else pure s) >>= f)
      ((if s'.startsWith .semicolon then s'.advance else pure s') >>= f') := by
  rw [h.startsWith_eq hclosing]
  split
  · exact tracks_drop hclosing h hf
  · exact hf s s' h

/-- If the definitions are read alike, then the rest of the statement is. -/
theorem tracks_uncheckedStatement
    (h : Tracks r r' (List.map Definition.unplaced) (definitions s) (definitions s')) :
    Tracks r r' (fun p => (p.1.unplaced, p.2.map fun q => q.2.unplaced)) (uncheckedStatement s)
      (uncheckedStatement s') := by
  rw [uncheckedStatement, uncheckedStatement]
  refine h.bind fun ds ds' s₁ s₁' hds hs₁ => ?_
  refine tracks_keyword hclosing.parting hs₁ fun s₂ s₂' hs₂ => ?_
  refine (tracks_axes hclosing hs₂).bind fun placed placed' s₃ s₃' hplaced hs₃ => ?_
  refine tracks_keyword hclosing.parting hs₃ fun s₄ s₄' hs₄ => ?_
  refine (tracks_cubeName hclosing hs₄).bind fun name name' s₅ s₅' hname hs₅ => ?_
  refine (tracks_slicer hclosing hs₅).bind fun slicer? slicer?' s₆ s₆' hslicer hs₆ => ?_
  refine (tracks_cellProperties hclosing hs₆).bind fun names names' s₇ s₇' hnames hs₇ => ?_
  refine tracks_end hclosing hs₇ fun s₈ s₈' hs₈ => ?_
  rw [atEnd, atEnd, hs₈.peek?_eq hclosing]
  split
  · refine tracks_ok ?_ hs₈
    obtain rfl : name' = name := hname
    obtain rfl : names' = names := hnames
    dsimp only
    rw [Statement.unplaced, Statement.unplaced, hds, orderAxes_congr hplaced, hslicer, hplaced]
  · exact tracks_fail

theorem tracks_statement
    (h : Tracks r r' (List.map Definition.unplaced) (definitions s) (definitions s')) :
    Tracks r r' Statement.unplaced (statement s) (statement s') := by
  rw [statement_eq, statement_eq]
  refine (tracks_uncheckedStatement hclosing h).bind fun p p' u u' hp hu => ?_
  obtain ⟨st, placed⟩ := p
  obtain ⟨st', placed'⟩ := p'
  obtain ⟨hst, hplaced⟩ := Prod.mk.inj hp
  dsimp only at hst hplaced ⊢
  have hlength : placed'.length = placed.length := by
    rw [← List.length_map, hplaced, List.length_map]
  rw [hlength]
  cases hcheck : checkAxes placed.length [] placed with
  | error error => exact tracks_error
  | ok =>
    rw [checkAxes_congr hplaced hcheck]
    exact tracks_ok hst hu

end

end CubeQuery.Language
