import CubeQuery.Proofs.Language.Lockstep

/-!
Expressions in two sequences with the same tokens: what is read in the first one is read in the
second one, apart from positions.
-/

namespace CubeQuery.Language

open Lexemes

variable {α γ : Type} {r r' s s' : Lexemes} {l l' : Lexeme} {view : α → γ}
  {expr : Nat → Parser Expr}

theorem unplaced_call {f : SetFunction} {es es' : List Expr}
    (h : es'.map Expr.unplaced = es.map Expr.unplaced) :
    (Expr.call f es').unplaced = (Expr.call f es).unplaced := by
  rw [Expr.unplaced, Expr.unplaced, Expr.unplacedAll_eq, Expr.unplacedAll_eq, h]

theorem unplaced_set {es es' : List Expr} (h : es'.map Expr.unplaced = es.map Expr.unplaced) :
    (Expr.set es').unplaced = (Expr.set es).unplaced := by
  rw [Expr.unplaced, Expr.unplaced, Expr.unplacedAll_eq, Expr.unplacedAll_eq, h]

theorem unplaced_tuple {es es' : List Expr} (h : es'.map Expr.unplaced = es.map Expr.unplaced) :
    (Expr.tuple es').unplaced = (Expr.tuple es).unplaced := by
  rw [Expr.unplaced, Expr.unplaced, Expr.unplacedAll_eq, Expr.unplacedAll_eq, h]

section

variable (hparting : Parting r r')
  (hexpr : ∀ least s s', Along r r' s s' →
    Tracks r r' Expr.unplaced (expr least s) (expr least s'))

include hparting hexpr

/-- Items up to a closing symbol, which must be there. -/
theorem tracks_enclosed (close : Symbol) (hclose : close ≠ .comma)
    {f f' : List Expr × Lexemes → Lexemes → Except SyntaxError (α × Lexemes)}
    (hf : ∀ p p' u u', p'.1.map Expr.unplaced = p.1.map Expr.unplaced → Along r r' u u' →
      Tracks r r' view (f p u) (f' p' u')) (h : Along r r' s s') :
    Tracks r r' view (items (expr 0) close s >>= fun p => p.2.expect close >>= f p)
      (items (expr 0) close s' >>= fun p => p.2.expect close >>= f' p) := by
  rw [items, items, h.startsWith hparting hclose]
  split
  · exact tracks_expect hparting h (hf ([], s) ([], s') · · rfl)
  · cases hread : separated (expr 0) s with
    | error error => exact tracks_error
    | ok p =>
      obtain ⟨es, u⟩ := p
      show Tracks r r' view (u.expect close >>= f (es, u)) _
      cases hpeek : u.peek? with
      | none =>
        -- Where one side has stopped, the closing symbol is missing.
        have hstart : u.startsWith close = false := by
          rw [startsWith, hpeek]
          rfl
        rw [expect, hstart]
        exact tracks_fail
      | some t =>
        obtain ⟨es', u', hread', hes, hu⟩ := separated_tracks hparting (hexpr 0) h hread
          fun hend => by cases hpeek.symm.trans hend
        rw [hread']
        exact tracks_expect hparting hu fun v v' => hf (es, u) (es', u') v v' hes

theorem tracks_call (name : String) (position position' : Nat) (h : Along r r' s s') :
    Tracks r r' Expr.unplaced (call (expr 0) name position s)
      (call (expr 0) name position' s') := by
  rw [call, call]
  split
  · exact tracks_error
  · rename_i f hf
    refine tracks_expect hparting h fun u u' hu => ?_
    refine tracks_enclosed hparting hexpr .closeParen (by decide) (fun p p' v v' hes hv => ?_) hu
    have hlength : p'.1.length = p.1.length := by
      rw [← List.length_map, hes, List.length_map]
    rw [hlength]
    split
    · exact tracks_ok (unplaced_call hes) hv
    · exact tracks_error

theorem tracks_named (name : String) (bare : Bool) (position position' : Nat)
    (h : Along r r' s s') :
    Tracks r r' Expr.unplaced (named (expr 0) name bare position s)
      (named (expr 0) name bare position' s') := by
  rw [named, named, h.startsWith hparting (by decide), h.startsWith hparting (by decide)]
  split
  · exact tracks_call hparting hexpr name position position' h
  · split
    · exact tracks_ok rfl h
    · refine (tracks_pathTail hparting h).bind fun a a' u u' ha hu => ?_
      obtain rfl : a' = a := ha
      obtain ⟨names, property?⟩ := a'
      cases property? with
      | none => exact tracks_ok rfl hu
      | some p => exact tracks_ok rfl hu

theorem tracks_operand (h : Along r r' s s') :
    Tracks r r' Expr.unplaced (operand expr s) (operand expr s') := by
  cases hpeek : s.peek? with
  | none =>
    rw [operand, hpeek]
    exact tracks_fail
  | some t =>
    obtain ⟨l, l', u, u', rfl, rfl, hl, hl', hu⟩ := h.peek? hparting hpeek
    have hpeek' : (Lexemes.cons l' u').peek? = some t := congrArg some hl'
    rw [operand, operand, hpeek, hpeek']
    have hadvance {f f' : Lexemes → Except SyntaxError (Expr × Lexemes)}
        (hf : Tracks r r' Expr.unplaced (f u) (f' u')) :
        Tracks r r' Expr.unplaced ((Lexemes.cons l u).advance >>= f)
          ((Lexemes.cons l' u').advance >>= f') :=
      tracks_advance hparting hu hf
    cases t with
    | number x => exact hadvance (tracks_ok rfl hu)
    | text t => exact hadvance (tracks_ok rfl hu)
    | word name => exact hadvance (tracks_named hparting hexpr name true _ _ hu)
    | bracketed name => exact hadvance (tracks_named hparting hexpr name false _ _ hu)
    | quoted t => exact tracks_fail
    | symbol x =>
      cases x with
      | minus =>
        refine hadvance ((hexpr 3 u u' hu).bind fun e e' v v' he hv => ?_)
        exact tracks_ok (congrArg Expr.negate he) hv
      | openBrace =>
        exact hadvance (tracks_enclosed hparting hexpr .closeBrace (by decide)
          (fun p p' v v' hes hv => tracks_ok (unplaced_set hes) hv) hu)
      | openParen =>
        refine hadvance ?_
        rw [hu.startsWith hparting (by decide)]
        split
        · exact tracks_fail
        · refine tracks_enclosed hparting hexpr .closeParen (by decide) (fun p p' v v' hes hv => ?_)
            hu
          obtain ⟨es, _⟩ := p
          obtain ⟨es', _⟩ := p'
          dsimp only at hes ⊢
          -- Both sides read equally many items: one that is grouped, or those of a tuple.
          rcases es with _ | ⟨e, _ | ⟨next, es⟩⟩ <;> rcases es' with _ | ⟨e', _ | ⟨next', es'⟩⟩
          case cons.nil.cons.nil => exact tracks_ok (List.head_eq_of_cons_eq hes) hv
          case nil.nil | cons.cons.cons.cons => exact tracks_ok (unplaced_tuple hes) hv
          all_goals simp at hes
      | _ => exact tracks_fail

theorem tracks_chain {least : Nat} {left left' : Expr} (hleft : left'.unplaced = left.unplaced)
    (h : Along r r' s s') :
    Tracks r r' Expr.unplaced (chain expr least left s) (chain expr least left' s') := by
  induction hn : s.size using Nat.strong_induction_on generalizing s s' left left' with
  | _ n ih =>
    rw [chain, chain, h.operator? hparting]
    split
    · exact tracks_ok hleft h
    · rename_i op hop
      split
      · exact tracks_ok hleft h
      · cases h with
        | stop =>
          rw [operator?, hparting.ended] at hop
          cases hop
        | @cons l l' s s' htoken h =>
          refine tracks_advance hparting h ?_
          refine (hexpr _ s s' h).bind fun right right' u u' hright hu => ?_
          have hsize := h.size
          have hsize' := hu.size
          have hbinary : (Expr.binary op left' right').unplaced =
              (Expr.binary op left right).unplaced := by
            rw [Expr.unplaced, Expr.unplaced, hleft, hright]
          dsimp only
          -- Both sides are equally long, so either both chains go on or both end.
          rw [size, size]
          by_cases hshorter : u.size < s.size + 1
          · rw [if_pos hshorter, if_pos (by omega)]
            exact ih _ (hn ▸ hshorter) hbinary hu rfl
          · rw [if_neg hshorter, if_neg (by omega)]
            exact tracks_ok hbinary hu

end

theorem tracks_exprWithin (hparting : Parting r r') (levels least : Nat) (h : Along r r' s s') :
    Tracks r r' Expr.unplaced (exprWithin levels least s) (exprWithin levels least s') := by
  induction levels generalizing least s s' with
  | zero => exact tracks_fail
  | succ levels ih =>
    have hexpr (least : Nat) (s s' : Lexemes) (h : Along r r' s s') :
        Tracks r r' Expr.unplaced (exprWithin levels least s) (exprWithin levels least s') :=
      ih least h
    exact (tracks_operand hparting hexpr h).bind fun left left' u u' hleft hu =>
      tracks_chain hparting hexpr hleft hu

theorem tracks_expr (hparting : Parting r r') (h : Along r r' s s') :
    Tracks r r' Expr.unplaced (Language.expr s) (Language.expr s') :=
  tracks_exprWithin hparting nestingLimit 0 h

end CubeQuery.Language
