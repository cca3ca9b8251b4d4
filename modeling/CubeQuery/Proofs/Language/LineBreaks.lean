import CubeQuery.Proofs.Language.Joining
import CubeQuery.Proofs.Language.StatementLockstep

/-!
A line break behind a text that can be read. It ends the last token, and a comment that goes on to
the end of its line too, so that the text keeps its tokens whatever comes next.
-/

namespace CubeQuery.Language

open Lexemes CubeQuery.Text

variable {cs ds : List Char} {width width' : Char → Nat} {position position' : Nat}

theorem separates_newline : Separates '\n' :=
  .inr rfl

/-! ### Blanks and comments -/

theorem commentEnd?_append {n : Nat} (h : commentEnd? cs = some n) (ds : List Char) :
    commentEnd? (cs ++ ds) = some n ∧ n ≤ cs.length := by
  fun_induction commentEnd? cs generalizing n with
  | case1 => cases h
  | case2 c cs hclose =>
    cases h
    obtain ⟨tail, rfl⟩ := List.head?_eq_some_iff.1 hclose.2
    rw [List.cons_append, List.cons_append, commentEnd?, if_pos ⟨hclose.1, rfl⟩]
    exact ⟨rfl, Nat.le_add_left 2 _⟩
  | case3 c cs hopen ih =>
    obtain ⟨m, hm, rfl⟩ := Option.map_eq_some_iff.1 h
    obtain ⟨hsame, hle⟩ := ih hm
    have hstill : ¬(c = '*' ∧ (cs ++ ds).head? = some '/') := by
      rintro ⟨hc, hslash⟩
      cases cs with
      | nil => cases hm
      | cons d cs => exact hopen ⟨hc, hslash⟩
    rw [List.cons_append, commentEnd?, if_neg hstill, hsame]
    exact ⟨rfl, Nat.succ_le_succ hle⟩

/-- What stands between tokens keeps its length. -/
theorem gapUnit_newline (h : gapUnit cs ≠ 0) :
    gapUnit (cs ++ '\n' :: ds) = gapUnit cs ∧ gapUnit cs ≤ cs.length := by
  have hline (cs : List Char) : ((cs ++ '\n' :: ds).takeWhile (· ≠ '\n')).length =
      (cs.takeWhile (· ≠ '\n')).length ∧ (cs.takeWhile (· ≠ '\n')).length ≤ cs.length := by
    rw [takeWhile_blank (by decide)]
    exact ⟨rfl, (cs.takeWhile_prefix _).length_le⟩
  revert h
  fun_cases gapUnit cs with
  | case1 cs =>
    intro _
    obtain ⟨hsame, hle⟩ := hline cs
    refine ⟨congrArg (2 + ·) hsame, ?_⟩
    rw [List.length_cons, List.length_cons]
    omega
  | case2 cs =>
    intro _
    obtain ⟨hsame, hle⟩ := hline cs
    refine ⟨congrArg (2 + ·) hsame, ?_⟩
    rw [List.length_cons, List.length_cons]
    omega
  | case3 cs =>
    intro h
    cases hend : commentEnd? cs with
    | none =>
      rw [hend] at h
      exact absurd rfl h
    | some n =>
      obtain ⟨hsame, hle⟩ := commentEnd?_append hend ('\n' :: ds)
      refine ⟨congrArg (fun o => (Option.map (2 + ·) o).getD 0) hsame, ?_⟩
      show 2 + n ≤ cs.length + 2
      omega
  | case4 c cs hminus hslash hstar hblank =>
    exact fun _ => ⟨gapUnit_blank hblank, Nat.le_add_left 1 _⟩
  | case5 => exact fun h => absurd rfl h
  | case6 => exact fun h => absurd rfl h

/-- Where nothing but blanks and comments stands, the line break goes on with them. -/
theorem gapLength_newline_nil (h : cs.drop (gapLength cs) = []) :
    gapLength (cs ++ '\n' :: ds) = cs.length + gapLength ('\n' :: ds) := by
  fun_induction gapLength cs with
  | case1 cs hgap =>
    obtain rfl : cs = [] := h
    exact (Nat.zero_add _).symm
  | case2 cs hgap shorter ih =>
    obtain ⟨hunit, hne⟩ := not_or.1 hgap
    obtain ⟨hsame, hle⟩ := @gapUnit_newline cs ds hunit
    rw [gapLength_unit (hsame ▸ hunit) (by simp), hsame, List.drop_append_of_le_length hle,
      ih (by rwa [List.drop_drop]), List.length_drop]
    omega

theorem gapLength_newline_cons {c : Char} {tail : List Char} {t : Token} {length : Nat}
    (h : cs.drop (gapLength cs) = c :: tail) (htoken : tokenAt c tail = .ok (t, length)) :
    gapLength (cs ++ '\n' :: ds) = gapLength cs := by
  fun_induction gapLength cs with
  | case1 cs hgap =>
    obtain rfl : cs = c :: tail := h
    have hunit : gapUnit (c :: tail) = 0 := hgap.resolve_right (List.cons_ne_nil c tail)
    exact gapLength_zero (gapUnit_append separates_newline hunit htoken)
  | case2 cs hgap shorter ih =>
    obtain ⟨hunit, hne⟩ := not_or.1 hgap
    obtain ⟨hsame, hle⟩ := @gapUnit_newline cs ds hunit
    rw [gapLength_unit (hsame ▸ hunit) (by simp), hsame, List.drop_append_of_le_length hle,
      ih (by rwa [List.drop_drop])]

/-! ### Tokens -/

/-- A text that can be read keeps its tokens in front of a line break, and what comes next starts
with the line break. -/
theorem along_newline {ls : List Lexeme} {last : Nat}
    (h : scan width position cs = prepend ls (.finish last)) :
    ∃ start, Along (.finish last) (scan width' start ('\n' :: ds)) (scan width position cs)
      (scan width' position' (cs ++ '\n' :: ds)) := by
  induction hn : cs.length using Nat.strong_induction_on
    generalizing cs ls position position' with
  | _ n ih =>
    cases hbody : cs.drop (gapLength cs) with
    | nil =>
      -- Nothing but a gap is left in front of the line break.
      have hgap := @gapLength_newline_nil cs ds hbody
      have hnewline : scan width' position' (cs ++ '\n' :: ds) =
          scan width' (position' + extent width' cs) ('\n' :: ds) := by
        apply scan_congr
        · rw [hgap, List.drop_length_add_append]
        · rw [hgap, List.take_length_add_append, extent_append, Nat.add_assoc]
      rw [scan_nil hbody] at h ⊢
      obtain ⟨-, hlast⟩ := eq_of_finish_eq_prepend h
      rw [hnewline, ← hlast]
      exact ⟨_, .stop⟩
    | cons c tail =>
      cases htoken : tokenAt c tail with
      | error error =>
        rw [scan_broken hbody htoken] at h
        obtain ⟨-, hlast⟩ := eq_of_broken_eq_prepend h
        cases hlast
      | ok p =>
        -- The next token is not changed by what follows the text, and a shorter text is left.
        obtain ⟨t, length⟩ := p
        obtain ⟨hsame, hle⟩ := @tokenAt_blank '\n' c tail ds t separates_newline length htoken
        have hgap := @gapLength_newline_cons cs ds c tail t length hbody htoken
        have hlong : gapLength cs ≤ cs.length := by
          by_contra hlong
          rw [List.drop_eq_nil_of_le (Nat.le_of_not_le hlong)] at hbody
          cases hbody
        have hbody' : (cs ++ '\n' :: ds).drop (gapLength (cs ++ '\n' :: ds)) =
            c :: (tail ++ '\n' :: ds) := by
          rw [hgap, List.drop_append_of_le_length hlong, hbody, List.cons_append]
        have hshorter : (tail.drop (length - 1)).length < n := by
          have := congrArg List.length hbody
          rw [List.length_drop, List.length_cons] at this
          rw [List.length_drop]
          omega
        rw [scan_cons hbody htoken] at h ⊢
        rw [scan_cons hbody' hsame, List.drop_append_of_le_length (Nat.sub_le_of_le_add hle)]
        cases ls with
        | nil => cases h
        | cons l ls =>
          obtain ⟨-, htail⟩ := Lexemes.cons.inj h
          obtain ⟨start, hrest⟩ := ih _ hshorter htail rfl
          exact ⟨start, .cons rfl hrest⟩

end CubeQuery.Language
