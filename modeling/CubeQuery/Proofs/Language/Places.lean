import CubeQuery.Proofs.Language.Sentences
import CubeQuery.Proofs.Language.Scanning

/-!
Positions as places in the text. The position of what a sequence goes on with is the width of the
text before it, and so the lexemes of a text start one behind the other.
-/

namespace CubeQuery.Language

open Lexemes CubeQuery.Text

variable {width : Char → Nat} {position : Nat} {cs ds : List Char} {before : List Lexeme}
  {rest : Lexemes} {l : Lexeme} {c : Char} {tail : List Char} {t : Token} {length : Nat}

deriving instance DecidableEq for Lexemes

/-! ### Widths -/

theorem extent_eq (width : Char → Nat) (cs : List Char) : extent width cs = (cs.map width).sum := by
  rw [extent, List.sum_eq_foldl, List.foldl_map]

theorem extent_append : extent width (cs ++ ds) = extent width cs + extent width ds := by
  rw [extent_eq, extent_eq, extent_eq, List.map_append, List.sum_append]

theorem extent_cons (c : Char) : extent width (c :: cs) = width c + extent width cs := by
  rw [extent_eq, extent_eq, List.map_cons, List.sum_cons]

/-! ### One token at a time -/

theorem scan_nil (h : cs.drop (gapLength cs) = []) : scan width position cs =
    .finish (position + extent width (cs.take (gapLength cs))) := by
  rw [scan]
  split
  · rfl
  · rename_i hcons
    cases h.symm.trans hcons

theorem scan_cons (h : cs.drop (gapLength cs) = c :: tail)
    (htoken : tokenAt c tail = .ok (t, length)) :
    let start := position + extent width (cs.take (gapLength cs))
    let body := c :: tail.take (length - 1)
    scan width position cs = .cons ⟨t, start, String.ofList body⟩
      (scan width (start + extent width body) (tail.drop (length - 1))) := by
  intro start body
  rw [scan]
  split
  · rename_i hnil
    cases h.symm.trans hnil
  · rename_i hcons
    cases h.symm.trans hcons
    rw [htoken]

theorem scan_broken {error : TokenFault} (h : cs.drop (gapLength cs) = c :: tail)
    (htoken : tokenAt c tail = .error error) :
    let start := position + extent width (cs.take (gapLength cs))
    scan width position cs = .broken ⟨start + extent width ((c :: tail).take error.after),
      String.ofList (((c :: tail).drop error.after).take shownLength), error.fault⟩ := by
  intro start
  rw [scan]
  split
  · rename_i hnil
    cases h.symm.trans hnil
  · rename_i hcons
    cases h.symm.trans hcons
    rw [htoken]

/-- Only what stands behind the blanks and comments counts, and where it stands. -/
theorem scan_congr {position' : Nat} (hbody : cs.drop (gapLength cs) = ds.drop (gapLength ds))
    (hstart : position + extent width (cs.take (gapLength cs)) =
      position' + extent width (ds.take (gapLength ds))) :
    scan width position cs = scan width position' ds := by
  cases htail : ds.drop (gapLength ds) with
  | nil => rw [scan_nil htail, scan_nil (hbody.trans htail), hstart]
  | cons c tail =>
    cases htoken : tokenAt c tail with
    | error error =>
      rw [scan_broken htail htoken, scan_broken (hbody.trans htail) htoken, hstart]
    | ok p => rw [scan_cons htail htoken, scan_cons (hbody.trans htail) htoken, hstart]

theorem scan_blank {b : Char} (hb : isBlank b = true) :
    scan width position (b :: cs) = scan width (position + width b) cs := by
  have hgap : gapLength (b :: cs) = gapLength cs + 1 := by
    rw [gapLength_unit (by rw [gapUnit_blank hb]; exact Nat.one_ne_zero) (List.cons_ne_nil b cs),
      gapUnit_blank hb, Nat.add_comm]
    rfl
  refine scan_congr (by rw [hgap, List.drop_succ_cons]) ?_
  rw [hgap, List.take_succ_cons, extent_cons, Nat.add_assoc]

/-! ### Splitting a text -/

theorem eq_of_finish_eq_prepend (h : .finish position = prepend before rest) :
    before = [] ∧ rest = .finish position := by
  cases before with
  | nil => exact ⟨rfl, h.symm⟩
  | cons l before => cases h

theorem eq_of_broken_eq_prepend {error : SyntaxError} (h : .broken error = prepend before rest) :
    before = [] ∧ rest = .broken error := by
  cases before with
  | nil => exact ⟨rfl, h.symm⟩
  | cons l before => cases h

/-- The lexeme stands at the front of a text. -/
def Lexeme.Opens (l : Lexeme) (cs : List Char) : Prop :=
  ∃ c tail length, cs = c :: tail ∧ tokenAt c tail = .ok (l.token, length) ∧
    l.text.toList = c :: tail.take (length - 1)

/-- The text before the remainder is as wide as its position tells, and the next lexeme stands at
the front of the text that is left. -/
theorem scan_split (h : scan width position cs = prepend before rest) :
    ∃ pre post, cs = pre ++ post ∧ rest.position = position + extent width pre ∧
      ∀ l after, rest = .cons l after → l.Opens post := by
  fun_induction scan width position cs generalizing before with
  | case1 position cs gap start =>
    obtain ⟨rfl, rfl⟩ := eq_of_finish_eq_prepend h
    exact ⟨cs.take gap, cs.drop gap, (cs.take_append_drop gap).symm, rfl, nofun⟩
  | case2 position cs gap start c tail hbody shorter error htoken =>
    obtain ⟨rfl, rfl⟩ := eq_of_broken_eq_prepend h
    refine ⟨cs.take gap ++ (c :: tail).take error.after, (c :: tail).drop error.after, ?_, ?_,
      nofun⟩
    · rw [List.append_assoc, List.take_append_drop, ← hbody, List.take_append_drop]
    · rw [extent_append, ← Nat.add_assoc]
      rfl
  | case3 position cs gap start c tail hbody shorter token length htoken body =>
    rename_i ih
    cases before with
    | nil =>
      obtain rfl : _ = rest := h
      refine ⟨cs.take gap, cs.drop gap, (cs.take_append_drop gap).symm, rfl, ?_⟩
      rintro _ _ ⟨⟩
      exact ⟨c, tail, length, hbody, htoken, String.toList_ofList⟩
    | cons l before =>
      obtain ⟨rfl, htail⟩ := Lexemes.cons.inj h
      obtain ⟨pre, post, hpre, hposition, hnext⟩ := ih htail
      refine ⟨cs.take gap ++ body ++ pre, post, ?_, ?_, hnext⟩
      · rw [List.append_assoc, List.append_assoc, ← hpre, List.cons_append, List.take_append_drop,
          ← hbody, List.take_append_drop]
      · rw [hposition, extent_append, extent_append]
        omega

/-- Lexemes start before what follows them. -/
theorem scan_starts (hwidth : ∀ c, 0 < width c) (h : scan width position cs = prepend before rest)
    (hl : l ∈ before) : position ≤ l.start ∧ l.start < rest.position := by
  fun_induction scan width position cs generalizing before with
  | case1 =>
    obtain ⟨rfl, -⟩ := eq_of_finish_eq_prepend h
    cases hl
  | case2 =>
    obtain ⟨rfl, -⟩ := eq_of_broken_eq_prepend h
    cases hl
  | case3 position cs gap start c tail hbody shorter token length htoken body =>
    rename_i ih
    have hstart : position ≤ start := Nat.le_add_right _ _
    have hend : start < start + extent width body := by
      rw [extent_cons]
      have := hwidth c
      omega
    cases before with
    | nil => cases hl
    | cons first before =>
      obtain ⟨rfl, htail⟩ := Lexemes.cons.inj h
      rcases List.mem_cons.1 hl with rfl | hl
      · obtain ⟨pre, post, -, hposition, -⟩ := scan_split htail
        refine ⟨hstart, ?_⟩
        show start < rest.position
        omega
      · obtain ⟨hle, hlt⟩ := ih htail hl
        exact ⟨by omega, hlt⟩

end CubeQuery.Language
