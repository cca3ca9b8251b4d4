import CubeQuery.Proofs.Language.Printing
import CubeQuery.Text.Caseless
import CubeQuery.Text.Lowercase

/-!
Lower case and the comparison of names. Names that differ in the case of A to Z only have the same
lower-case form. Lower case looks at the characters around a sigma, but never past a bracket, so
that a bracketed path in lower case is the path of its segments in lower case.
-/

namespace CubeQuery.Text

open CubeQuery.Language

/-! ### A to Z -/

/-- A question about all capital letters A to Z has 26 cases. -/
theorem forall_upper {P : Char → Prop} (h : ∀ i < 26, P (Char.ofNat (65 + i))) {c : Char}
    (hc : c.isUpper = true) : P c := by
  have hc : 65 ≤ c.toNat ∧ c.toNat ≤ 90 := by
    simpa [Char.isUpper, UInt32.le_iff_toNat_le] using hc
  have hat := h (c.toNat - 65) (by omega)
  rwa [show 65 + (c.toNat - 65) = c.toNat by omega, Char.ofNat_toNat] at hat

/-- What looks at a letter in the same way in both cases does so for every character. -/
theorem toLower_invariant {α : Type} {f : Char → α}
    (h : ∀ i < 26, f (Char.ofNat (65 + i)).toLower = f (Char.ofNat (65 + i))) (c : Char) :
    f c.toLower = f c := by
  by_cases hc : c.isUpper = true
  · exact forall_upper (P := fun c => f c.toLower = f c) h hc
  · rw [Char.toLower_eq_of_not_isUpper hc]

theorem meetsCased_map_toLower (cs : List Char) :
    meetsCased (cs.map Char.toLower) = meetsCased cs := by
  induction cs with
  | nil => rfl
  | cons c cs ih =>
    have hignorable := toLower_invariant (f := isCaseIgnorable) (by decide) c
    have hcased := toLower_invariant (f := isCased) (by decide) c
    rw [meetsCased, List.map_cons, List.dropWhile_cons, hignorable, meetsCased,
      List.dropWhile_cons]
    split
    · exact ih
    · exact hcased

theorem lowerSigma_map_toLower (before after : List Char) :
    lowerSigma (before.map Char.toLower) (after.map Char.toLower) = lowerSigma before after := by
  rw [lowerSigma, meetsCased_map_toLower, meetsCased_map_toLower, lowerSigma]

theorem lowerChars_map_toLower (before cs : List Char) :
    lowerChars (before.map Char.toLower) (cs.map Char.toLower) = lowerChars before cs := by
  induction cs generalizing before with
  | nil => rfl
  | cons c cs ih =>
    have hsigma := toLower_invariant (f := fun c => decide (c = 'Σ')) (by decide) c
    have hdotted := toLower_invariant (f := fun c => decide (c = 'İ')) (by decide) c
    have hlower := toLower_invariant (f := lowerChar) (by decide) c
    rw [decide_eq_decide] at hsigma hdotted
    have ih := ih (c :: before)
    rw [List.map_cons] at ih
    simp only [List.map_cons, lowerChars, ih, hsigma, hdotted, hlower, lowerSigma_map_toLower]

theorem lowercase_caseless (s : String) : lowercase (caseless s) = lowercase s := by
  have hchars := lowerChars_map_toLower [] s.toList
  rw [lowercase, caseless, String.toList_ofList]
  exact congrArg String.ofList hchars

/-- Names that are compared as equal are equal in lower case; the converse fails beyond A to Z. -/
theorem lowercase_eq_of_sameName {a b : String} (h : sameName a b = true) :
    lowercase a = lowercase b := by
  rw [← lowercase_caseless a, sameName_iff.1 h, lowercase_caseless]

/-! ### Brackets -/

/-- A character at which the search for cased characters ends without one, and which lower case
leaves as it is. -/
structure Barrier (c : Char) : Prop where
  notIgnorable : isCaseIgnorable c = false
  notCased : isCased c = false
  image : ∀ before rest, lowerChars before (c :: rest) = c :: lowerChars (c :: before) rest

theorem barrier_of_decide {c : Char} (hignorable : isCaseIgnorable c = false)
    (hcased : isCased c = false) (hsigma : c ≠ 'Σ') (hdotted : c ≠ 'İ') (hlower : lowerChar c = c) :
    Barrier c := by
  refine ⟨hignorable, hcased, fun before rest => ?_⟩
  rw [lowerChars]
  simp only [if_neg hsigma, if_neg hdotted, hlower]
  rfl

theorem barrier_open : Barrier '[' :=
  barrier_of_decide (by decide) (by decide) (by decide) (by decide)
    (by decide)

theorem barrier_close : Barrier ']' :=
  barrier_of_decide (by decide) (by decide) (by decide) (by decide)
    (by decide)

variable {b : Char}

theorem Barrier.meetsCased_append (hb : Barrier b) (cs rest : List Char) :
    meetsCased (cs ++ b :: rest) = meetsCased cs := by
  induction cs with
  | nil => simp [meetsCased, hb.notIgnorable, hb.notCased]
  | cons c cs ih =>
    rw [meetsCased, List.cons_append, List.dropWhile_cons, meetsCased, List.dropWhile_cons]
    split
    · exact ih
    · rfl

theorem Barrier.lowerChars_before (hb : Barrier b) (near far cs : List Char) :
    lowerChars (near ++ b :: far) cs = lowerChars near cs := by
  induction cs generalizing near with
  | nil => rfl
  | cons c cs ih =>
    have ih := ih (c :: near)
    rw [List.cons_append] at ih
    rw [lowerChars, lowerChars, lowerSigma, lowerSigma, hb.meetsCased_append, ih]

/-- Lower case works on both sides of a barrier apart. -/
theorem Barrier.lowerChars_append (hb : Barrier b) (before cs rest : List Char) :
    lowerChars before (cs ++ b :: rest) = lowerChars before cs ++ b :: lowerChars [] rest := by
  induction cs generalizing before with
  | nil =>
    have hbefore := hb.lowerChars_before [] before rest
    rw [List.nil_append, hb.image, ← hbefore]
    rfl
  | cons c cs ih =>
    rw [List.cons_append, lowerChars, lowerChars, ih, lowerSigma, hb.meetsCased_append, lowerSigma,
      List.append_assoc]

/-- No character becomes a closing bracket. -/
theorem lowerChar_ne_close {c : Char} (hc : c ≠ ']') : lowerChar c ≠ ']' := by
  have hshifts : ∀ s ∈ caseShifts, ¬ ((s.first : Int) ≤ 93 - s.shift ∧ 93 - s.shift ≤ s.last) := by
    decide +kernel
  rw [lowerChar]
  split
  · rename_i s hs
    split
    · rename_i hin
      have hlast : c.toNat ≤ s.last := by simpa using List.find?_some hs
      intro hclose
      have hvalue : (c.toNat + s.shift).toNat = 93 := by
        have hval := congrArg Char.toNat hclose
        rw [Char.toNat_ofNat] at hval
        split at hval
        · exact hval
        · cases hval
      refine hshifts s (List.mem_of_find?_eq_some hs) ?_
      omega
    · exact hc
  · exact hc

theorem doubled_cons (mark c : Char) (cs : List Char) : doubled mark (String.ofList (c :: cs)) =
    (if c = mark then [c, c] else [c]) ++ doubled mark (String.ofList cs) := by
  simp [doubled]

theorem doubled_append_of_not_mem {mark : Char} {cs : List Char} (hcs : mark ∉ cs)
    (rest : List Char) : doubled mark (String.ofList (cs ++ rest)) =
      cs ++ doubled mark (String.ofList rest) := by
  induction cs with
  | nil => rfl
  | cons c cs ih =>
    rw [List.mem_cons, not_or] at hcs
    rw [List.cons_append, doubled_cons, if_neg (Ne.symm hcs.1), ih hcs.2]
    rfl

/-- Doubled brackets still keep the two sides of a sigma apart. -/
theorem meetsCased_doubled (cs : List Char) :
    meetsCased (doubled ']' (String.ofList cs)) = meetsCased cs := by
  induction cs with
  | nil => rfl
  | cons c cs ih =>
    rw [doubled_cons]
    split
    · rename_i hc
      subst hc
      exact (barrier_close.meetsCased_append [] _).trans
        (barrier_close.meetsCased_append [] _).symm
    · rw [List.singleton_append, meetsCased, List.dropWhile_cons, meetsCased, List.dropWhile_cons]
      split
      · exact ih
      · rfl

theorem lowerChars_doubled (before cs : List Char) :
    lowerChars before (doubled ']' (String.ofList cs)) =
      doubled ']' (String.ofList (lowerChars before cs)) := by
  induction cs generalizing before with
  | nil => rfl
  | cons c cs ih =>
    rw [doubled_cons]
    by_cases hc : c = ']'
    · subst hc
      have hsplit (before rest : List Char) :
          lowerChars before (']' :: rest) = ']' :: lowerChars [] rest :=
        barrier_close.lowerChars_append before [] rest
      rw [if_pos rfl, List.cons_append, List.singleton_append, hsplit, hsplit, ih, hsplit,
        doubled_cons, if_pos rfl]
      rfl
    · rw [if_neg hc, List.singleton_append, lowerChars, lowerChars, doubled_append_of_not_mem, ih,
        lowerSigma, meetsCased_doubled, lowerSigma]
      split
      · rw [lowerSigma]
        split <;> decide
      · split
        · decide
        · rw [List.mem_singleton]
          exact (lowerChar_ne_close hc).symm

theorem toList_bracketed (name : String) :
    (bracketed name).toList = '[' :: (doubled ']' name ++ [']']) := by
  rw [bracketed, String.toList_ofList]
  rfl

/-- Lower case of text that starts with a name between brackets. -/
theorem lowerChars_bracketed (before : List Char) (name : String) (rest : List Char) :
    lowerChars before ((bracketed name).toList ++ rest) =
      (bracketed (lowercase name)).toList ++ lowerChars [] rest := by
  have hopen := barrier_open.lowerChars_append before [] (doubled ']' name ++ ']' :: rest)
  have hclose := barrier_close.lowerChars_append [] (doubled ']' name) rest
  have hdoubled := lowerChars_doubled [] name.toList
  rw [String.ofList_toList] at hdoubled
  rw [hclose, hdoubled] at hopen
  rw [toList_bracketed, toList_bracketed]
  simpa [lowercase, lowerChars] using hopen

theorem lowerChars_bracketedPath (before : List Char) (names : List String) :
    lowerChars before (bracketedPath names).toList =
      (bracketedPath (names.map lowercase)).toList := by
  induction names generalizing before with
  | nil => rfl
  | cons name names ih =>
    cases names with
    | nil =>
      have hname := lowerChars_bracketed before name []
      rw [List.append_nil] at hname
      rw [List.map_singleton, bracketedPath, bracketedPath, List.map_singleton, List.map_singleton,
        String.intercalate_singleton, String.intercalate_singleton, hname]
      exact List.append_nil _
    | cons next names =>
      have hdot (rest : List Char) :
          lowerChars [] ('.' :: rest) = '.' :: lowerChars ['.'] rest := by
        rw [lowerChars, if_neg (by decide), if_neg (by decide)]
        rfl
      have hpath (first second : String) (others : List String) :
          (bracketedPath (first :: second :: others)).toList = (bracketed first).toList ++
            '.' :: (bracketedPath (second :: others)).toList := by
        simp [bracketedPath, String.intercalate_cons_cons]
      rw [hpath, lowerChars_bracketed, hdot, ih, List.map_cons, List.map_cons, List.map_cons, hpath]

/-- The path of some names in lower case is that of the names in lower case. -/
theorem lowercase_bracketedPath (names : List String) :
    lowercase (bracketedPath names) = bracketedPath (names.map lowercase) := by
  rw [lowercase, lowerChars_bracketedPath, String.ofList_toList]

/-- Paths agree in lower case if they do so name by name. -/
theorem lowercase_bracketedPath_inj {names names' : List String} (hnames : names ≠ [])
    (hnames' : names' ≠ []) : lowercase (bracketedPath names) = lowercase (bracketedPath names') ↔
      names.map lowercase = names'.map lowercase := by
  rw [lowercase_bracketedPath, lowercase_bracketedPath]
  exact ⟨bracketedPath_injective (by simpa) (by simpa), congrArg _⟩

end CubeQuery.Text
