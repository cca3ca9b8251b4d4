import CubeQuery.Proofs.Language.Scanning

/-!
Texts without comments, put together. A blank behind a token ends it, whatever comes next, and so a
text with blanks around it has its own tokens wherever it stands.
-/

namespace CubeQuery.Language

open CubeQuery.Number CubeQuery.Text

variable {b c : Char} {cs ds rest : List Char} {t : Token} {ts us : List Token}

/-- The tokens of a text in which only blanks stand before, between and behind them. -/
inductive Plain : List Char → List Token → Prop
  | nil : Plain [] []
  | blank {c : Char} {cs : List Char} {ts : List Token} (hc : isBlank c = true) (h : Plain cs ts) :
      Plain (c :: cs) ts
  | token {c : Char} {rest : List Char} {t : Token} {length : Nat} {ts : List Token}
      (hgap : gapUnit (c :: rest) = 0) (htoken : tokenAt c rest = .ok (t, length))
      (h : Plain (rest.drop (length - 1)) ts) : Plain (c :: rest) (t :: ts)

/-! ### Tokens with a blank behind them -/

/-- The blanks that stand between tokens in what follows. -/
def Separates (b : Char) : Prop :=
  b = ' ' ∨ b = '\n'

theorem takeWhile_blank {p : Char → Bool} (hp : p b = false) :
    (cs ++ b :: ds).takeWhile p = cs.takeWhile p := by
  induction cs with
  | nil => simp [hp]
  | cons c cs ih => simp only [List.cons_append, List.takeWhile_cons, ih]

theorem enclosed?_blank {close : Char} (hclose : close ≠ b) {s : List Char} {n : Nat}
    (h : enclosed? close cs = some (s, n)) :
    enclosed? close (cs ++ b :: ds) = some (s, n) ∧ n ≤ cs.length := by
  fun_induction enclosed? close cs generalizing s n with
  | case1 => cases h
  -- The closing character at the end could only be doubled by what follows, and `b` is another one.
  | case2 =>
    cases h
    rw [List.singleton_append, enclosed?, if_pos rfl]
    dsimp only
    rw [if_neg (Ne.symm hclose)]
    exact ⟨rfl, Nat.le_refl 1⟩
  | case3 cs ih =>
    obtain ⟨⟨s', n'⟩, hrest, heq⟩ := Option.map_eq_some_iff.1 h
    cases heq
    obtain ⟨hsame, hle⟩ := ih hrest
    rw [List.cons_append, List.cons_append, enclosed?, if_pos rfl]
    dsimp only
    rw [if_pos rfl, hsame]
    exact ⟨rfl, Nat.add_le_add_right hle 2⟩
  | case4 d cs hd =>
    cases h
    rw [List.cons_append, List.cons_append, enclosed?, if_pos rfl]
    dsimp only
    rw [if_neg hd]
    exact ⟨rfl, Nat.le_add_left 1 _⟩
  | case5 d cs hd ih =>
    obtain ⟨⟨s', n'⟩, hrest, heq⟩ := Option.map_eq_some_iff.1 h
    cases heq
    obtain ⟨hsame, hle⟩ := ih hrest
    rw [List.cons_append]
    unfold enclosed?
    rw [if_neg hd, hsame]
    exact ⟨rfl, Nat.succ_le_succ hle⟩

theorem delimitedAt_blank {close : Char} {fault : SyntaxFault} {token : String → Token} {n : Nat}
    (hclose : close ≠ b) (h : delimitedAt close fault token cs = .ok (t, n)) :
    delimitedAt close fault token (cs ++ b :: ds) = .ok (t, n) ∧ n ≤ cs.length + 1 := by
  unfold delimitedAt at h ⊢
  split at h
  · rename_i s n hs
    cases h
    obtain ⟨hsame, hle⟩ := @enclosed?_blank b cs ds close hclose s n hs
    rw [hsame]
    exact ⟨rfl, (Nat.add_comm 1 n).trans_le (Nat.succ_le_succ hle)⟩
  · cases h

theorem Separates.not_digit (hb : Separates b) : b.isDigit = false := by
  rcases hb with rfl | rfl <;> rfl

theorem exponentAt?_blank (hb : Separates b) : exponentAt? (cs ++ b :: ds) = exponentAt? cs := by
  have hdigits (cs : List Char) :
      (cs ++ b :: ds).takeWhile Char.isDigit = cs.takeWhile Char.isDigit :=
    takeWhile_blank hb.not_digit
  cases cs with
  | nil => rcases hb with rfl | rfl <;> rfl
  | cons c cs =>
    cases cs with
    | nil => rcases hb with rfl | rfl <;> rfl
    | cons d cs =>
      rw [List.cons_append, List.cons_append, exponentAt?, exponentAt?, List.head?_cons,
        List.head?_cons, List.tail_cons, List.tail_cons, ← List.cons_append]
      dsimp only
      rw [apply_ite (List.takeWhile Char.isDigit), apply_ite (List.takeWhile Char.isDigit), hdigits,
        hdigits]

theorem exponentAt?_le {x : Int} {n : Nat} (h : exponentAt? cs = some (x, n)) : n ≤ cs.length := by
  have hdigits (cs : List Char) := (cs.takeWhile_prefix Char.isDigit).length_le
  cases cs with
  | nil =>
    cases h
    exact Nat.le_refl 0
  | cons c cs =>
    rw [exponentAt?] at h
    by_cases hmark : c = 'e' ∨ c = 'E'
    · rw [if_pos hmark] at h
      dsimp only at h
      generalize hsigned : (cs.head? == some '-' || cs.head? == some '+') = signed at h
      have hlength : (if signed = true then 1 else 0) +
          ((if signed = true then cs.tail else cs).takeWhile Char.isDigit).length ≤ cs.length := by
        cases signed with
        | false => exact (Nat.zero_add _).trans_le (hdigits cs)
        | true =>
          cases cs with
          | nil => cases hsigned
          | cons d cs => exact (Nat.add_comm 1 _).trans_le (Nat.succ_le_succ (hdigits cs))
      generalize (if signed = true then cs.tail else cs).takeWhile Char.isDigit = digits
        at h hlength
      by_cases hnone : digits = []
      · rw [if_pos hnone] at h
        cases h
      · rw [if_neg hnone] at h
        cases h
        rw [List.length_cons]
        omega
    · rw [if_neg hmark] at h
      cases h
      exact Nat.zero_le _

/-- The places behind a point that a text starts with. -/
theorem pointed_blank (hb : Separates b) {places : List Char}
    (hplaces : (if cs.head? = some '.' then cs.tail.takeWhile Char.isDigit else []) = places) :
    (if (cs ++ b :: ds).head? = some '.' then (cs ++ b :: ds).tail.takeWhile Char.isDigit
      else []) = places ∧ (if places = [] then 0 else 1 + places.length) ≤ cs.length := by
  subst hplaces
  cases cs with
  | nil =>
    have hpoint : b ≠ '.' := by rcases hb with rfl | rfl <;> decide
    exact ⟨if_neg fun h => hpoint (Option.some.inj h), Nat.le_refl 0⟩
  | cons c cs =>
    rw [List.cons_append, List.head?_cons, List.head?_cons, List.tail_cons, List.tail_cons,
      takeWhile_blank hb.not_digit]
    refine ⟨rfl, ?_⟩
    have hplaces : (if some c = some '.' then cs.takeWhile Char.isDigit else []).length ≤
        cs.length := by
      split
      · exact (cs.takeWhile_prefix Char.isDigit).length_le
      · exact Nat.zero_le _
    generalize (if some c = some '.' then cs.takeWhile Char.isDigit else []) = places
      at hplaces ⊢
    rw [List.length_cons]
    split <;> omega

theorem numberAt_blank (hb : Separates b) {n : Nat} (h : numberAt cs = .ok (t, n)) :
    numberAt (cs ++ b :: ds) = .ok (t, n) ∧ n ≤ cs.length := by
  unfold numberAt at h ⊢
  rw [takeWhile_blank hb.not_digit]
  have hwhole := (cs.takeWhile_prefix Char.isDigit).length_le
  generalize cs.takeWhile Char.isDigit = whole at h hwhole ⊢
  dsimp only at h ⊢
  rw [List.drop_append_of_le_length hwhole]
  obtain ⟨hpoint, hplaces⟩ := @pointed_blank b (cs.drop whole.length) ds hb _ rfl
  rw [hpoint]
  generalize (if (cs.drop whole.length).head? = some '.' then _ else []) = places
    at h hplaces ⊢
  have hlength : whole.length + (if places = [] then 0 else 1 + places.length) ≤ cs.length := by
    rw [List.length_drop] at hplaces
    omega
  generalize whole.length + (if places = [] then 0 else 1 + places.length) = length at h hlength ⊢
  rw [List.drop_append_of_le_length hlength, exponentAt?_blank hb]
  split at h
  · cases h
  · rename_i exponent more hexponent
    have hmore := exponentAt?_le hexponent
    rw [List.length_drop] at hmore
    split at h
    · rename_i hfinite
      cases h
      rw [if_pos hfinite]
      exact ⟨rfl, by omega⟩
    · cases h

theorem tokenAt_blank (hb : Separates b) {n : Nat} (h : tokenAt c cs = .ok (t, n)) :
    tokenAt c (cs ++ b :: ds) = .ok (t, n) ∧ n ≤ cs.length + 1 := by
  unfold tokenAt at h ⊢
  split at h
  · cases h
  · rename_i hcomment
    have hcomment : ¬(c = '/' ∧ (cs ++ b :: ds).head? = some '*') := by
      rintro ⟨rfl, hstar⟩
      cases cs with
      | nil => rcases hb with rfl | rfl <;> cases hstar
      | cons d cs => exact hcomment ⟨rfl, hstar⟩
    rw [if_neg hcomment]
    cases hsymbol : Symbol.ofChar? c with
    | some s =>
      rw [hsymbol] at h
      cases h
      exact ⟨rfl, Nat.le_add_left 1 _⟩
    | none =>
      rw [hsymbol] at h
      dsimp only at h ⊢
      have hclose (close : Char) (hclose : isBlank close = false) : close ≠ b := by
        rintro rfl
        rcases hb with rfl | rfl <;> exact absurd hclose (by decide)
      -- The kinds of tokens by their first character, in the order in which they are tried.
      by_cases hname : c = '['
      · rw [if_pos hname] at h ⊢
        exact delimitedAt_blank (hclose _ (by decide)) h
      by_cases htext : c = '"'
      · rw [if_neg hname, if_pos htext] at h ⊢
        exact delimitedAt_blank (hclose _ (by decide)) h
      by_cases hquote : c = '\''
      · rw [if_neg hname, if_neg htext, if_pos hquote] at h ⊢
        exact delimitedAt_blank (hclose _ (by decide)) h
      rw [if_neg hname, if_neg htext, if_neg hquote] at h ⊢
      by_cases hdigit : c.isDigit = true
      · rw [if_pos hdigit] at h ⊢
        exact numberAt_blank hb h
      rw [if_neg hdigit] at h ⊢
      rw [takeWhile_blank (by rcases hb with rfl | rfl <;> decide)]
      by_cases hword : isWordStart c = true
      · rw [if_pos hword] at h ⊢
        cases h
        exact ⟨rfl, Nat.succ_le_succ (cs.takeWhile_prefix isWordPart).length_le⟩
      · rw [if_neg hword] at h
        cases h

theorem gapUnit_append (hb : Separates b) (hgap : gapUnit (c :: cs) = 0) {n : Nat}
    (h : tokenAt c cs = .ok (t, n)) : gapUnit (c :: (cs ++ b :: ds)) = 0 := by
  have hblank : isBlank c = false := by
    rw [← Bool.not_eq_true]
    intro hblank
    rw [gapUnit_blank hblank] at hgap
    cases hgap
  obtain ⟨hminus, hslash, hstar⟩ : b ≠ '-' ∧ b ≠ '/' ∧ b ≠ '*' := by
    rcases hb with rfl | rfl <;> decide
  cases cs with
  -- A comment would have to begin with `c` and go on with the blank.
  | nil =>
    exact gapUnit_eq_zero hblank (fun _ h => hminus (Option.some.inj h))
      fun _ => ⟨fun h => hslash (Option.some.inj h), fun h => hstar (Option.some.inj h)⟩
  -- A comment would begin in front of the blank already.
  | cons d cs =>
    refine gapUnit_eq_zero hblank ?_ ?_
    · rintro rfl hd
      cases hd
      rw [gapUnit] at hgap
      omega
    · rintro rfl
      constructor
      · rintro ⟨⟩
        rw [gapUnit] at hgap
        omega
      · rintro ⟨⟩
        rw [tokenAt, if_pos ⟨rfl, rfl⟩] at h
        cases h

/-! ### Whole texts -/

theorem Plain.spelled (h : Plain cs ts) : Spelled cs ts := by
  induction h with
  | nil => exact spelled_nil
  | blank hc h ih => exact ih.blankBefore hc
  | token hgap htoken h ih => exact .head hgap htoken ih

/-- With a blank behind it, a text goes on with the tokens of what follows. -/
theorem Plain.append (h : Plain cs ts) (hds : Spelled (' ' :: ds) us) :
    Spelled (cs ++ ' ' :: ds) (ts ++ us) := by
  induction h with
  | nil => exact hds
  | blank hc h ih => exact ih.blankBefore hc
  | @token c rest t length ts hgap htoken h ih =>
    obtain ⟨hsame, hle⟩ := @tokenAt_blank ' ' c rest ds t (.inl rfl) length htoken
    show Spelled (c :: (rest ++ ' ' :: ds)) (t :: (ts ++ us))
    refine .head (gapUnit_append (.inl rfl) hgap htoken) hsame ?_
    rwa [List.drop_append_of_le_length (Nat.sub_le_of_le_add hle)]

end CubeQuery.Language
