import CubeQuery.Language.Printer
import CubeQuery.Language.Lexeme
import CubeQuery.Proofs.Number.ReadBack

/-!
Text and its tokens as a relation, with one rule for each kind of token that standard text is made
of. Each rule says what may stand behind the token, so that the token ends where it was meant to.
-/

namespace CubeQuery.Language

open CubeQuery.Number CubeQuery.Text

variable {c : Char} {cs rest : List Char} {ts : List Token}

/-- The sequence can be read to its end, and these are its tokens. -/
inductive Lexemes.Spells : Lexemes → List Token → Prop
  | finish (position : Nat) : Spells (.finish position) []
  | cons (l : Lexeme) {rest : Lexemes} {ts : List Token} (hrest : Spells rest ts) :
      Spells (.cons l rest) (l.token :: ts)

/-- The tokens of a text, wherever it stands in the query. -/
inductive Spelled : List Char → List Token → Prop
  | finish {cs : List Char} (hend : cs.drop (gapLength cs) = []) : Spelled cs []
  | token {cs rest : List Char} {c : Char} {t : Token} {length : Nat} {ts : List Token}
      (hbody : cs.drop (gapLength cs) = c :: rest) (htoken : tokenAt c rest = .ok (t, length))
      (hrest : Spelled (rest.drop (length - 1)) ts) : Spelled cs (t :: ts)

theorem Spelled.scan {width : Char → Nat} (h : Spelled cs ts) (position : Nat) :
    (scan width position cs).Spells ts := by
  induction h generalizing position with
  | finish hend =>
    rw [Language.scan]
    split
    · exact .finish _
    · rename_i hcons
      rw [hend] at hcons
      cases hcons
  | token hbody htoken hrest ih =>
    rw [Language.scan]
    split
    · rename_i hnil
      rw [hbody] at hnil
      cases hnil
    · rename_i hcons
      rw [hbody] at hcons
      cases hcons
      rw [htoken]
      exact .cons _ (ih _)

/-- A text has its tokens in one way only. -/
theorem Spelled.unique {us : List Token} (h : Spelled cs ts) (h' : Spelled cs us) : ts = us := by
  induction h generalizing us with
  | finish hend =>
    cases h' with
    | finish => rfl
    | token hbody =>
      rw [hend] at hbody
      cases hbody
  | token hbody htoken hrest ih =>
    cases h' with
    | finish hend =>
      rw [hbody] at hend
      cases hend
    | token hbody' htoken' hrest' =>
      obtain ⟨rfl, rfl⟩ := List.cons.inj (hbody.symm.trans hbody')
      obtain ⟨rfl, rfl⟩ := Prod.mk.inj (Except.ok.inj (htoken.symm.trans htoken'))
      rw [ih hrest']

/-! ### Between tokens -/

theorem gapLength_unit (h : gapUnit cs ≠ 0) (hne : cs ≠ []) :
    gapLength cs = gapUnit cs + gapLength (cs.drop (gapUnit cs)) := by
  rw [gapLength, dif_neg]
  rintro (hzero | hnil)
  · exact h hzero
  · exact hne hnil

theorem gapLength_zero (h : gapUnit cs = 0) : gapLength cs = 0 := by
  rw [gapLength, dif_pos (.inl h)]

theorem spelled_nil : Spelled [] [] :=
  .finish List.drop_nil

theorem gapUnit_blank (hc : isBlank c = true) : gapUnit (c :: cs) = 1 := by
  unfold gapUnit
  split
  · rename_i heq
    cases heq
    exact absurd hc (by decide)
  · rename_i heq
    cases heq
    exact absurd hc (by decide)
  · rename_i heq
    cases heq
    exact absurd hc (by decide)
  · rename_i heq
    cases heq
    exact if_pos hc
  · rename_i heq
    cases heq

/-- Blanks between tokens change nothing. -/
theorem Spelled.blankBefore (hc : isBlank c = true) (h : Spelled cs ts) : Spelled (c :: cs) ts := by
  have hunit := @gapUnit_blank c cs hc
  have hgap : (c :: cs).drop (gapLength (c :: cs)) = cs.drop (gapLength cs) := by
    rw [gapLength_unit (by rw [hunit]; decide) (by nofun), hunit, Nat.add_comm]
    rfl
  cases h with
  | finish hend => exact .finish (hgap.trans hend)
  | token hbody htoken hrest => exact .token (hgap.trans hbody) htoken hrest

theorem Spelled.blank (h : Spelled cs ts) : Spelled (' ' :: cs) ts :=
  h.blankBefore (by decide)

/-- A character that neither is blank nor begins a comment begins a token. -/
theorem gapUnit_eq_zero (hblank : isBlank c = false) (hminus : c = '-' → cs.head? ≠ some '-')
    (hslash : c = '/' → cs.head? ≠ some '/' ∧ cs.head? ≠ some '*') : gapUnit (c :: cs) = 0 := by
  unfold gapUnit
  split
  · rename_i heq
    cases heq
    exact absurd rfl (hminus rfl)
  · rename_i heq
    cases heq
    exact absurd rfl (hslash rfl).1
  · rename_i heq
    cases heq
    exact absurd rfl (hslash rfl).2
  · rename_i heq
    cases heq
    rw [hblank]
    rfl
  · rfl

theorem Spelled.head {t : Token} {length : Nat} (hgap : gapUnit (c :: rest) = 0)
    (htoken : tokenAt c rest = .ok (t, length)) (hrest : Spelled (rest.drop (length - 1)) ts) :
    Spelled (c :: rest) (t :: ts) := by
  apply Spelled.token _ htoken hrest
  rw [gapLength_zero hgap]
  rfl

/-! ### Symbols -/

theorem Spelled.symbol (s : Symbol) (hminus : s = .minus → cs.head? ≠ some '-')
    (hslash : s = .slash → cs.head? = some ' ') (h : Spelled cs ts) :
    Spelled (s.char :: cs) (.symbol s :: ts) := by
  have hchar (s' : Symbol) (hs : s.char = s'.char) : s = s' := by
    have := s.ofChar?_char
    rw [hs, s'.ofChar?_char] at this
    exact (Option.some.inj this).symm
  refine @Spelled.head _ _ _ _ 1 ?_ ?_ h
  · apply gapUnit_eq_zero
    · cases s <;> decide
    · intro hs
      exact hminus (hchar .minus hs)
    · intro hs
      rw [hslash (hchar .slash hs)]
      exact ⟨by decide, by decide⟩
  · rw [tokenAt, if_neg, s.ofChar?_char]
    rintro ⟨hs, hstar⟩
    rw [hslash (hchar .slash hs)] at hstar
    cases hstar

/-! ### Delimited tokens -/

/-- Up to the closing mark that is not doubled, the text is as it was before its marks were. -/
theorem enclosed?_doubled (mark : Char) (s : List Char) (hcs : cs.head? ≠ some mark) :
    enclosed? mark (s.flatMap (fun c => if c = mark then [c, c] else [c]) ++ mark :: cs) =
      some (s, (s.flatMap fun c => if c = mark then [c, c] else [c]).length + 1) := by
  induction s with
  | nil =>
    -- The mark that ends the text is told from a doubled one by what follows it.
    rw [List.flatMap_nil, List.nil_append]
    unfold enclosed?
    rw [if_pos rfl]
    cases cs with
    | nil => rfl
    | cons d ds =>
      have hd : d ≠ mark := fun heq => hcs (congrArg some heq)
      dsimp only
      rw [if_neg hd]
      rfl
  | cons c s ih =>
    rw [List.flatMap_cons]
    by_cases hmark : c = mark
    · rw [if_pos hmark]
      show enclosed? mark (c :: c :: (List.flatMap _ s ++ mark :: cs)) = _
      unfold enclosed?
      rw [if_pos hmark]
      dsimp only
      rw [if_pos hmark, ih]
      rfl
    · rw [if_neg hmark]
      show enclosed? mark (c :: (List.flatMap _ s ++ mark :: cs)) = _
      unfold enclosed?
      rw [if_neg hmark, ih]
      rfl

theorem delimitedAt_doubled {mark : Char} {fault : SyntaxFault} {token : String → Token}
    (s : String) (hcs : cs.head? ≠ some mark) :
    delimitedAt mark fault token (doubled mark s ++ mark :: cs) =
      .ok (token s, (doubled mark s).length + 2) := by
  rw [delimitedAt, doubled, enclosed?_doubled mark s.toList hcs]
  dsimp only
  rw [String.ofList_toList, Nat.add_comm]

theorem drop_doubled (mark : Char) (s : String) :
    (doubled mark s ++ mark :: cs).drop ((doubled mark s).length + 2 - 1) = cs := by
  show (doubled mark s ++ mark :: cs).drop ((doubled mark s).length + 1) = cs
  rw [List.drop_append, List.drop_eq_nil_of_le (Nat.le_succ _), Nat.add_sub_cancel_left]
  rfl

theorem eq_of_enclosed? {mark : Char} {s : List Char} {length : Nat}
    (h : enclosed? mark cs = some (s, length)) :
    ∃ more, cs = (s.flatMap fun c => if c = mark then [c, c] else [c]) ++ mark :: more := by
  fun_induction enclosed? mark cs generalizing s length with
  | case1 => cases h
  | case2 =>
    cases h
    exact ⟨[], rfl⟩
  | case3 cs ih =>
    obtain ⟨⟨s', n⟩, hrest, heq⟩ := Option.map_eq_some_iff.1 h
    cases heq
    obtain ⟨more, rfl⟩ := ih hrest
    refine ⟨more, ?_⟩
    rw [List.flatMap_cons, if_pos rfl]
    rfl
  | case4 d cs hd =>
    cases h
    exact ⟨d :: cs, rfl⟩
  | case5 d cs hd ih =>
    obtain ⟨⟨s', n⟩, hrest, heq⟩ := Option.map_eq_some_iff.1 h
    cases heq
    obtain ⟨more, rfl⟩ := ih hrest
    refine ⟨more, ?_⟩
    rw [List.flatMap_cons, if_neg hd]
    rfl

theorem delimitedAt_eq_ok {close : Char} {fault : SyntaxFault} {token : String → Token} {t : Token}
    {length : Nat} (h : delimitedAt close fault token cs = .ok (t, length)) :
    ∃ s more, t = token s ∧ cs = doubled close s ++ close :: more := by
  unfold delimitedAt at h
  split at h
  · rename_i s n hs
    cases h
    obtain ⟨more, rfl⟩ := eq_of_enclosed? hs
    refine ⟨String.ofList s, more, rfl, ?_⟩
    rw [doubled, String.toList_ofList]
  · cases h

/-- A mark that is followed by itself would not close. -/
theorem Spelled.delimited {mark : Char} {fault : SyntaxFault} {token : String → Token}
    {opening : Char} (s : String) (hgap : ∀ cs, gapUnit (opening :: cs) = 0)
    (htoken : ∀ cs, tokenAt opening cs = delimitedAt mark fault token cs)
    (hcs : cs.head? ≠ some mark) (h : Spelled cs ts) :
    Spelled (opening :: (doubled mark s ++ mark :: cs)) (token s :: ts) := by
  refine Spelled.head (hgap _) ((htoken _).trans (delimitedAt_doubled s hcs)) ?_
  rw [drop_doubled]
  exact h

theorem Spelled.bracketed (name : String) (hcs : cs.head? ≠ some ']') (h : Spelled cs ts) :
    Spelled ((Language.bracketed name).toList ++ cs) (.bracketed name :: ts) := by
  rw [Language.bracketed, String.toList_ofList, List.cons_append, List.cons_append,
    List.append_assoc]
  apply Spelled.delimited name _ _ hcs h
  · exact .unclosedName
  · intro cs
    exact gapUnit_eq_zero (by decide) (by nofun) (by nofun)
  · intro cs
    rw [tokenAt, if_neg (by nofun)]
    rfl

theorem Spelled.text (s : String) (hcs : cs.head? ≠ some '"') (h : Spelled cs ts) :
    Spelled ((textLiteral s).toList ++ cs) (.text s :: ts) := by
  rw [textLiteral, String.toList_ofList, List.cons_append, List.cons_append,
    List.append_assoc]
  apply Spelled.delimited s _ _ hcs h
  · exact .unclosedText
  · intro cs
    exact gapUnit_eq_zero (by decide) (by nofun) (by nofun)
  · intro cs
    rw [tokenAt, if_neg (by nofun)]
    rfl

/-! ### Words -/

/-- What stands behind an expression in standard text. -/
def Ends (cs : List Char) : Prop :=
  ∀ c ∈ cs.head?, c ∈ [' ', ',', ')', '\x7d']

theorem takeWhile_append_stop {p : Char → Bool} {run : List Char} (hrun : ∀ c ∈ run, p c = true)
    (hcs : ∀ c ∈ cs.head?, p c = false) : (run ++ cs).takeWhile p = run := by
  rw [List.takeWhile_append_of_pos hrun]
  cases cs with
  | nil => exact List.append_nil run
  | cons c cs =>
    rw [List.takeWhile_cons_of_neg, List.append_nil]
    rw [hcs c rfl]
    nofun

/-- A letter and then letters, numerals and underscores, as every keyword is written. -/
def plainWord (w : String) : Bool :=
  w.toList.head?.any Char.isAlpha && w.toList.tail.all isWordPart

theorem ascii_letters : ∀ n < 128, (Char.ofNat n).isAlpha = true →
    isBlank (Char.ofNat n) = false ∧ Symbol.ofChar? (Char.ofNat n) = none ∧
      (Char.ofNat n).isDigit = false ∧ isWordStart (Char.ofNat n) = true := by
  decide

theorem ascii_digits : ∀ n < 128, (Char.ofNat n).isDigit = true →
    isBlank (Char.ofNat n) = false ∧ Symbol.ofChar? (Char.ofNat n) = none := by
  decide

theorem toNat_of_isAlpha (hc : c.isAlpha = true) : c.toNat < 128 := by
  have hlast : c.val ≤ 90 ∨ c.val ≤ 122 := by
    rcases Bool.or_eq_true_iff.1 hc with hupper | hlower
    · exact .inl (of_decide_eq_true hupper).2
    · exact .inr (of_decide_eq_true (Bool.and_eq_true_iff.1 hlower).2)
  show c.val.toNat < 128
  rcases hlast with hlast | hlast
  · exact Nat.lt_of_le_of_lt (UInt32.le_iff_toNat_le.1 hlast) (by decide)
  · exact Nat.lt_of_le_of_lt (UInt32.le_iff_toNat_le.1 hlast) (by decide)

theorem toNat_of_isDigit (hc : c.isDigit = true) : c.toNat < 128 := by
  have hlast : c.val ≤ 57 := of_decide_eq_true (Bool.and_eq_true_iff.1 hc).2
  show c.val.toNat < 128
  exact Nat.lt_of_le_of_lt (UInt32.le_iff_toNat_le.1 hlast) (by decide)

/-- A character that is no symbol does not begin a comment either. -/
theorem gapUnit_of_not_symbol (hblank : isBlank c = false) (hsymbol : Symbol.ofChar? c = none) :
    gapUnit (c :: cs) = 0 := by
  apply gapUnit_eq_zero hblank
  · rintro rfl
    cases hsymbol
  · rintro rfl
    cases hsymbol

theorem tokenAt_word (hc : c.isAlpha = true) :
    tokenAt c cs = .ok (.word (String.ofList (c :: cs.takeWhile isWordPart)),
      (cs.takeWhile isWordPart).length + 1) := by
  obtain ⟨-, hsymbol, hdigit, hstart⟩ : _ := by
    have := ascii_letters c.toNat (toNat_of_isAlpha hc)
    rw [Char.ofNat_toNat] at this
    exact this hc
  have hne (d : Char) (hd : d.isAlpha = false) : c ≠ d := by
    rintro rfl
    rw [hc] at hd
    cases hd
  rw [tokenAt, if_neg (fun hs => hne '/' rfl hs.1), hsymbol]
  dsimp only
  rw [if_neg (hne '[' rfl), if_neg (hne '"' rfl), if_neg (hne '\'' rfl), if_neg (by simp [hdigit]),
    if_pos hstart]
  rfl

theorem Spelled.word {w : String} (hw : plainWord w = true)
    (hcs : ∀ c ∈ cs.head?, isWordPart c = false) (h : Spelled cs ts) :
    Spelled (w.toList ++ cs) (.word w :: ts) := by
  obtain ⟨hfirst, hrest⟩ := Bool.and_eq_true_iff.1 hw
  cases hlist : w.toList with
  | nil =>
    rw [hlist] at hfirst
    cases hfirst
  | cons c run =>
    rw [hlist] at hfirst hrest
    have hc : c.isAlpha = true := hfirst
    have hrun : (run ++ cs).takeWhile isWordPart = run :=
      takeWhile_append_stop (List.all_eq_true.1 hrest) hcs
    have htoken := @tokenAt_word _ (run ++ cs) hc
    rw [hrun, ← hlist, String.ofList_toList] at htoken
    refine Spelled.head ?_ htoken ?_
    · have := ascii_letters c.toNat (toNat_of_isAlpha hc)
      rw [Char.ofNat_toNat] at this
      exact gapUnit_of_not_symbol (this hc).1 (this hc).2.1
    · rw [Nat.add_sub_cancel]
      show Spelled ((run ++ cs).drop run.length) ts
      rw [List.drop_left]
      exact h

/-! ### Numbers -/

theorem exponentAt?_of_ends (hcs : Ends cs) : exponentAt? cs = some (0, 0) := by
  cases cs with
  | nil => rfl
  | cons c cs =>
    rw [exponentAt?, if_neg]
    have := hcs c rfl
    rintro (rfl | rfl)
    · revert this
      decide
    · revert this
      decide

theorem Ends.not_digit (hcs : Ends cs) : ∀ c ∈ cs.head?, c.isDigit = false := by
  intro c hc
  have := hcs c hc
  revert this
  simp
  rintro (rfl | rfl | rfl | rfl) <;> rfl

theorem numberAt_row {whole places : List Char}
    (hdigits : ∀ c ∈ whole ++ places, c.isDigit = true) (hcs : Ends cs) :
    numberAt (whole ++ (if places = [] then [] else '.' :: places) ++ cs) =
      if (Decimal.mk (ofDigits (whole ++ places)) (-(places.length : Int))).toFloat.isFinite then
        .ok (.number (Decimal.mk (ofDigits (whole ++ places)) (-(places.length : Int))).toFloat,
          (whole ++ (if places = [] then [] else '.' :: places)).length)
      else .error ⟨0, .numberTooLarge⟩ := by
  have hwhole : ∀ c ∈ whole, c.isDigit = true := fun c hc => hdigits c (List.mem_append_left _ hc)
  have hplaces : ∀ c ∈ places, c.isDigit = true := fun c hc =>
    hdigits c (List.mem_append_right _ hc)
  -- Without places there is no point, and what ends the number is not taken for one.
  by_cases hnil : places = []
  · subst hnil
    rw [if_pos rfl, List.append_nil]
    unfold numberAt
    rw [takeWhile_append_stop hwhole hcs.not_digit]
    dsimp only
    rw [List.drop_left]
    have hdot : cs.head? ≠ some '.' := by
      intro hdot
      have := hcs '.' hdot
      revert this
      decide
    rw [if_neg hdot, if_pos rfl, Nat.add_zero, List.drop_left, exponentAt?_of_ends hcs]
    dsimp only
    rw [List.append_nil, Nat.add_zero, Int.zero_sub]
  · rw [if_neg hnil, List.append_assoc, List.cons_append]
    have hrow : ∀ c ∈ ('.' :: (places ++ cs)).head?, c.isDigit = false := by
      rintro c ⟨⟩
      rfl
    unfold numberAt
    rw [takeWhile_append_stop hwhole hrow]
    dsimp only
    rw [List.drop_left, List.head?_cons, if_pos rfl, List.tail_cons,
      takeWhile_append_stop hplaces hcs.not_digit,
      if_neg hnil]
    have hlength : whole.length + (1 + places.length) = (whole ++ '.' :: places).length := by
      rw [List.length_append, List.length_cons, Nat.add_comm 1]
    have hdrop : (whole ++ '.' :: (places ++ cs)).drop (whole ++ '.' :: places).length = cs := by
      rw [← List.cons_append, ← List.append_assoc, List.drop_left]
    rw [hlength, hdrop, exponentAt?_of_ends hcs]
    dsimp only
    rw [Nat.add_zero, Int.zero_sub]

theorem Spelled.number {x : Float} {whole places : List Char} (hwhole : whole ≠ [])
    (hdigits : ∀ c ∈ whole ++ places, c.isDigit = true)
    (hx : (Decimal.mk (ofDigits (whole ++ places)) (-(places.length : Int))).toFloat = x)
    (hfinite : x.isFinite = true) (hcs : Ends cs) (h : Spelled cs ts) :
    Spelled (whole ++ (if places = [] then [] else '.' :: places) ++ cs) (.number x :: ts) := by
  have hnumber := numberAt_row hdigits hcs
  rw [hx, if_pos hfinite] at hnumber
  obtain ⟨c, run, rfl⟩ := List.exists_cons_of_ne_nil hwhole
  have hc : c.isDigit = true := hdigits c List.mem_cons_self
  obtain ⟨hblank, hsymbol⟩ : _ := by
    have := ascii_digits c.toNat (toNat_of_isDigit hc)
    rw [Char.ofNat_toNat] at this
    exact this hc
  have hne (d : Char) (hd : d.isDigit = false) : c ≠ d := by
    rintro rfl
    rw [hc] at hd
    cases hd
  generalize (if places = [] then [] else '.' :: places) = point at hnumber ⊢
  have htoken : tokenAt c (run ++ point ++ cs) = .ok (.number x, (run ++ point).length + 1) := by
    rw [tokenAt, if_neg (fun hs => hne '/' rfl hs.1), hsymbol]
    dsimp only
    rw [if_neg (hne '[' rfl), if_neg (hne '"' rfl), if_neg (hne '\'' rfl), if_pos hc]
    exact hnumber
  refine Spelled.head (gapUnit_of_not_symbol hblank hsymbol) htoken ?_
  rw [Nat.add_sub_cancel]
  show Spelled ((run ++ point ++ cs).drop (run ++ point).length) ts
  rw [List.drop_left]
  exact h

theorem numberAt_eq_ok {t : Token} {length : Nat} (h : numberAt cs = .ok (t, length)) :
    ∃ d : Decimal, t = .number d.toFloat ∧ d.toFloat.isFinite = true := by
  unfold numberAt at h
  dsimp only at h
  split at h
  · cases h
  · generalize Decimal.mk _ _ = d at h
    by_cases hfinite : d.toFloat.isFinite = true
    · rw [if_pos hfinite] at h
      cases h
      exact ⟨d, rfl, hfinite⟩
    · rw [if_neg hfinite] at h
      cases h

/-! ### Kinds of tokens -/

/-- A character opens a token up to another one, which is at fault if that never comes. -/
inductive Delimits : Char → Char → SyntaxFault → (String → Token) → Prop
  | name : Delimits '[' ']' .unclosedName .bracketed
  | text : Delimits '"' '"' .unclosedText .text
  | quote : Delimits '\'' '\'' .unclosedQuote .quoted

/-- The ways in which a token is read, or not, by the character that it starts with. -/
inductive TokenRead (c : Char) (cs : List Char) (r : Except TokenFault (Token × Nat)) : Prop
  | unclosedComment (hc : c = '/') (hcs : cs.head? = some '*')
      (h : r = .error ⟨0, .unclosedComment⟩)
  | symbol {s : Symbol} (hs : Symbol.ofChar? c = some s) (h : r = .ok (.symbol s, 1))
  | delimited {close : Char} {fault : SyntaxFault} {token : String → Token}
      (hdelimits : Delimits c close fault token) (h : delimitedAt close fault token cs = r)
  | number (hc : c.isDigit = true) (h : numberAt (c :: cs) = r)
  | word (hc : isWordStart c = true) (h : r = .ok (.word (String.ofList
      (c :: cs.takeWhile isWordPart)), (c :: cs.takeWhile isWordPart).length))
  | stray (h : r = .error ⟨0, .strayCharacter⟩)

theorem tokenAt_cases {r : Except TokenFault (Token × Nat)} (h : tokenAt c cs = r) :
    TokenRead c cs r := by
  unfold tokenAt at h
  by_cases hcomment : c = '/' ∧ cs.head? = some '*'
  · rw [if_pos hcomment] at h
    exact .unclosedComment hcomment.1 hcomment.2 h.symm
  rw [if_neg hcomment] at h
  cases hsymbol : Symbol.ofChar? c with
  | some s =>
    rw [hsymbol] at h
    exact .symbol hsymbol h.symm
  | none =>
    rw [hsymbol] at h
    dsimp only at h
    by_cases hname : c = '['
    · rw [if_pos hname] at h
      exact .delimited (hname ▸ .name) h
    by_cases htext : c = '"'
    · rw [if_neg hname, if_pos htext] at h
      exact .delimited (htext ▸ .text) h
    by_cases hquote : c = '\''
    · rw [if_neg hname, if_neg htext, if_pos hquote] at h
      exact .delimited (hquote ▸ .quote) h
    rw [if_neg hname, if_neg htext, if_neg hquote] at h
    by_cases hdigit : c.isDigit = true
    · rw [if_pos hdigit] at h
      exact .number hdigit h
    by_cases hword : isWordStart c = true
    · rw [if_neg hdigit, if_pos hword] at h
      exact .word hword h.symm
    · rw [if_neg hdigit, if_neg hword] at h
      exact .stray h.symm

end CubeQuery.Language
