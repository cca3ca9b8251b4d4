import CubeQuery.Proofs.Number.ReadBack
import CubeQuery.Table.Value

/-!
The plain text of a number tells numbers apart. Digits with a point denote one number, a sign stands
only where the number is not zero, and what is infinite or no number at all is written with letters.
Two numbers with the same text are therefore the same number, up to the sign of zero, and so the
same key.
-/

namespace CubeQuery.Number

open Float.Model Float.Model.UnpackedFloat

theorem eq_of_toBits {x y : Float} (h : x.toBits = y.toBits) : x = y := by
  rw [← Float.ofBits_toBits x, h, Float.ofBits_toBits]

/-! ### Readings -/

/-- The bits of a number without its sign. -/
def unsignedBits (x : Float) : Nat :=
  x.toBits.toNat % 2 ^ 63

def negative (x : Float) : Bool :=
  x.toBits.toNat / 2 ^ 63 % 2 == 1

theorem eq_of_parts {x y : Float} (hsign : negative x = negative y)
    (hbits : unsignedBits x = unsignedBits y) : x = y := by
  apply eq_of_toBits
  apply UInt64.toNat.inj
  have hx := x.toBits.toNat_lt
  have hy := y.toBits.toNat_lt
  unfold negative at hsign
  unfold unsignedBits at hbits
  rw [Bool.eq_iff_iff, beq_iff_eq, beq_iff_eq] at hsign
  omega

/-- All that is not a number is stored as the same bits. -/
theorem toBits_of_notANumber {x : Float} (h : infinityBits < unsignedBits x) :
    x.toBits.toBitVec = packedNaN Format.binary64 := by
  have hlimit : infinityBits = 2047 * 2 ^ 52 := rfl
  unfold unsignedBits at h
  refine x.toModel.valid.eq_packedNaN ?_ ?_
  · apply BitVec.eq_of_toNat_eq
    show (@unpackExponent Format.binary64 x.toBits.toBitVec).toNat = 2047
    rw [toNat_unpackExponent]
    omega
  · intro hzero
    have hmantissa : (@unpackMantissa Format.binary64 x.toBits.toBitVec).toNat =
        x.toBits.toNat % 2 ^ 52 := by
      unfold unpackMantissa
      rw [BitVec.toNat_cast, BitVec.extractLsb_toNat, Nat.shiftRight_zero]
      rfl
    have hfraction : x.toBits.toNat % 2 ^ 52 = 0 := by
      rw [← hmantissa]
      exact congrArg BitVec.toNat hzero
    omega

theorem reading_cases (x : Float) :
    (unsignedBits x < infinityBits ∧
      reading x = .finite (negative x) (magnitudeOf (unsignedBits x))) ∨
    (unsignedBits x = infinityBits ∧ reading x = .infinite (negative x)) ∨
    (infinityBits < unsignedBits x ∧ reading x = .notANumber) := by
  have hlimit : infinityBits = 2047 * 2 ^ 52 := rfl
  have hwidth : Nat.pow 2 52 = 2 ^ 52 := rfl
  have hfield : x.toBits.toNat / Nat.pow 2 52 % Nat.pow 2 11 = unsignedBits x / 2 ^ 52 := by
    show x.toBits.toNat / 2 ^ 52 % 2 ^ 11 = _
    unfold unsignedBits
    omega
  have hfraction : x.toBits.toNat % Nat.pow 2 52 = unsignedBits x % 2 ^ 52 := by
    show x.toBits.toNat % 2 ^ 52 = _
    unfold unsignedBits
    omega
  have hsmall : unsignedBits x < 2 ^ 63 := Nat.mod_lt _ (by decide)
  have hsign : (x.toBits.toNat / Nat.pow 2 63 % 2 == 1) = negative x := rfl
  unfold reading readBits magnitudeOf
  dsimp only
  rw [hfield, hfraction, hsign, hwidth]
  rcases Nat.lt_trichotomy (unsignedBits x) infinityBits with hlt | heq | hgt
  · refine .inl ⟨hlt, ?_⟩
    rw [if_neg (by omega)]
    split <;> rfl
  · refine .inr (.inl ⟨heq, ?_⟩)
    rw [if_pos (by omega), if_pos (by omega)]
  · refine .inr (.inr ⟨hgt, ?_⟩)
    rw [if_pos (by omega), if_neg (by omega)]

/-! ### Texts that denote a number -/

/-- Digits, perhaps with places after a point, that denote the number with the bits `b`. -/
def Denotes (text : List Char) (b : Nat) : Prop :=
  ∃ whole places : List Char, text = whole ++ (if places = [] then [] else '.' :: places) ∧
    whole ≠ [] ∧ (∀ c ∈ whole ++ places, c.isDigit = true) ∧
    (Decimal.mk (ofDigits (whole ++ places)) (-(places.length : Int))).bits = b

theorem Denotes.head {text : List Char} {b : Nat} (h : Denotes text b) :
    ∃ c rest, text = c :: rest ∧ c.isDigit = true := by
  obtain ⟨whole, places, rfl, hwhole, hdigits, -⟩ := h
  obtain ⟨c, rest, rfl⟩ := List.exists_cons_of_ne_nil hwhole
  exact ⟨c, _, rfl, hdigits c (by simp)⟩

theorem Denotes.unique {text : List Char} {b b' : Nat} (h : Denotes text b)
    (h' : Denotes text b') : b = b' := by
  obtain ⟨whole, places, htext, -, hdigits, rfl⟩ := h
  obtain ⟨whole', places', htext', -, hdigits', rfl⟩ := h'
  -- The digits before the point are those up to the first character that is none.
  have hrun {w p : List Char} (hd : ∀ c ∈ w ++ p, c.isDigit = true) :
      (w ++ (if p = [] then [] else '.' :: p)).takeWhile Char.isDigit = w := by
    rw [List.takeWhile_append_of_pos fun c hc => hd c (List.mem_append_left _ hc)]
    split <;> simp
  obtain rfl : whole = whole' := by
    rw [← hrun hdigits, ← htext, htext', hrun hdigits']
  have hrest := List.append_cancel_left (htext.symm.trans htext')
  obtain rfl : places = places' := by
    split at hrest <;> split at hrest <;> simp_all
  rfl

/-- The shortest text and, where it is whole, the integer of a magnitude denote it. -/
theorem denotes_shortest {b : Nat} (hb : b < infinityBits) :
    Denotes (magnitudeOf b).shortest.positional.toList b := by
  obtain ⟨whole, places, htext, hwhole, hdigits, hvalue⟩ :=
    positional_spelled (magnitudeOf b).shortest
  exact ⟨whole, places, htext, hwhole, hdigits, by
    rw [hvalue, Magnitude.bits_shortest, bits_magnitudeOf hb]⟩

theorem bits_whole {b n : Nat} (hb : b < infinityBits) (hn : (magnitudeOf b).whole? = some n) :
    (Decimal.mk n 0).bits = b := by
  unfold Magnitude.whole? at hn
  split at hn
  · next hdvd =>
    obtain rfl := Option.some.inj hn
    refine (Decimal.bits_eq _).trans (Eq.trans ?_ (bits_magnitudeOf hb))
    refine nearestBits_congr (Decimal.den_pos _) (Magnitude.den_pos _) ?_
    simp [Decimal.num, Decimal.den, Nat.div_mul_cancel (Nat.dvd_of_mod_eq_zero hdvd)]
  · cases hn

theorem denotes_whole {b n : Nat} (hb : b < infinityBits)
    (hn : (magnitudeOf b).whole? = some n) : Denotes (digitsOf n) b := by
  refine ⟨digitsOf n, [], by simp, by simp [digitsOf, Nat.toDigits_ne_nil], ?_, ?_⟩
  · intro c hc
    exact isDigit_of_mem_digitsOf (by simpa using hc)
  · rw [List.append_nil, ofDigits_digitsOf]
    exact bits_whole hb hn

/-! ### The general text -/

theorem whole?_zero : (magnitudeOf 0).whole? = some 0 := by
  decide +kernel

/-- A sign stands before the text of a finite number if the number is below zero. -/
theorem generalText_finite {x : Float} (hx : unsignedBits x < infinityBits)
    (hreading : reading x = .finite (negative x) (magnitudeOf (unsignedBits x))) :
    ∃ text : String, generalText x = signed (negative x && unsignedBits x != 0) text ∧
      Denotes text.toList (unsignedBits x) := by
  have hshortest : shortestText x =
      signed (negative x) (magnitudeOf (unsignedBits x)).shortest.positional := by
    rw [shortestText, hreading]
  unfold generalText smallWhole?
  rw [hreading, hshortest]
  dsimp only
  cases hwhole : (magnitudeOf (unsignedBits x)).whole? with
  | none =>
    have hne : unsignedBits x ≠ 0 := by
      intro hzero
      rw [hzero, whole?_zero] at hwhole
      cases hwhole
    exact ⟨_, by rw [bne_iff_ne.2 hne, Bool.and_true], denotes_shortest hx⟩
  | some n =>
    have hzero : (unsignedBits x != 0) = (n != 0) := by
      rw [Bool.eq_iff_iff, bne_iff_ne, bne_iff_ne, not_iff_not]
      constructor
      · intro hzero
        rw [hzero, whole?_zero] at hwhole
        exact (Option.some.inj hwhole).symm
      · rintro rfl
        rw [← bits_whole hx hwhole, Decimal.bits, if_pos rfl]
    -- Zero is small, so a large whole number keeps its sign.
    by_cases hsmall : n < wholeLimit
    · refine ⟨String.ofList (digitsOf n), by simp [hsmall, hzero], ?_⟩
      rw [String.toList_ofList]
      exact denotes_whole hx hwhole
    · have hne : unsignedBits x ≠ 0 := by
        intro hnone
        rw [hnone, whole?_zero] at hwhole
        obtain rfl := Option.some.inj hwhole
        exact hsmall (by decide)
      refine ⟨_, ?_, denotes_shortest hx⟩
      rw [bne_iff_ne.2 hne, Bool.and_true]
      simp [hsmall]

/-- What stands behind the sign never begins with a sign itself. -/
theorem generalText_parts (x : Float) : ∃ (sign : Bool) (text : String) (c : Char)
    (rest : List Char), generalText x = signed sign text ∧ text.toList = c :: rest ∧ c ≠ '-' ∧
      (unsignedBits x < infinityBits ∧ sign = (negative x && unsignedBits x != 0) ∧
          c.isDigit = true ∧ Denotes text.toList (unsignedBits x) ∨
        unsignedBits x = infinityBits ∧ sign = negative x ∧ c = 'i' ∨
        infinityBits < unsignedBits x ∧ sign = false ∧ c = 'N') := by
  rcases reading_cases x with ⟨hx, hreading⟩ | ⟨hx, hreading⟩ | ⟨hx, hreading⟩
  · obtain ⟨text, htext, hdenotes⟩ := generalText_finite hx hreading
    obtain ⟨c, rest, hhead, hdigit⟩ := hdenotes.head
    refine ⟨_, text, c, rest, htext, hhead, ?_, .inl ⟨hx, rfl, hdigit, hdenotes⟩⟩
    rintro rfl
    cases hdigit
  · refine ⟨negative x, "inf", 'i', ['n', 'f'], ?_, rfl, by decide, .inr (.inl ⟨hx, rfl, rfl⟩)⟩
    simp [generalText, smallWhole?, shortestText, hreading]
  · refine ⟨false, "NaN", 'N', ['a', 'N'], ?_, rfl, by decide, .inr (.inr ⟨hx, rfl, rfl⟩)⟩
    simp [generalText, smallWhole?, shortestText, hreading, signed]

theorem signed_injective {sign sign' : Bool} {text text' : String} {c c' : Char}
    {rest rest' : List Char} (hhead : text.toList = c :: rest) (hhead' : text'.toList = c' :: rest')
    (hc : c ≠ '-') (hc' : c' ≠ '-') (h : signed sign text = signed sign' text') :
    sign = sign' ∧ text = text' := by
  have hlist := congrArg String.toList h
  cases sign <;> cases sign' <;>
    simp only [signed, Bool.false_eq_true, if_true, if_false, String.toList_append] at hlist
  · exact ⟨rfl, String.toList_inj.1 hlist⟩
  · rw [hhead] at hlist
    exact absurd (List.cons.inj hlist).1 hc
  · rw [hhead'] at hlist
    exact absurd (List.cons.inj hlist).1.symm hc'
  · exact ⟨rfl, String.toList_inj.1 (List.append_cancel_left hlist)⟩

theorem ofFloat_zero {x : Float} (hx : unsignedBits x = 0) : Key.ofFloat x = 0.0 := by
  cases hsign : negative x with
  | false =>
    obtain rfl : x = Float.ofBits 0 :=
      eq_of_parts (hsign.trans (by decide)) (hx.trans (by decide))
    decide
  | true =>
    obtain rfl : x = Float.ofBits (UInt64.ofNat (2 ^ 63)) :=
      eq_of_parts (hsign.trans (by decide)) (hx.trans (by decide))
    decide

/-- Numbers with one text are one key. -/
theorem ofFloat_eq_of_generalText {x y : Float} (h : generalText x = generalText y) :
    Key.ofFloat x = Key.ofFloat y := by
  obtain ⟨sign, text, c, rest, hx, hhead, hc, hcases⟩ := generalText_parts x
  obtain ⟨sign', text', c', rest', hy, hhead', hc', hcases'⟩ := generalText_parts y
  obtain ⟨rfl, rfl⟩ := signed_injective hhead hhead' hc hc' (hx.symm.trans (h.trans hy))
  obtain ⟨rfl, -⟩ := List.cons.inj (hhead.symm.trans hhead')
  -- The first character tells finite numbers, infinities and what is no number apart.
  rcases hcases with ⟨hx, hsign, hdigit, hdenotes⟩ | ⟨hx, hsign, hi⟩ | ⟨hx, hsign, hn⟩ <;>
    rcases hcases' with ⟨hy, hsign', hdigit', hdenotes'⟩ | ⟨hy, hsign', hi'⟩ | ⟨hy, hsign', hn'⟩
  · have hbits := hdenotes.unique hdenotes'
    by_cases hzero : unsignedBits x = 0
    · rw [ofFloat_zero hzero, ofFloat_zero (hbits ▸ hzero)]
    · refine congrArg _ (eq_of_parts ?_ hbits)
      rw [bne_iff_ne.2 hzero, Bool.and_true] at hsign
      rw [← hbits, bne_iff_ne.2 hzero, Bool.and_true] at hsign'
      exact hsign.symm.trans hsign'
  · subst hi'
    cases hdigit
  · subst hn'
    cases hdigit
  · subst hi
    cases hdigit'
  · rw [eq_of_parts (hsign.symm.trans hsign') (hx.trans hy.symm)]
  · cases hi.symm.trans hn'
  · subst hn
    cases hdigit'
  · cases hn.symm.trans hi'
  · refine congrArg _ (eq_of_toBits (UInt64.toBitVec_inj.1 ?_))
    rw [toBits_of_notANumber hx, toBits_of_notANumber hy]

end CubeQuery.Number
