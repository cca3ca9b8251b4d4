import CubeQuery.Number.Plain
import CubeQuery.Proofs.Number.Nearest

/-!
Decimals read back. The tests that stop far exponents change no result, so that only the value of a
decimal counts; the shortest decimal of a number therefore denotes the number, however its digits
are written.
-/

namespace CubeQuery.Number

/-! ### Only the value of a decimal counts -/

namespace Decimal

def num (d : Decimal) : Nat :=
  d.digits * 10 ^ d.scale.toNat

def den (d : Decimal) : Nat :=
  10 ^ (-d.scale).toNat

theorem den_pos (d : Decimal) : 0 < d.den :=
  Nat.pow_pos (by decide)

theorem two_pow_le_ten_pow (k : Nat) : 2 ^ (3 * k) ≤ 10 ^ k := by
  rw [Nat.pow_mul]
  exact Nat.pow_le_pow_left (by decide) k

theorem bits_eq (d : Decimal) : d.bits = nearestBits d.num d.den := by
  unfold bits
  split
  · rename_i hzero
    rw [num, hzero, Nat.zero_mul, nearestBits_zero]
  · rename_i hne
    split
    · rename_i hlarge
      have hscale : (-d.scale).toNat = 0 := by
        rw [scaleLimit] at hlarge
        omega
      rw [den, hscale, nearestBits_large (by decide)]
      rw [num, pow_zero, Nat.one_mul]
      rw [scaleLimit] at hlarge
      calc 2 ^ 1024 ≤ 2 ^ (3 * d.scale.toNat) := Nat.pow_le_pow_right (by decide) (by omega)
        _ ≤ 10 ^ d.scale.toNat := two_pow_le_ten_pow _
        _ ≤ d.digits * 10 ^ d.scale.toNat := Nat.le_mul_of_pos_left _ (Nat.pos_of_ne_zero hne)
    · split
      · rename_i hsmall
        rw [scaleLimit] at hsmall
        have hscale : d.scale.toNat = 0 := by omega
        rw [nearestBits_small d.den_pos]
        rw [num, den, hscale, pow_zero, Nat.mul_one]
        calc d.digits * 2 ^ 1076 ≤ 2 ^ (d.digits.log2 + 1) * 2 ^ 1076 :=
              Nat.mul_le_mul_right _ Nat.lt_log2_self.le
          _ = 2 ^ (d.digits.log2 + 1 + 1076) := (pow_add _ _ _).symm
          _ ≤ 2 ^ (3 * (-d.scale).toNat) := Nat.pow_le_pow_right (by decide) (by omega)
          _ ≤ 10 ^ (-d.scale).toNat := two_pow_le_ten_pow _
      · rw [num, den, Nat.pow_eq, Nat.pow_eq]

theorem bits_congr {d d' : Decimal} (h : d.num * d'.den = d'.num * d.den) : d.bits = d'.bits := by
  rw [bits_eq, bits_eq]
  exact nearestBits_congr d.den_pos d'.den_pos h

theorem bits_le (d : Decimal) : d.bits ≤ infinityBits := by
  rw [bits_eq]
  unfold nearestBits
  split
  · decide
  · exact min_le_right _ _

/-- Moving a zero from the digits to the scale. -/
theorem bits_shift (n : Nat) (scale : Int) :
    bits ⟨n, scale + 1⟩ = bits ⟨n * 10, scale⟩ := by
  apply bits_congr
  unfold num den
  dsimp only
  rcases Int.lt_or_le scale 0 with hneg | hpos
  · obtain ⟨k, hk⟩ : ∃ k : Nat, (-scale).toNat = k + 1 := ⟨(-scale).toNat - 1, by omega⟩
    have h₁ : (scale + 1).toNat = 0 := by omega
    have h₂ : scale.toNat = 0 := by omega
    have h₃ : (-(scale + 1)).toNat = k := by omega
    rw [h₁, h₂, h₃, hk, pow_succ]
    ring
  · have h₁ : (scale + 1).toNat = scale.toNat + 1 := by omega
    have h₂ : (-scale).toNat = 0 := by omega
    have h₃ : (-(scale + 1)).toNat = 0 := by omega
    rw [h₁, h₂, h₃, pow_succ]
    ring

theorem bits_strip (d : Decimal) : d.strip.bits = d.bits := by
  fun_induction strip d with
  | case1 d h ih =>
    rw [ih, bits_shift, Nat.div_mul_cancel (Nat.dvd_of_mod_eq_zero h.2)]
  | case2 d h => rfl

end Decimal

/-! ### The shortest decimal -/

namespace Magnitude

theorem bits_neighbour? {x : Magnitude} {scale : Int} {d : Decimal}
    (h : x.neighbour? scale = some d) : d.bits = x.bits := by
  unfold neighbour? at h
  dsimp only at h
  split at h
  · rename_i hlower hupper
    obtain rfl := Option.some.inj h
    split
    · exact eq_of_beq hupper
    · exact eq_of_beq hlower
  · rename_i hlower _
    obtain rfl := Option.some.inj h
    exact eq_of_beq hlower
  · rename_i _ hupper
    obtain rfl := Option.some.inj h
    exact eq_of_beq hupper
  · cases h

theorem bits_exact (x : Magnitude) : x.exact.bits = x.bits := by
  rw [Decimal.bits_eq, bits]
  apply nearestBits_congr x.exact.den_pos x.den_pos
  have hneg : (-((-x.exponent).toNat : Int)).toNat = 0 := by omega
  have hpos : (- -((-x.exponent).toNat : Int)).toNat = (-x.exponent).toNat := by omega
  rw [Decimal.num, Decimal.den, exact]
  dsimp only
  rw [hneg, hpos, den, Nat.pow_eq, Nat.pow_eq, pow_zero, Nat.mul_one, Nat.mul_assoc, ← mul_pow]
  rfl

/-- The shortest decimal denotes the number. -/
theorem bits_shortest (x : Magnitude) : x.shortest.bits = x.bits := by
  unfold shortest
  split
  · rename_i hzero
    rw [bits, num, hzero, Nat.zero_mul, nearestBits_zero]
    exact if_pos rfl
  · dsimp only
    split
    · rename_i d hfound
      obtain ⟨n, -, hn⟩ := List.exists_of_findSome?_eq_some hfound
      rw [Decimal.bits_strip, bits_neighbour? hn]
    · rw [Decimal.bits_strip, bits_exact]

end Magnitude

/-! ### Digits -/

theorem ofDigits_eq (cs : List Char) : ofDigits cs = Nat.ofDigitChars 10 cs 0 := by
  rw [Nat.ofDigitChars_eq_foldl]
  rfl

theorem ofDigits_digitsOf (n : Nat) : ofDigits (digitsOf n) = n := by
  rw [ofDigits_eq, digitsOf, Nat.ofDigitChars_ten_toDigits]

theorem ofDigits_zeros_append (n : Nat) (cs : List Char) :
    ofDigits (List.replicate n '0' ++ cs) = ofDigits cs := by
  rw [ofDigits_eq, ofDigits_eq, Nat.ofDigitChars_append, Nat.ofDigitChars_replicate_zero,
    Nat.mul_zero]

theorem ofDigits_append_zeros (n : Nat) (cs : List Char) :
    ofDigits (cs ++ List.replicate n '0') = ofDigits cs * 10 ^ n := by
  rw [ofDigits_eq, ofDigits_eq, Nat.ofDigitChars_append, Nat.ofDigitChars_replicate_zero,
    Nat.mul_comm]

theorem isDigit_of_mem_digitsOf {n : Nat} {c : Char} (h : c ∈ digitsOf n) : c.isDigit = true :=
  Nat.isDigit_of_mem_toDigits (by decide) (by decide) h

theorem isDigit_of_mem_zeros {n : Nat} {c : Char} (h : c ∈ List.replicate n '0') :
    c.isDigit = true := by
  rw [List.eq_of_mem_replicate h]
  rfl

/-- A positional text is a row of digits, then perhaps a point and a further row, and both rows
together denote the decimal. -/
theorem positional_spelled (d : Decimal) : ∃ whole places : List Char,
    d.positional.toList = whole ++ (if places = [] then [] else '.' :: places) ∧ whole ≠ [] ∧
      (∀ c ∈ whole ++ places, c.isDigit = true) ∧
      (Decimal.mk (ofDigits (whole ++ places)) (-(places.length : Int))).bits = d.bits := by
  unfold Decimal.positional
  dsimp only
  split
  · rename_i hscale
    refine ⟨digitsOf d.digits ++ List.replicate d.scale.toNat '0', [], ?_, ?_, ?_, ?_⟩
    · simp
    · simp [digitsOf, Nat.toDigits_ne_nil]
    · rw [List.append_nil]
      exact List.forall_mem_append.2
        ⟨fun c => isDigit_of_mem_digitsOf, fun c => isDigit_of_mem_zeros⟩
    · rw [List.append_nil, ofDigits_append_zeros, ofDigits_digitsOf]
      apply Decimal.bits_congr
      have hneg : (-d.scale).toNat = 0 := by omega
      simp [Decimal.num, Decimal.den, hneg]
  · rename_i hscale
    -- There are more digits than places, because zeros are put in front.
    generalize hpadded : List.replicate ((-d.scale).toNat + 1 - (digitsOf d.digits).length) '0' ++
      digitsOf d.digits = padded
    have hlength : (-d.scale).toNat < padded.length := by
      rw [← hpadded, List.length_append, List.length_replicate]
      omega
    have hplaces : (padded.drop (padded.length - (-d.scale).toNat)).length = (-d.scale).toNat := by
      rw [List.length_drop]
      omega
    have hne : padded.drop (padded.length - (-d.scale).toNat) ≠ [] := by
      intro hnil
      rw [hnil] at hplaces
      simp only [List.length_nil] at hplaces
      omega
    refine ⟨padded.take (padded.length - (-d.scale).toNat),
      padded.drop (padded.length - (-d.scale).toNat), ?_, ?_, ?_, ?_⟩
    · rw [String.toList_ofList, if_neg hne]
    · intro hnil
      have := congrArg List.length hnil
      rw [List.length_take, List.length_nil] at this
      omega
    · rw [List.take_append_drop, ← hpadded]
      exact List.forall_mem_append.2
        ⟨fun c => isDigit_of_mem_zeros, fun c => isDigit_of_mem_digitsOf⟩
    · have hsame : -(((-d.scale).toNat : Nat) : Int) = d.scale := by omega
      rw [List.take_append_drop, hplaces, hsame, ← hpadded, ofDigits_zeros_append,
        ofDigits_digitsOf]

/-! ### Numbers as text -/

/-- The text of an unsigned number is digits, perhaps with places after a point, and the decimal
that they denote reads as the number. -/
theorem shortestText_spelled {x : Float} (hx : Unsigned x) : ∃ whole places : List Char,
    (shortestText x).toList = whole ++ (if places = [] then [] else '.' :: places) ∧ whole ≠ [] ∧
      (∀ c ∈ whole ++ places, c.isDigit = true) ∧
      (Decimal.mk (ofDigits (whole ++ places)) (-(places.length : Int))).toFloat = x := by
  obtain ⟨b, hb, rfl⟩ := hx
  obtain ⟨whole, places, htext, hwhole, hdigits, hvalue⟩ :=
    positional_spelled (magnitudeOf b).shortest
  refine ⟨whole, places, ?_, hwhole, hdigits, ?_⟩
  · rw [shortestText, reading_unsigned hb, readBits_eq hb]
    exact htext
  · rw [Decimal.toFloat, hvalue, Magnitude.bits_shortest, bits_magnitudeOf hb]

theorem unsigned_toFloat {d : Decimal} (hfinite : d.toFloat.isFinite = true) :
    Unsigned d.toFloat :=
  ⟨d.bits, (isFinite_iff d.bits_le).1 hfinite, rfl⟩

theorem isFinite_unsigned {x : Float} (hx : Unsigned x) : x.isFinite = true := by
  obtain ⟨b, hb, rfl⟩ := hx
  exact (isFinite_iff hb.le).2 hb

/-! ### Whole numbers -/

/-- A whole number above zero with its digits moved up to 53 bits. -/
def wholeMagnitude (n : Nat) : Magnitude :=
  ⟨n * 2 ^ (52 - n.log2), (n.log2 : Int) - 52⟩

theorem whole?_wholeMagnitude {n : Nat} (hlog : n.log2 ≤ 52) :
    (wholeMagnitude n).whole? = some n := by
  have hpos : ((n.log2 : Int) - 52).toNat = 0 := by omega
  have hneg : (-((n.log2 : Int) - 52)).toNat = 52 - n.log2 := by omega
  have htwo : 0 < 2 ^ (52 - n.log2) := by positivity
  unfold Magnitude.whole? Magnitude.num Magnitude.den wholeMagnitude
  dsimp only
  rw [hpos, hneg, Nat.pow_eq, Nat.pow_eq, pow_zero, Nat.mul_one, Nat.mul_mod_left, if_pos rfl,
    Nat.mul_div_cancel n htwo]

theorem bits_wholeMagnitude {n : Nat} (hlog : n.log2 ≤ 52) :
    (Decimal.mk n 0).bits = (wholeMagnitude n).bits := by
  have hpos : ((n.log2 : Int) - 52).toNat = 0 := by omega
  have hneg : (-((n.log2 : Int) - 52)).toNat = 52 - n.log2 := by omega
  rw [Decimal.bits_eq, Magnitude.bits]
  apply nearestBits_congr (Decimal.den_pos _) (Magnitude.den_pos _)
  unfold Decimal.num Decimal.den Magnitude.num Magnitude.den wholeMagnitude
  dsimp only
  rw [hpos, hneg, Nat.pow_eq, Nat.pow_eq]
  simp

theorem magnitudeOf_whole {n : Nat} (hn : 0 < n) (hlog : n.log2 ≤ 52) :
    (Decimal.mk n 0).bits < infinityBits ∧
      magnitudeOf (Decimal.mk n 0).bits = wholeMagnitude n := by
  have hsplit : 2 ^ n.log2 * 2 ^ (52 - n.log2) = 2 ^ 52 := by
    rw [← pow_add, Nat.add_sub_cancel' hlog]
  have hlow : 2 ^ 52 ≤ n * 2 ^ (52 - n.log2) := by
    rw [← hsplit]
    exact Nat.mul_le_mul_right _ (Nat.log2_self_le hn.ne')
  have hhigh : n * 2 ^ (52 - n.log2) < 2 ^ 53 := by
    have hdouble : 2 ^ (n.log2 + 1) * 2 ^ (52 - n.log2) = 2 ^ 53 := by
      rw [pow_succ, Nat.mul_right_comm, hsplit]
      rfl
    rw [← hdouble]
    exact Nat.mul_lt_mul_of_pos_right Nat.lt_log2_self (by positivity)
  have hexponent : ((n.log2 : Int) - 52 + 1074).toNat = n.log2 + 1022 := by omega
  have hlimit : infinityBits = 2047 * 2 ^ 52 := rfl
  have hwidth : Nat.pow 2 52 = 2 ^ 52 := rfl
  have hbits : (wholeMagnitude n).bits = (n.log2 + 1022) * 2 ^ 52 + n * 2 ^ (52 - n.log2) := by
    rw [Magnitude.bits_eq hhigh (show (-1074 : Int) ≤ (n.log2 : Int) - 52 by omega) (.inl hlow)]
    · rw [← hexponent]
      rfl
    · show ((n.log2 : Int) - 52 + 1074).toNat * _ + n * 2 ^ (52 - n.log2) ≤ _
      rw [hexponent, hwidth]
      omega
  rw [bits_wholeMagnitude hlog, hbits]
  -- Read back, the fields of the bits are the exponent and the significand without its first bit.
  have hfield : ((n.log2 + 1022) * 2 ^ 52 + n * 2 ^ (52 - n.log2)) / 2 ^ 52 = n.log2 + 1023 := by
    omega
  have hfraction : ((n.log2 + 1022) * 2 ^ 52 + n * 2 ^ (52 - n.log2)) % 2 ^ 52 =
      n * 2 ^ (52 - n.log2) - 2 ^ 52 := by omega
  have hscale : ((n.log2 + 1023 : Nat) : Int) - 1075 = (n.log2 : Int) - 52 := by omega
  refine ⟨by omega, ?_⟩
  rw [magnitudeOf, hfield, hfraction, if_neg (by omega), wholeMagnitude,
    Nat.add_sub_cancel' hlow, hscale]

theorem unsigned_whole {n : Nat} (hn : n < 2 ^ 53) : Unsigned (Decimal.mk n 0).toFloat := by
  refine ⟨(Decimal.mk n 0).bits, ?_, rfl⟩
  by_cases hzero : n = 0
  · subst hzero
    rw [Decimal.bits, if_pos rfl]
    decide
  · have hlog : n.log2 ≤ 52 := Nat.le_of_lt_succ ((Nat.log2_lt hzero).2 hn)
    exact (magnitudeOf_whole (Nat.pos_of_ne_zero hzero) hlog).1

/-- A whole number of 53 bits is read without rounding. -/
theorem reading_whole {n : Nat} (hn : n < 2 ^ 53) : ∃ magnitude,
    reading (Decimal.mk n 0).toFloat = .finite false magnitude ∧ magnitude.whole? = some n := by
  by_cases hzero : n = 0
  · have hfinite : 0 < infinityBits := by decide
    have hbits : (Decimal.mk 0 0).bits = 0 := if_pos rfl
    have hsame : magnitudeOf 0 = ⟨0, -1074⟩ := if_pos rfl
    refine ⟨⟨0, -1074⟩, ?_, ?_⟩
    · rw [hzero, Decimal.toFloat, hbits, reading_unsigned hfinite, readBits_eq hfinite, hsame]
    · rw [hzero, Magnitude.whole?, Magnitude.num, Nat.zero_mul, Nat.zero_mod, if_pos rfl,
        Nat.zero_div]
  · have hpos := Nat.pos_of_ne_zero hzero
    have hlog : n.log2 ≤ 52 := Nat.le_of_lt_succ ((Nat.log2_lt hzero).2 hn)
    obtain ⟨hfinite, hsame⟩ := magnitudeOf_whole hpos hlog
    refine ⟨wholeMagnitude n, ?_, whole?_wholeMagnitude hlog⟩
    rw [Decimal.toFloat, reading_unsigned hfinite, readBits_eq hfinite, hsame]

theorem smallWhole?_whole {n : Nat} (hn : n < wholeLimit) :
    smallWhole? (Decimal.mk n 0).toFloat = some (false, n) := by
  obtain ⟨magnitude, hreading, hwhole⟩ := reading_whole (lt_trans hn (by decide))
  rw [smallWhole?, hreading]
  dsimp only
  rw [hwhole]
  exact if_pos hn

end CubeQuery.Number
