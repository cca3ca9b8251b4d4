import CubeQuery.Table.RowSet
import Mathlib.Data.List.Induction
import Mathlib.Data.List.Perm.Basic
import Mathlib.Data.Nat.Bitwise

/-!
Sets of rows as lists. The words of a row set, read bit by bit, list the selected rows; the
operations on words are then union and intersection, and the count is the length of the list.
-/

namespace CubeQuery

namespace RowSet

/-- Whether the bit of a row is set. -/
def hasBit (words : Array UInt64) (row : Nat) : Bool :=
  bit (words.getD (row / 64) 0) (row % 64)

/-- The bits beyond the bound are clear, and the count is that of the bits. -/
structure Sound (s : RowSet) : Prop where
  size : s.words.size = wordCount s.length
  bounded : ∀ row, hasBit s.words row = true → row < s.length
  count : s.count = total s.words

/-! ### Bits of words -/

section Bits

variable {v w : UInt64} {i j : Nat}

@[simp] theorem bit_zero : bit 0 i = false := by
  simp [bit]

@[simp] theorem bit_and : bit (v &&& w) i = (bit v i && bit w i) := by
  simp [bit]

@[simp] theorem bit_or : bit (v ||| w) i = (bit v i || bit w i) := by
  simp [bit]

theorem bit_beyond (hi : 64 ≤ i) : bit w i = false :=
  Nat.testBit_lt_two_pow
    (Nat.lt_of_lt_of_le w.toNat_lt (Nat.pow_le_pow_right (by decide) hi))

theorem bit_ones (hi : i < 64) : bit (-1) i = true := by
  have hvalue : (-1 : UInt64).toNat = 2 ^ 64 - 1 := by decide
  rw [bit, hvalue, Nat.testBit_two_pow_sub_one]
  simpa using hi

theorem toNat_shift (hj : j < 64) : ((1 : UInt64) <<< UInt64.ofNat j).toNat = 2 ^ j := by
  have hpow : 2 ^ j < 2 ^ 64 := Nat.pow_lt_pow_right (by decide) hj
  have hsmall : j % 2 ^ 64 = j := Nat.mod_eq_of_lt (by omega)
  simp only [UInt64.toNat_shiftLeft, UInt64.toNat_ofNat', hsmall, Nat.mod_eq_of_lt hj,
    UInt64.toNat_one, Nat.shiftLeft_eq, Nat.one_mul]
  exact Nat.mod_eq_of_lt hpow

theorem bit_shift (hj : j < 64) : bit (1 <<< UInt64.ofNat j) i = decide (j = i) := by
  rw [bit, toNat_shift hj, Nat.testBit_two_pow]

theorem bit_tailMask {length : Nat} (hi : i < 64) :
    bit (tailMask length) i = decide (length % 64 = 0 ∨ i < length % 64) := by
  unfold tailMask
  split
  · next hzero => simp [bit_ones hi, hzero]
  · next hne =>
    have hmod : length % 64 < 64 := Nat.mod_lt _ (by decide)
    have hpos : 1 ≤ 2 ^ (length % 64) := Nat.one_le_two_pow
    have hle : (1 : UInt64) ≤ 1 <<< UInt64.ofNat (length % 64) := by
      rw [UInt64.le_iff_toNat_le, toNat_shift hmod]
      exact hpos
    rw [bit, UInt64.toNat_sub_of_le _ _ hle, toNat_shift hmod]
    simp [hne]

theorem lowest_lt (hw : w ≠ 0) : lowest w < 64 := by
  have hexists : ∃ i < 64, bit w i = true := by
    obtain ⟨i, hi⟩ := Nat.exists_testBit_of_ne_zero fun hzero => hw (UInt64.toNat_inj.1 hzero)
    exact ⟨i, Nat.lt_of_not_le fun hle => Bool.false_ne_true ((bit_beyond hle).symm.trans hi), hi⟩
  obtain ⟨i, hi, hset⟩ := hexists
  have hfound := List.findIdx_lt_length_of_exists ⟨i, List.mem_range.2 hi, hset⟩
  rwa [List.length_range] at hfound

/-- The word as a number: its lowest set bit, and a multiple of all that lies above it. -/
theorem exists_lowest (hw : w ≠ 0) :
    ∃ q, w.toNat = 2 ^ (lowest w + 1) * q + 2 ^ lowest w := by
  have hset : w.toNat.testBit (lowest w) = true := by
    have hfound : (List.range 64).findIdx (bit w) < (List.range 64).length := by
      rw [List.length_range]
      exact lowest_lt hw
    have hget : bit w (List.range 64)[(List.range 64).findIdx (bit w)] = true :=
      List.findIdx_getElem
    rwa [List.getElem_range] at hget
  have hbelow : w.toNat % 2 ^ lowest w = 0 := by
    refine Nat.eq_of_testBit_eq fun i => ?_
    rw [Nat.testBit_mod_two_pow, Nat.zero_testBit, Bool.and_eq_false_imp]
    intro hi
    have hclear := List.not_of_lt_findIdx (of_decide_eq_true hi)
    rwa [List.getElem_range] at hclear
  rw [Nat.testBit_eq_decide_div_mod_eq, decide_eq_true_iff] at hset
  refine ⟨w.toNat / 2 ^ lowest w / 2, ?_⟩
  calc w.toNat
    _ = 2 ^ lowest w * (w.toNat / 2 ^ lowest w) :=
      (Nat.mul_div_cancel' (Nat.dvd_of_mod_eq_zero hbelow)).symm
    _ = 2 ^ lowest w * (2 * (w.toNat / 2 ^ lowest w / 2) + 1) := by
      congr 1
      omega
    _ = 2 ^ (lowest w + 1) * (w.toNat / 2 ^ lowest w / 2) + 2 ^ lowest w := by
      rw [Nat.pow_succ, Nat.mul_add, Nat.mul_one, Nat.mul_assoc]

/-- Below its lowest set bit a word is clear, and taking that bit off changes no other. -/
theorem bit_lowest (hw : w ≠ 0) : bit w i = (decide (i = lowest w) || bit (clearLowest w) i) ∧
    (i ≤ lowest w → bit (clearLowest w) i = false) := by
  obtain ⟨q, hq⟩ := exists_lowest hw
  have hpos : 1 ≤ 2 ^ lowest w := Nat.one_le_two_pow
  have hpow : 2 ^ lowest w < 2 ^ (lowest w + 1) := Nat.pow_lt_pow_right (by decide) (by omega)
  have hle : (1 : UInt64) ≤ w := by
    rw [UInt64.le_iff_toNat_le, UInt64.toNat_one, hq]
    omega
  have hless : (w - 1).toNat = 2 ^ (lowest w + 1) * q + (2 ^ lowest w - 1) := by
    rw [UInt64.toNat_sub_of_le _ _ hle, UInt64.toNat_one, hq]
    omega
  have hbit : bit w i = if i < lowest w + 1 then decide (lowest w = i) else
      q.testBit (i - (lowest w + 1)) := by
    rw [bit, hq, Nat.testBit_two_pow_mul_add _ hpow, Nat.testBit_two_pow]
  have hbit' : bit (w - 1) i = if i < lowest w + 1 then decide (i < lowest w) else
      q.testBit (i - (lowest w + 1)) := by
    rw [bit, hless, Nat.testBit_two_pow_mul_add _ (by omega), Nat.testBit_two_pow_sub_one]
  rw [clearLowest, bit_and, hbit, hbit']
  by_cases hi : i < lowest w + 1
  · simp only [if_pos hi]
    grind
  · simp only [if_neg hi]
    grind

/-- The lowest set bit is taken off as often as there are bits, and each time it is the next one. -/
theorem positions_eq (w : UInt64) : positions w = (List.range 64).filter (bit w) := by
  fun_induction positions w with
  | case1 => simp
  | case2 w hw ih =>
    have hlt := lowest_lt hw
    obtain ⟨r, hr⟩ : ∃ r, 64 = lowest w + (r + 1) := ⟨63 - lowest w, by omega⟩
    have hsplit : List.range 64 =
        List.range (lowest w) ++ lowest w :: (List.range r).map (lowest w + 1 + ·) := by
      rw [hr, List.range_add, List.range_succ_eq_map, List.map_cons, List.map_map]
      simp [Function.comp_def, Nat.add_assoc, Nat.add_comm 1]
    have hbelow (v : UInt64) (hv : ∀ i < lowest w, bit v i = false) :
        (List.range (lowest w)).filter (bit v) = [] :=
      List.filter_eq_nil_iff.2 fun i hi => by simp [hv i (List.mem_range.1 hi)]
    have habove : ((List.range r).map (lowest w + 1 + ·)).filter (bit (clearLowest w)) =
        ((List.range r).map (lowest w + 1 + ·)).filter (bit w) := by
      refine List.filter_congr fun i hi => ?_
      obtain ⟨j, -, rfl⟩ := List.mem_map.1 hi
      rw [(bit_lowest (i := lowest w + 1 + j) hw).1, decide_eq_false (by omega), Bool.false_or]
    rw [ih, hsplit, List.filter_append, List.filter_append, List.filter_cons_of_neg,
      List.filter_cons_of_pos, hbelow, hbelow, habove]
    · rfl
    · intro i hi
      rw [(bit_lowest hw).1, decide_eq_false (by omega), (bit_lowest hw).2 (by omega)]
      rfl
    · exact fun i hi => (bit_lowest hw).2 (by omega)
    · rw [(bit_lowest hw).1, decide_eq_true rfl, Bool.true_or]
    · rw [(bit_lowest hw).2 (Nat.le_refl _)]
      decide

end Bits

/-! ### Lists of rows -/

section Lists

variable {words : Array UInt64}

/-- The numbers below a multiple of 64, word by word. -/
theorem range_words (n : Nat) :
    List.range (64 * n) = (List.range n).flatMap fun k => (List.range 64).map (64 * k + ·) := by
  induction n with
  | zero => rfl
  | succ n ih =>
    rw [Nat.mul_succ, List.range_add, ih, List.range_succ (n := n), List.flatMap_append]
    simp

theorem zipIdx_eq_map : words.toList.zipIdx =
    (List.range words.size).map fun k => (words.getD k 0, k) := by
  apply List.ext_getElem
  · simp
  · intro k h₁ h₂
    have hk : k < words.size := by simpa using h₂
    simp [Array.getD_eq_getD_getElem?, hk]

theorem filter_word (k : Nat) : ((List.range 64).map (64 * k + ·)).filter (hasBit words) =
    (positions (words.getD k 0)).map (64 * k + ·) := by
  rw [List.filter_map, positions_eq]
  congr 1
  apply List.filter_congr
  intro i hi
  have hi : i < 64 := List.mem_range.1 hi
  have hdiv : (64 * k + i) / 64 = k := by omega
  have hmod : (64 * k + i) % 64 = i := by omega
  simp only [Function.comp_apply, hasBit, hdiv, hmod]

theorem toList_eq_filter (s : RowSet) :
    s.toList = (List.range (64 * s.words.size)).filter (hasBit s.words) := by
  rw [toList, zipIdx_eq_map, range_words, List.flatMap_map, List.filter_flatMap]
  simp only [filter_word]

theorem total_eq_sum : total words =
    ((List.range words.size).map fun k => population (words.getD k 0)).sum := by
  have hmap : words.toList.map population =
      (List.range words.size).map fun k => population (words.getD k 0) := by
    apply List.ext_getElem
    · simp
    · intro k h₁ h₂
      have hk : k < words.size := by simpa using h₂
      simp [Array.getD_eq_getD_getElem?, hk]
  rw [total, ← Array.foldl_toList, ← hmap, List.sum_eq_foldl, List.foldl_map]

theorem total_eq_length :
    total words = ((List.range (64 * words.size)).filter (hasBit words)).length := by
  have hpositions (k : Nat) : ((positions (words.getD k 0)).map (64 * k + ·)).length =
      population (words.getD k 0) := by
    rw [List.length_map, positions_eq, population, List.countP_eq_length_filter]
  rw [range_words, List.filter_flatMap, total_eq_sum, List.length_flatMap]
  simp only [filter_word, hpositions]

end Lists

/-! ### Sound sets -/

theorem length_le (length : Nat) : length ≤ 64 * wordCount length := by
  unfold wordCount
  omega

namespace Sound

variable {s : RowSet} {row : Nat}

theorem contains_eq (hs : Sound s) : s.contains row = hasBit s.words row := by
  show (decide (row < s.length) && hasBit s.words row) = hasBit s.words row
  cases hbit : hasBit s.words row with
  | false => rw [Bool.and_false]
  | true => rw [Bool.and_true, decide_eq_true (hs.bounded row hbit)]

/-- The rows come in ascending order, each once. -/
theorem toList_eq (hs : Sound s) : s.toList = (List.range s.length).filter s.contains := by
  have hcontains : s.contains = hasBit s.words := funext fun _ => hs.contains_eq
  obtain ⟨k, hk⟩ := Nat.exists_eq_add_of_le (length_le s.length)
  rw [toList_eq_filter, hs.size, hk, List.range_add, List.filter_append, hcontains]
  have hnone : ((List.range k).map (s.length + ·)).filter (hasBit s.words) = [] := by
    rw [List.filter_eq_nil_iff]
    intro row hrow hbit
    obtain ⟨i, -, rfl⟩ := List.mem_map.1 hrow
    have := hs.bounded _ hbit
    omega
  rw [hnone, List.append_nil]

theorem count_eq (hs : Sound s) : s.count = s.toList.length := by
  rw [hs.count, total_eq_length, toList_eq_filter]

theorem isEmpty_iff (hs : Sound s) : s.isEmpty = true ↔ s.toList = [] := by
  rw [isEmpty, beq_iff_eq, hs.count_eq, List.length_eq_zero_iff]

theorem mem_toList (hs : Sound s) : row ∈ s.toList ↔ s.contains row = true := by
  rw [hs.toList_eq, List.mem_filter, List.mem_range, and_iff_right_of_imp]
  intro hrow
  rw [hs.contains_eq] at hrow
  exact hs.bounded row hrow

end Sound

section Operations

variable {s t : RowSet} {length row i : Nat}

theorem hasBit_empty : hasBit (empty length).words i = false := by
  unfold hasBit empty blank
  rw [Array.getD_eq_getD_getElem?, Array.getElem?_replicate]
  split <;> exact bit_zero

theorem sound_empty (length : Nat) : Sound (empty length) := by
  refine ⟨by simp [empty, blank], fun row hrow => ?_, ?_⟩
  · rw [hasBit_empty] at hrow
    cases hrow
  · show 0 = total (empty length).words
    rw [total_eq_length, List.filter_eq_nil_iff.2 fun row _ => by simp [hasBit_empty]]
    rfl

@[simp] theorem contains_empty : (empty length).contains row = false := by
  rw [(sound_empty length).contains_eq, hasBit_empty]

theorem hasBit_full : hasBit (full length).words i = decide (i < length) := by
  have hmod : i % 64 < 64 := Nat.mod_lt _ (by decide)
  unfold hasBit full filled
  rw [Array.getD_eq_getD_getElem?, Array.getElem?_modify, Array.getElem?_replicate]
  by_cases hword : i / 64 < wordCount length
  · rw [if_pos hword]
    have hword' := hword
    unfold wordCount at hword'
    by_cases hlast : wordCount length - 1 = i / 64
    · rw [if_pos hlast, Option.map_some, Option.getD_some, bit_and, bit_ones hmod,
        bit_tailMask hmod, Bool.true_and, decide_eq_decide]
      unfold wordCount at hlast
      omega
    · rw [if_neg hlast, Option.getD_some, bit_ones hmod, eq_comm, decide_eq_true_iff]
      unfold wordCount at hlast
      omega
  · rw [if_neg hword]
    have hout : ¬ i < length := by
      unfold wordCount at hword
      omega
    simp [hout]

theorem sound_full (length : Nat) : Sound (full length) := by
  have hsize : (full length).words.size = wordCount length := by simp [full, filled]
  refine ⟨hsize, fun row hrow => of_decide_eq_true (hasBit_full.symm.trans hrow), ?_⟩
  obtain ⟨k, hk⟩ := Nat.exists_eq_add_of_le (length_le length)
  have hbit : hasBit (full length).words = fun i => decide (i < length) :=
    funext fun _ => hasBit_full
  rw [total_eq_length, hsize, hk, List.range_add, List.filter_append, hbit, List.length_append,
    List.filter_eq_self.2 (by simp), List.filter_eq_nil_iff.2 (by simp)]
  simp [full, filled]

@[simp] theorem contains_full : (full length).contains row = decide (row < length) := by
  rw [(sound_full length).contains_eq, hasBit_full]

theorem hasBit_insert (hs : Sound s) (hrow : row < s.length) :
    hasBit (s.words.modify (row / 64) (· ||| (1 <<< UInt64.ofNat (row % 64)))) i =
      (hasBit s.words i || decide (i = row)) := by
  have hmod : row % 64 < 64 := Nat.mod_lt _ (by decide)
  have hword : row / 64 < s.words.size := by
    rw [hs.size, wordCount]
    omega
  unfold hasBit
  rw [Array.getD_eq_getD_getElem?, Array.getD_eq_getD_getElem?, Array.getElem?_modify]
  by_cases hsame : row / 64 = i / 64
  · have hbit : decide (row % 64 = i % 64) = decide (i = row) := by
      rw [decide_eq_decide]
      omega
    rw [if_pos hsame, Array.getElem?_eq_getElem (hsame ▸ hword), Option.map_some, Option.getD_some,
      Option.getD_some, bit_or, bit_shift hmod, hbit]
  · have hne : i ≠ row := by
      rintro rfl
      exact hsame rfl
    simp [hsame, hne]

theorem sound_insert (hs : Sound s) (row : Nat) : Sound (s.insert row) := by
  unfold insert
  split
  · next hnew =>
    simp only [Bool.and_eq_true, decide_eq_true_eq, Bool.not_eq_true'] at hnew
    obtain ⟨hlt, hfree⟩ := hnew
    have hbits : ∀ i, hasBit (s.words.modify (row / 64) (· ||| (1 <<< UInt64.ofNat (row % 64)))) i =
        (hasBit s.words i || decide (i = row)) := fun i => hasBit_insert hs hlt
    refine ⟨by simpa using hs.size, fun i hi => ?_, ?_⟩
    · rw [hbits, Bool.or_eq_true, decide_eq_true_iff] at hi
      rcases hi with hi | rfl
      · exact hs.bounded i hi
      · exact hlt
    · -- One bit more is one element more of the set of all rows with their bit set.
      rw [hs.contains_eq] at hfree
      have hin : row < 64 * s.words.size := by
        rw [hs.size]
        exact Nat.lt_of_lt_of_le hlt (length_le _)
      have hperm : ((List.range (64 * s.words.size)).filter fun i =>
            hasBit s.words i || decide (i = row)).Perm
          (row :: (List.range (64 * s.words.size)).filter (hasBit s.words)) := by
        rw [List.perm_ext_iff_of_nodup (List.nodup_range.filter _)
          (List.nodup_cons.2 ⟨by simp [hfree], List.nodup_range.filter _⟩)]
        intro i
        by_cases hi : i = row
        · simp [hi, hin]
        · simp [hi]
      show s.count + 1 = total (s.words.modify _ _)
      rw [hs.count, total_eq_length, total_eq_length, Array.size_modify, funext hbits,
        hperm.length_eq, List.length_cons]
  · exact hs

@[simp] theorem length_insert : (s.insert row).length = s.length := by
  unfold insert
  split <;> rfl

theorem contains_insert (hs : Sound s) :
    (s.insert row).contains i = (s.contains i || decide (i = row ∧ row < s.length)) := by
  rw [(sound_insert hs row).contains_eq, hs.contains_eq]
  unfold insert
  split
  · next hnew =>
    simp only [Bool.and_eq_true, decide_eq_true_eq] at hnew
    rw [hasBit_insert hs hnew.1]
    simp [hnew.1]
  · next hold =>
    simp only [Bool.and_eq_true, decide_eq_true_eq, Bool.not_eq_true', not_and,
      Bool.not_eq_false] at hold
    cases hbit : hasBit s.words i with
    | true => rfl
    | false =>
      rw [Bool.false_or, eq_comm, decide_eq_false_iff_not]
      rintro ⟨rfl, hlt⟩
      rw [← hs.contains_eq, hold hlt] at hbit
      cases hbit

theorem sound_ofRows (length : Nat) (rows : List Nat) : Sound (ofRows length rows) ∧
    (ofRows length rows).length = length ∧
    ∀ i, (ofRows length rows).contains i = decide (i ∈ rows ∧ i < length) := by
  induction rows using List.reverseRecOn with
  | nil => exact ⟨sound_empty length, rfl, fun i => by simp [ofRows]⟩
  | append_singleton rows row ih =>
    obtain ⟨hsound, hlength, hcontains⟩ := ih
    have hstep : ofRows length (rows ++ [row]) = (ofRows length rows).insert row := by
      simp [ofRows]
    rw [hstep]
    refine ⟨sound_insert hsound row, by rw [length_insert, hlength], fun i => ?_⟩
    rw [contains_insert hsound, hcontains, hlength, ← Bool.decide_or, decide_eq_decide]
    simp only [List.mem_append, List.mem_singleton]
    constructor
    · rintro (⟨hi, hlt⟩ | ⟨rfl, hlt⟩)
      · exact ⟨.inl hi, hlt⟩
      · exact ⟨.inr rfl, hlt⟩
    · rintro ⟨hi | rfl, hlt⟩
      · exact .inl ⟨hi, hlt⟩
      · exact .inr ⟨rfl, hlt⟩

theorem hasBit_zipWith {f : UInt64 → UInt64 → UInt64} {g : Bool → Bool → Bool}
    (hf : ∀ v w i, bit (f v w) i = g (bit v i) (bit w i)) (hzero : g false false = false)
    (hsize : s.words.size = t.words.size) :
    hasBit (s.words.zipWith f t.words) i = g (hasBit s.words i) (hasBit t.words i) := by
  unfold hasBit
  simp only [Array.getD_eq_getD_getElem?, Array.getElem?_zipWith]
  by_cases hlt : i / 64 < s.words.size
  · rw [Array.getElem?_eq_getElem hlt, Array.getElem?_eq_getElem (hsize ▸ hlt)]
    exact hf _ _ _
  · rw [Array.getElem?_eq_none (Nat.not_lt.1 hlt),
      Array.getElem?_eq_none (hsize ▸ Nat.not_lt.1 hlt)]
    simp [hzero]

/-- Combining the words of two sets combines their rows. -/
theorem sound_zipWith {f : UInt64 → UInt64 → UInt64} {g : Bool → Bool → Bool}
    (hf : ∀ v w i, bit (f v w) i = g (bit v i) (bit w i)) (hzero : g false false = false)
    (hs : Sound s) (ht : Sound t) (hlength : s.length = t.length) :
    Sound { s with
      words := s.words.zipWith f t.words, count := total (s.words.zipWith f t.words) } ∧
      ∀ i, RowSet.contains { s with
        words := s.words.zipWith f t.words, count := total (s.words.zipWith f t.words) } i =
          g (s.contains i) (t.contains i) := by
  have hsize : s.words.size = t.words.size := by rw [hs.size, ht.size, hlength]
  have hsound : Sound { s with
      words := s.words.zipWith f t.words, count := total (s.words.zipWith f t.words) } := by
    refine ⟨by simp [← hsize, hs.size], fun row hrow => ?_, rfl⟩
    rw [hasBit_zipWith hf hzero hsize] at hrow
    cases hbit : hasBit s.words row with
    | true => exact hs.bounded row hbit
    | false =>
      cases hbit' : hasBit t.words row with
      | true => exact hlength ▸ ht.bounded row hbit'
      | false =>
        rw [hbit, hbit', hzero] at hrow
        cases hrow
  refine ⟨hsound, fun i => ?_⟩
  rw [hsound.contains_eq, hasBit_zipWith hf hzero hsize, hs.contains_eq, ht.contains_eq]

theorem sound_inter (hs : Sound s) (ht : Sound t) (hlength : s.length = t.length) :
    Sound (s.inter t) ∧ ∀ i, (s.inter t).contains i = (s.contains i && t.contains i) :=
  sound_zipWith (fun _ _ _ => bit_and) rfl hs ht hlength

theorem sound_union (hs : Sound s) (ht : Sound t) (hlength : s.length = t.length) :
    Sound (s.union t) ∧ ∀ i, (s.union t).contains i = (s.contains i || t.contains i) :=
  sound_zipWith (fun _ _ _ => bit_or) rfl hs ht hlength

end Operations

end RowSet

end CubeQuery
