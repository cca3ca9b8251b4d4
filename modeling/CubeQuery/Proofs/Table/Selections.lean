import CubeQuery.Proofs.Table.RowSet
import Mathlib.Algebra.Order.Floor.Div
import Mathlib.Data.Finset.Card
import Mathlib.Data.Finset.Range

/-!
Row sets as finite sets. Whatever a row set was made of, it stands for the set of rows that the same
operations give on sets, and no two row sets with the same bound stand for the same set. This holds
for all bounds but the last 63 machine words, for which the number of words starts again at zero.
-/

namespace CubeQuery

namespace RowSet

/-- How a row set over so many rows came about: each operation with the row sets that it was given,
as they were at that time. -/
inductive History (length : UInt64)
  | empty
  | full
  | ofRows (rows : List ℕ)
  | insert (before : History length) (row : Fin length.toNat)
  | union (left right : History length)
  | inter (left right : History length)

namespace History

variable {length : UInt64}

/-- The row set that the operations leave behind. -/
def outcome : History length → RowSet
  | empty => emptyOf length
  | full => fullOf length
  | ofRows rows => selectOf length rows
  | insert before row => before.outcome.insert row
  | union left right => left.outcome.union right.outcome
  | inter left right => left.outcome.inter right.outcome

/-- The set that the same operations give on sets of rows. -/
def rows : History length → Finset ℕ
  | empty => ∅
  | full => Finset.range length.toNat
  | ofRows rows => rows.toFinset ∩ Finset.range length.toNat
  | insert before row => Insert.insert row.val before.rows
  | union left right => left.rows ∪ right.rows
  | inter left right => left.rows ∩ right.rows

end History

/-- A row set with a certain bound and certain rows. -/
structure StandsFor (s : RowSet) (length : ℕ) (rows : Finset ℕ) : Prop where
  sound : Sound s
  bound : s.length = length
  contains : ∀ row, s.contains row = decide (row ∈ rows)

/-! ### Operations on what row sets stand for -/

namespace StandsFor

variable {s t : RowSet} {length : ℕ} {rows rows' : Finset ℕ}

theorem empty (length : ℕ) : StandsFor (empty length) length ∅ where
  sound := sound_empty length
  bound := rfl
  contains row := by simp

theorem full (length : ℕ) : StandsFor (full length) length (Finset.range length) where
  sound := sound_full length
  bound := rfl
  contains row := by simp

theorem ofRows (length : ℕ) (rows : List ℕ) :
    StandsFor (ofRows length rows) length (rows.toFinset ∩ Finset.range length) := by
  obtain ⟨hsound, hlength, hcontains⟩ := sound_ofRows length rows
  refine ⟨hsound, hlength, fun row => ?_⟩
  rw [hcontains]
  simp

theorem insert (hs : StandsFor s length rows) (row : Fin length) :
    StandsFor (s.insert row) length (Insert.insert row.val rows) where
  sound := sound_insert hs.sound row
  bound := length_insert.trans hs.bound
  contains i := by
    have hrow : row.val < s.length := hs.bound ▸ row.isLt
    rw [contains_insert hs.sound, hs.contains, ← Bool.decide_or, decide_eq_decide,
      and_iff_left hrow, or_comm, Finset.mem_insert]

theorem union (hs : StandsFor s length rows) (ht : StandsFor t length rows') :
    StandsFor (s.union t) length (rows ∪ rows') := by
  obtain ⟨hsound, hcontains⟩ := sound_union hs.sound ht.sound (hs.bound.trans ht.bound.symm)
  refine ⟨hsound, hs.bound, fun row => ?_⟩
  rw [hcontains, hs.contains, ht.contains, ← Bool.decide_or, decide_eq_decide, Finset.mem_union]

theorem inter (hs : StandsFor s length rows) (ht : StandsFor t length rows') :
    StandsFor (s.inter t) length (rows ∩ rows') := by
  obtain ⟨hsound, hcontains⟩ := sound_inter hs.sound ht.sound (hs.bound.trans ht.bound.symm)
  refine ⟨hsound, hs.bound, fun row => ?_⟩
  rw [hcontains, hs.contains, ht.contains, ← Bool.decide_and, decide_eq_decide, Finset.mem_inter]

/-! ### Reading a row set -/

theorem mem_iff (hs : StandsFor s length rows) {row : ℕ} :
    row ∈ rows ↔ s.contains row = true := by
  rw [hs.contains, decide_eq_true_iff]

theorem subset (hs : StandsFor s length rows) : rows ⊆ Finset.range length := by
  intro row hrow
  rw [hs.mem_iff, hs.sound.contains_eq] at hrow
  exact Finset.mem_range.2 (hs.bound ▸ hs.sound.bounded row hrow)

theorem clear_beyond (hs : StandsFor s length rows) {row : ℕ} (hrow : length ≤ row) :
    hasBit s.words row = false := by
  rw [← hs.sound.contains_eq, hs.contains, decide_eq_false_iff_not]
  exact fun hmem => Nat.not_lt.2 hrow (Finset.mem_range.1 (hs.subset hmem))

theorem mem_toList (hs : StandsFor s length rows) {row : ℕ} : row ∈ s.toList ↔ row ∈ rows := by
  rw [hs.sound.mem_toList, hs.mem_iff]

theorem pairwise_toList (hs : StandsFor s length rows) : s.toList.Pairwise (· < ·) := by
  rw [hs.sound.toList_eq]
  exact List.pairwise_lt_range.filter _

theorem toFinset_toList (hs : StandsFor s length rows) : s.toList.toFinset = rows := by
  ext row
  rw [List.mem_toFinset, hs.mem_toList]

theorem count_eq (hs : StandsFor s length rows) : s.count = rows.card := by
  rw [hs.sound.count_eq, ← hs.toFinset_toList,
    List.toFinset_card_of_nodup (hs.pairwise_toList.imp Nat.ne_of_lt)]

theorem isEmpty_iff (hs : StandsFor s length rows) : s.isEmpty = true ↔ rows = ∅ := by
  rw [hs.sound.isEmpty_iff, ← hs.toFinset_toList, List.toFinset_eq_empty_iff]

/-- The rows below a bound decide all bits, and these the words. -/
theorem words_eq (hs : StandsFor s length rows) (ht : StandsFor t length rows) :
    s.words = t.words := by
  have hsize : s.words.size = t.words.size := by
    rw [hs.sound.size, ht.sound.size, hs.bound, ht.bound]
  have hbits (row : ℕ) : hasBit s.words row = hasBit t.words row := by
    rw [← hs.sound.contains_eq, ← ht.sound.contains_eq, hs.contains, ht.contains]
  refine Array.ext hsize fun k hk hk' => UInt64.toNat_inj.1 (Nat.eq_of_testBit_eq fun i => ?_)
  by_cases hi : i < 64
  · have hbit := hbits (64 * k + i)
    have hdiv : (64 * k + i) / 64 = k := by omega
    have hmod : (64 * k + i) % 64 = i := by omega
    rw [hasBit, hasBit, hdiv, hmod, Array.getD_eq_getD_getElem?, Array.getD_eq_getD_getElem?,
      Array.getElem?_eq_getElem hk, Array.getElem?_eq_getElem hk'] at hbit
    exact hbit
  · exact (bit_beyond (Nat.not_lt.1 hi)).trans (bit_beyond (Nat.not_lt.1 hi)).symm

theorem eq_iff (hs : StandsFor s length rows) (ht : StandsFor t length rows') :
    s = t ↔ rows = rows' := by
  constructor
  · rintro rfl
    rw [← hs.toFinset_toList, ht.toFinset_toList]
  · rintro rfl
    have hwords := hs.words_eq ht
    have hlength := hs.bound.trans ht.bound.symm
    have hcount := hs.count_eq.trans ht.count_eq.symm
    cases s
    cases t
    rw [mk.injEq]
    exact ⟨hwords, hlength, hcount⟩

end StandsFor

/-! ### Bounds that leave room for the sum -/

section Bounds

variable {length : UInt64}

/-- Up to the bound the machine words are reckoned as numbers are. -/
theorem wordsOf_eq (hlength : length.toNat + 63 < 2 ^ 64) :
    wordsOf length = wordCount length.toNat := by
  have hsum : (length + 63).toNat = length.toNat + 63 := by
    rw [UInt64.toNat_add]
    exact Nat.mod_eq_of_lt hlength
  rw [wordsOf, UInt64.toNat_div, hsum]
  rfl

theorem emptyOf_eq (hlength : length.toNat + 63 < 2 ^ 64) :
    emptyOf length = RowSet.empty length.toNat := by
  rw [emptyOf, wordsOf_eq hlength]
  rfl

theorem fullOf_eq (hlength : length.toNat + 63 < 2 ^ 64) :
    fullOf length = RowSet.full length.toNat := by
  rw [fullOf, wordsOf_eq hlength]
  rfl

theorem selectOf_eq (hlength : length.toNat + 63 < 2 ^ 64) (rows : List ℕ) :
    selectOf length rows = RowSet.ofRows length.toNat rows := by
  rw [selectOf, emptyOf_eq hlength]
  rfl

/-- By induction on the history; each operation does to row sets what it does to sets. -/
theorem History.standsFor (hlength : length.toNat + 63 < 2 ^ 64) (h : History length) :
    StandsFor h.outcome length.toNat h.rows := by
  induction h with
  | empty =>
    rw [outcome, emptyOf_eq hlength]
    exact .empty length.toNat
  | full =>
    rw [outcome, fullOf_eq hlength]
    exact .full length.toNat
  | ofRows rows =>
    rw [outcome, selectOf_eq hlength]
    exact .ofRows length.toNat rows
  | insert _ row ih => exact ih.insert row
  | union _ _ ihl ihr => exact ihl.union ihr
  | inter _ _ ihl ihr => exact ihl.inter ihr

/-- Row sets refine finite sets. There is a word for every 64 rows or part of them, no bit is set at
or beyond the bound, and the count is the size of the set. Membership, the rows in ascending order
and the test for emptiness are those of the set, and two row sets with the same bound are equal if
they stand for the same set. -/
theorem outcome_refines (hlength : length.toNat + 63 < 2 ^ 64) (h : History length) :
    h.rows ⊆ Finset.range length.toNat ∧
    h.outcome.length = length.toNat ∧ h.outcome.words.size = length.toNat ⌈/⌉ 64 ∧
    (∀ row, length.toNat ≤ row → hasBit h.outcome.words row = false) ∧
    h.outcome.count = h.rows.card ∧
    (∀ row, h.outcome.contains row = decide (row ∈ h.rows)) ∧
    (h.outcome.toList.Pairwise (· < ·) ∧ ∀ row, row ∈ h.outcome.toList ↔ row ∈ h.rows) ∧
    (h.outcome.isEmpty = true ↔ h.rows = ∅) ∧
    ∀ h' : History length, h.outcome = h'.outcome ↔ h.rows = h'.rows := by
  have hs := h.standsFor hlength
  have hsize : h.outcome.words.size = length.toNat ⌈/⌉ 64 := by
    rw [hs.sound.size, hs.bound, Nat.ceilDiv_eq_add_pred_div]
    rfl
  exact ⟨hs.subset, hs.bound, hsize, fun _ => hs.clear_beyond, hs.count_eq, hs.contains,
    ⟨hs.pairwise_toList, fun _ => hs.mem_toList⟩, hs.isEmpty_iff,
    fun h' => hs.eq_iff (h'.standsFor hlength)⟩

/-- Rows of three words, put together in two ways. -/
theorem outcome_refines_three :
    let marked : History 130 := .insert (.ofRows [64, 5, 200]) ⟨129, by decide⟩
    let selected : History 130 := .inter .full (.union (.ofRows [129]) (.ofRows [5, 64]))
    (130 : UInt64).toNat + 63 < 2 ^ 64 ∧ marked.rows = selected.rows ∧
      marked.outcome.words.size = 130 ⌈/⌉ 64 ∧ marked.outcome.count = marked.rows.card ∧
      (∀ row, row ∈ marked.outcome.toList ↔ row ∈ marked.rows) ∧
      marked.outcome = selected.outcome := by
  intro marked selected
  have hlength : (130 : UInt64).toNat + 63 < 2 ^ 64 := by decide
  have hrows : marked.rows = selected.rows := by decide
  obtain ⟨-, -, hsize, -, hcount, -, ⟨-, hmem⟩, -, heq⟩ := outcome_refines hlength marked
  exact ⟨hlength, hrows, hsize, hcount, hmem, (heq selected).2 hrows⟩

/-- Beyond the bound no word is made: a set that is to have every row lists none of them. -/
theorem fullOf_lists_none :
    let h : History (-1) := .full
    h.rows = Finset.range (2 ^ 64 - 1) ∧ 0 ∈ h.rows ∧ h.outcome.words.size = 0 ∧
      h.outcome.toList = [] ∧ h.outcome.count = 2 ^ 64 - 1 := by
  intro h
  have hwords : h.outcome.words = #[] := by decide
  refine ⟨rfl, Finset.mem_range.2 (by decide), ?_, ?_, rfl⟩
  · rw [hwords]
    rfl
  · rw [toList, hwords]
    rfl

end Bounds

end RowSet

end CubeQuery
