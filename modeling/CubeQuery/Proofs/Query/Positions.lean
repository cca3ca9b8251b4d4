import CubeQuery.Query.Grid
import Mathlib.Algebra.BigOperators.Group.List.Basic
import Mathlib.Data.List.Forall2

/-!
Numbers of cells and positions on axes stand for each other, as long as all cells have numbers of
their own. Every number of a cell leads to one position on each axis, and no axis without positions
is divided by on the way.
-/

namespace CubeQuery

/-- There is one position for each axis, and each is on its axis. -/
def Within (sizes positions : List Nat) : Prop :=
  List.Forall₂ (· < ·) positions sizes

/-- There are few enough cells for their numbers not to wrap around. -/
def Unwrapped (sizes : List Nat) : Prop :=
  sizes.prod < 2 ^ 64

instance (sizes : List Nat) : Decidable (Unwrapped sizes) :=
  inferInstanceAs (Decidable (sizes.prod < 2 ^ 64))

variable {sizes positions : List Nat} {n : Nat}

theorem Within.length_eq (h : Within sizes positions) : positions.length = sizes.length :=
  List.Forall₂.length_eq h

/-! ### Numbers that do not wrap around -/

/-- The number of the cell at some positions, however large it is. -/
def wholeOrdinal : (sizes positions : List Nat) → Nat
  | size :: sizes, p :: positions => p + size * wholeOrdinal sizes positions
  | _, _ => 0

theorem wholeOrdinal_lt (h : Within sizes positions) :
    wholeOrdinal sizes positions < sizes.prod := by
  induction h with
  | nil => exact Nat.zero_lt_one
  | @cons p size positions sizes hp _ ih =>
    have hm := Nat.mul_le_mul_left size (Nat.succ_le_of_lt ih)
    simp only [wholeOrdinal, List.prod_cons, Nat.mul_succ] at hm ⊢
    omega

theorem positions?_wholeOrdinal (h : Within sizes positions) :
    positions? sizes (wholeOrdinal sizes positions) = some positions := by
  induction h with
  | nil => rfl
  | @cons p size positions sizes hp _ ih =>
    have hpos : 0 < size := Nat.zero_lt_of_lt hp
    rw [wholeOrdinal, positions?, if_neg (Nat.ne_of_gt hpos), Nat.add_mul_div_left _ _ hpos,
      Nat.div_eq_of_lt hp, Nat.zero_add, ih, Nat.add_mul_mod_self_left, Nat.mod_eq_of_lt hp]
    rfl

/-- By induction on the axes: what is left of the number after one axis is a number of a cell on the
axes after it, and an axis without positions leaves no number at all. -/
theorem exists_wholeOrdinal (h : n < sizes.prod) :
    ∃ positions, positions? sizes n = some positions ∧ Within sizes positions ∧
      wholeOrdinal sizes positions = n := by
  induction sizes generalizing n with
  | nil =>
    obtain rfl : n = 0 := Nat.lt_one_iff.1 h
    exact ⟨[], rfl, .nil, rfl⟩
  | cons size sizes ih =>
    rw [List.prod_cons] at h
    have hpos : 0 < size := Nat.pos_of_mul_pos_right (Nat.zero_lt_of_lt h)
    obtain ⟨positions, hpositions, hwithin, hordinal⟩ := ih (Nat.div_lt_of_lt_mul h)
    refine ⟨n % size :: positions, ?_, .cons (Nat.mod_lt n hpos) hwithin, ?_⟩
    · rw [positions?, if_neg (Nat.ne_of_gt hpos), hpositions]
      rfl
    · rw [wholeOrdinal, hordinal, Nat.mod_add_div]

theorem isSome_positions (h : n < sizes.prod) : (positions? sizes n).isSome := by
  obtain ⟨positions, hpositions, -⟩ := exists_wholeOrdinal h
  rw [hpositions]
  rfl

/-! ### Machine words -/

theorem wrap_of_lt (h : n < 2 ^ 64) : wrap n = n :=
  Nat.mod_eq_of_lt h

theorem wrap_le (n : Nat) : wrap n ≤ n :=
  Nat.mod_le n _

theorem wrap_lt (n : Nat) : wrap n < 2 ^ 64 :=
  Nat.mod_lt n (Nat.two_pow_pos 64)

theorem wrap_mul_wrap (a b : Nat) : wrap (a * wrap b) = wrap (a * b) :=
  Nat.mul_mod_mod a b _

theorem wrap_add_mul_wrap (a b c : Nat) : wrap (a + b * wrap c) = wrap (a + b * c) := by
  simp only [wrap, Nat.add_mod a, Nat.mul_mod_mod]

theorem cellCount_eq (sizes : List Nat) : cellCount sizes = wrap sizes.prod := by
  induction sizes with
  | nil => rfl
  | cons size sizes ih => rw [cellCount, ih, wrap_mul_wrap, List.prod_cons]

theorem ordinalOf_eq (sizes positions : List Nat) :
    ordinalOf sizes positions = wrap (wholeOrdinal sizes positions) := by
  induction sizes generalizing positions with
  | nil => rfl
  | cons size sizes ih =>
    cases positions with
    | nil => rfl
    | cons p positions => rw [ordinalOf, ih, wrap_add_mul_wrap, wholeOrdinal]

namespace Unwrapped

theorem cellCount_eq (h : Unwrapped sizes) : cellCount sizes = sizes.prod := by
  rw [CubeQuery.cellCount_eq, wrap_of_lt h]

theorem ordinalOf_eq (h : Unwrapped sizes) (hwithin : Within sizes positions) :
    ordinalOf sizes positions = wholeOrdinal sizes positions := by
  rw [CubeQuery.ordinalOf_eq, wrap_of_lt (Nat.lt_trans (wholeOrdinal_lt hwithin) h)]

theorem ordinalOf_lt (h : Unwrapped sizes) (hwithin : Within sizes positions) :
    ordinalOf sizes positions < cellCount sizes := by
  rw [h.ordinalOf_eq hwithin, h.cellCount_eq]
  exact wholeOrdinal_lt hwithin

theorem positions?_ordinalOf (h : Unwrapped sizes) (hwithin : Within sizes positions) :
    positions? sizes (ordinalOf sizes positions) = some positions := by
  rw [h.ordinalOf_eq hwithin, positions?_wholeOrdinal hwithin]

end Unwrapped

/-- Every number of a cell leads to positions, also where there are more cells than numbers. -/
theorem exists_positions (h : n < cellCount sizes) :
    ∃ positions, positions? sizes n = some positions ∧ Within sizes positions ∧
      ordinalOf sizes positions = n := by
  rw [cellCount_eq] at h
  obtain ⟨positions, hpositions, hwithin, hordinal⟩ :=
    exists_wholeOrdinal (Nat.lt_of_lt_of_le h (wrap_le _))
  refine ⟨positions, hpositions, hwithin, ?_⟩
  rw [ordinalOf_eq, hordinal, wrap_of_lt (Nat.lt_trans h (wrap_lt _))]

theorem ordinal?_eq_some_iff :
    ordinal? sizes positions = some n ↔ Within sizes positions ∧ ordinalOf sizes positions = n := by
  induction sizes generalizing positions n with
  | nil =>
    cases positions with
    | nil => simp [ordinal?, ordinalOf, Within]
    | cons p positions => simp [ordinal?, Within]
  | cons size sizes ih =>
    cases positions with
    | nil => simp [ordinal?, Within]
    | cons p positions =>
      have hcons : Within (size :: sizes) (p :: positions) ↔ p < size ∧ Within sizes positions :=
        List.forall₂_cons
      rw [ordinal?, hcons, ordinalOf]
      split
      · rename_i hp
        simp only [Option.map_eq_some_iff, ih, hp, true_and]
        constructor
        · rintro ⟨others, ⟨hwithin, rfl⟩, rfl⟩
          exact ⟨hwithin, rfl⟩
        · rintro ⟨hwithin, rfl⟩
          exact ⟨_, ⟨hwithin, rfl⟩, rfl⟩
      · rename_i hp
        simp [hp]

/-! ### The positions of all cells -/

/-- Each number of a cell has its positions, so that none is skipped. -/
theorem allPositions_eq (sizes : List Nat) : allPositions sizes =
    (List.range (cellCount sizes)).map fun n => (positions? sizes n).getD [] := by
  rw [allPositions, List.filterMap_eq_map_iff_forall_eq_some]
  intro n hn
  obtain ⟨positions, hpositions, -⟩ := exists_positions (List.mem_range.1 hn)
  rw [hpositions, Option.getD_some]

@[simp] theorem length_allPositions (sizes : List Nat) :
    (allPositions sizes).length = cellCount sizes := by
  simp [allPositions_eq]

theorem within_of_mem_allPositions (h : positions ∈ allPositions sizes) :
    Within sizes positions := by
  obtain ⟨n, hn, hpositions⟩ := List.mem_filterMap.1 h
  obtain ⟨others, hothers, hwithin, -⟩ := exists_positions (List.mem_range.1 hn)
  obtain rfl : others = positions := Option.some.inj (hothers.symm.trans hpositions)
  exact hwithin

theorem Unwrapped.getElem?_allPositions (h : Unwrapped sizes) (hwithin : Within sizes positions) :
    (allPositions sizes)[ordinalOf sizes positions]? = some positions := by
  rw [allPositions_eq, List.getElem?_map, List.getElem?_range (h.ordinalOf_lt hwithin),
    Option.map_some, h.positions?_ordinalOf hwithin, Option.getD_some]

end CubeQuery
