import CubeQuery.Proofs.Assembly.Counting
import Mathlib.Data.List.Nodup
import Mathlib.Order.Bounds.Defs

/-!
When the keys and the parents of a dimension table are accepted. The builder indexes the keys, looks
up every parent and then counts the rows above every row; it succeeds exactly if the keys differ,
the parents are keys and no row lies above itself.
-/

namespace CubeQuery

namespace Table

variable (t : Table) (key parent : Nat)

/-- The values of a column as keys, row by row. -/
def keys (column : Nat) : List Key :=
  (List.range t.rowCount).map fun row => Key.ofValue (t.cell row column)

/-- Every parent that a row names is the key of a row. -/
def ParentsKnown : Prop :=
  ∀ row < t.rowCount, (t.cell row parent).isNull = false →
    Key.ofValue (t.cell row parent) ∈ t.keys key

/-- No way up from a row leads back to it. -/
def Acyclic : Prop :=
  ∀ row < t.rowCount, ∀ steps, t.rowUp? key parent (steps + 1) row ≠ some row

variable {t key parent}

theorem rowUp?_add {m n row : Nat} : t.rowUp? key parent (m + n) row =
    (t.rowUp? key parent m row).bind (t.rowUp? key parent n) := by
  induction n with
  | zero => cases t.rowUp? key parent m row <;> rfl
  | succ n ih =>
    rw [← Nat.add_assoc, rowUp?, ih, Option.bind_assoc]
    rfl

/-- A way up that leads back never ends. -/
theorem rowUp?_of_cycle {steps row : Nat} (h : t.rowUp? key parent (steps + 1) row = some row)
    (depth : Nat) : (t.rowUp? key parent depth row).isSome := by
  have hround (k : Nat) : t.rowUp? key parent (k * (steps + 1)) row = some row := by
    induction k with
    | zero => rw [Nat.zero_mul]; rfl
    | succ k ih => rw [Nat.succ_mul, rowUp?_add, ih, Option.bind_some, h]
  by_contra hnone
  rw [Option.not_isSome_iff_eq_none] at hnone
  have hend := rowUp?_eq_none hnone (Nat.le_mul_of_pos_right depth (Nat.succ_pos steps))
  rw [hround] at hend
  cases hend

end Table

theorem exists_mapM_eq_ok_iff {ε α β : Type} {f : α → Except ε β} {xs : List α} :
    (∃ ys, xs.mapM f = .ok ys) ↔ ∀ x ∈ xs, ∃ y, f x = .ok y := by
  simp only [mapM_eq_ok_iff]
  induction xs with
  | nil => simp
  | cons x xs ih =>
    rw [List.forall_mem_cons, ← ih]
    constructor
    · rintro ⟨_, _ | ⟨hx, hxs⟩⟩
      exact ⟨⟨_, hx⟩, _, hxs⟩
    · rintro ⟨⟨y, hx⟩, ys, hxs⟩
      exact ⟨y :: ys, .cons hx hxs⟩

/-- The index of keys can be made if the keys differ. -/
theorem exists_keyRows_iff {table : Table} {column : String} {index : Nat} :
    (∃ rows, keyRows table column index = .ok rows) ↔ (table.keys index).Nodup := by
  -- The rows seen so far are a shorter table.
  suffices ∀ n, (∃ rows, keyRows { table with rowCount := n } column index = .ok rows) ↔
      (Table.keys { table with rowCount := n } index).Nodup from this table.rowCount
  intro n
  induction n with
  | zero => exact iff_of_true ⟨∅, rfl⟩ List.nodup_nil
  | succ n ih =>
    have hkeys : Table.keys { table with rowCount := n + 1 } index =
        Table.keys { table with rowCount := n } index ++ [Key.ofValue (table.cell n index)] := by
      simp only [Table.keys, List.range_succ, List.map_append, List.map_singleton]
      rfl
    have hcontains {rows : KeyRows} (hrows : keyRows { table with rowCount := n } column index =
        .ok rows) : rows.contains (Key.ofValue (table.cell n index)) = true ↔
          Key.ofValue (table.cell n index) ∈ Table.keys { table with rowCount := n } index := by
      rw [Std.HashMap.contains_eq_isSome_getElem?, Option.isSome_iff_exists, Table.keys,
        List.mem_map]
      refine exists_congr fun row => ?_
      rw [keyRows_eq_ok hrows, List.mem_range]
    rw [hkeys, List.nodup_append, ← ih, keyRows]
    simp only [List.range_succ, foldlM_concat_eq_ok]
    constructor
    · rintro ⟨rows, before, hbefore, hlast⟩
      refine ⟨⟨before, hbefore⟩, List.nodup_singleton _, ?_⟩
      split at hlast
      · cases hlast
      · next hnew =>
        rintro k hk _ (_ | ⟨_, ⟨⟩⟩) rfl
        exact hnew ((hcontains hbefore).2 hk)
    · rintro ⟨⟨before, hbefore⟩, -, hnew⟩
      refine ⟨_, before, hbefore, if_neg fun hin => ?_⟩
      exact hnew _ ((hcontains hbefore).1 hin) _ (List.mem_singleton_self _) rfl

section Parents

variable {table : Table} {column : String} {rows : KeyRows} {key parent : Nat}
  {parents : List (Option Nat)} {depths : List Nat}

theorem mem_keys_iff (hrows : keyRows table column key = .ok rows) {k : Key} :
    k ∈ table.keys key ↔ ∃ row, rows[k]? = some row := by
  rw [Table.keys, List.mem_map]
  refine exists_congr fun row => ?_
  rw [keyRows_eq_ok hrows, List.mem_range]

theorem exists_parentRows_iff (hrows : keyRows table column key = .ok rows) :
    (∃ parents, parentRows table rows key parent = .ok parents) ↔
      table.ParentsKnown key parent := by
  rw [parentRows, exists_mapM_eq_ok_iff, Table.ParentsKnown]
  simp only [List.mem_range]
  refine forall₂_congr fun row _ => ?_
  rw [mem_keys_iff hrows]
  cases (table.cell row parent).isNull with
  | true => simp
  | false => cases rows[Key.ofValue (table.cell row parent)]? <;> simp

theorem exists_depthsOf_iff
    (hparents : parents = (List.range table.rowCount).map (table.rowAbove? key parent)) :
    (∃ depths, depthsOf parents = .ok depths) ↔ table.Acyclic key parent := by
  constructor
  · rintro ⟨depths, h⟩ row hrow steps hcycle
    obtain ⟨hlength, hdepths⟩ := depthsOf_eq_ok hparents h
    have hmem := (hdepths row _).1 (List.getElem?_eq_getElem (hlength ▸ hrow))
    obtain ⟨-, hnone⟩ := Bool.and_eq_true_iff.1 (List.mem_filter.1 hmem).2
    have hsome := Table.rowUp?_of_cycle hcycle depths[row]
    rw [Option.isNone_iff_eq_none.1 hnone] at hsome
    cases hsome
  · intro hacyclic
    cases h : depthsOf parents with
    | ok depths => exact ⟨depths, rfl⟩
    | error row =>
      obtain ⟨hrow, steps, hcycle⟩ := depthsOf_eq_error hparents h
      exact absurd hcycle (hacyclic row hrow steps)

theorem foldl_max_mem (xs : List Nat) (x : Nat) :
    xs.foldl max x = x ∨ xs.foldl max x ∈ xs := by
  induction xs generalizing x with
  | nil => exact .inl rfl
  | cons y xs ih =>
    rw [List.foldl_cons]
    rcases ih (max x y) with h | h
    · rcases Nat.le_total x y with hle | hle
      · exact .inr (List.mem_cons.2 (.inl (h.trans (Nat.max_eq_right hle))))
      · exact .inl (h.trans (Nat.max_eq_left hle))
    · exact .inr (List.mem_cons_of_mem _ h)

end Parents

end CubeQuery
