import CubeQuery.Cube.Build
import Mathlib.Data.List.Forall2
import Mathlib.Tactic.Common

/-!
What the parent column of a dimension table says, apart from any cube: the row above each row, and
how many rows lie on the way up. The builder finds rows through an index of keys, which gives what
the table says.
-/

namespace CubeQuery

namespace Table

variable (t : Table) (key parent : Nat)

/-- The row with the key that stands in the parent column. -/
def rowAbove? (row : Nat) : Option Nat :=
  if (t.cell row parent).isNull then none
  else (List.range t.rowCount).find? fun above =>
    Key.ofValue (t.cell above key) = Key.ofValue (t.cell row parent)

/-- The row so many steps up. -/
def rowUp? : (steps : Nat) → Nat → Option Nat
  | 0, row => some row
  | steps + 1, row => (rowUp? steps row).bind (t.rowAbove? key parent)

/-- The rows with so many rows on the way up, themselves included, in the order of the table. -/
def rowsOfDepth (depth : Nat) : List Nat :=
  (List.range t.rowCount).filter fun row =>
    (t.rowUp? key parent (depth - 1) row).isSome && (t.rowUp? key parent depth row).isNone

variable {t key parent}

theorem rowAbove?_lt {row above : Nat} (h : t.rowAbove? key parent row = some above) :
    above < t.rowCount := by
  unfold rowAbove? at h
  split at h
  · cases h
  · simpa using List.mem_of_find?_eq_some h

theorem rowUp?_succ {steps row : Nat} : t.rowUp? key parent (steps + 1) row =
    (t.rowAbove? key parent row).bind (t.rowUp? key parent steps) := by
  induction steps with
  | zero => cases h : t.rowAbove? key parent row <;> simp [rowUp?, h]
  | succ steps ih =>
    rw [rowUp?, ih, Option.bind_assoc]
    rfl

/-- Beyond the end of the way there is nothing. -/
theorem rowUp?_eq_none {steps more row : Nat} (h : t.rowUp? key parent steps row = none)
    (hle : steps ≤ more) : t.rowUp? key parent more row = none := by
  obtain ⟨k, rfl⟩ := Nat.exists_eq_add_of_le hle
  induction k with
  | zero => exact h
  | succ k ih => rw [Nat.add_succ, rowUp?, ih (Nat.le_add_right _ _)]; rfl

end Table

/-- What stands on the right stands beside something on the left. -/
theorem exists_of_forall₂ {α β : Type} {R : α → β → Prop} {xs : List α} {ys : List β}
    (h : List.Forall₂ R xs ys) {y : β} (hy : y ∈ ys) : ∃ x ∈ xs, R x y := by
  induction h with
  | nil => cases hy
  | cons hxy _ ih =>
    rcases List.mem_cons.1 hy with rfl | hy
    · exact ⟨_, List.mem_cons_self, hxy⟩
    · obtain ⟨x, hx, hxy⟩ := ih hy
      exact ⟨x, List.mem_cons_of_mem _ hx, hxy⟩

theorem bind_eq_ok_iff {ε α β : Type} {r : Except ε α} {f : α → Except ε β} {b : β} :
    r >>= f = .ok b ↔ ∃ a, r = .ok a ∧ f a = .ok b := by
  cases r with
  | error e =>
    constructor
    · exact fun h => nomatch h
    · exact fun ⟨_, h, _⟩ => nomatch h
  | ok a =>
    constructor
    · exact fun h => ⟨a, rfl, h⟩
    · exact fun ⟨_, ha, h⟩ => Except.ok.inj ha ▸ h

theorem mapM_eq_ok_iff {ε α β : Type} {f : α → Except ε β} {xs : List α} {ys : List β} :
    xs.mapM f = .ok ys ↔ List.Forall₂ (fun x y => f x = .ok y) xs ys := by
  induction xs generalizing ys with
  | nil => cases ys <;> simp [pure, Except.pure]
  | cons x xs ih =>
    rw [List.mapM_cons]
    cases hx : f x with
    | error e => cases ys <;> simp [bind, Except.bind, hx]
    | ok y =>
      cases hxs : xs.mapM f with
      | error e =>
        have hnone (ys : List β) : ¬ List.Forall₂ (fun x y => f x = .ok y) xs ys := by
          rw [← ih, hxs]
          simp
        cases ys <;> simp [bind, Except.bind, hnone]
      | ok zs =>
        cases ys with
        | nil => simp [bind, Except.bind, pure, Except.pure]
        | cons z ys =>
          rw [List.forall₂_cons, ← ih, hxs, hx]
          simp [bind, Except.bind, pure, Except.pure]

theorem foldlM_concat_eq_ok {ε σ α : Type} {f : σ → α → Except ε σ} {xs : List α} {x : α}
    {s s' : σ} : (xs ++ [x]).foldlM f s = .ok s' ↔
      ∃ s₁, xs.foldlM f s = .ok s₁ ∧ f s₁ x = .ok s' := by
  rw [List.foldlM_append]
  cases xs.foldlM f s with
  | error e => simp [bind, Except.bind]
  | ok s₁ => cases h : f s₁ x <;> simp [bind, Except.bind, pure, Except.pure, h]

/-- What the index of keys answers. -/
theorem keyRows_eq_ok {table : Table} {column : String} {index : Nat} {rows : KeyRows}
    (h : keyRows table column index = .ok rows) (key : Key) (row : Nat) :
    rows[key]? = some row ↔ row < table.rowCount ∧ Key.ofValue (table.cell row index) = key := by
  unfold keyRows at h
  generalize table.rowCount = n at h ⊢
  induction n generalizing rows row with
  | zero =>
    obtain rfl := Except.ok.inj h
    simp
  | succ n ih =>
    rw [List.range_succ, foldlM_concat_eq_ok] at h
    obtain ⟨before, hbefore, hlast⟩ := h
    have hold (row : Nat) := ih row hbefore
    dsimp only at hlast
    split at hlast
    · cases hlast
    · next hnew =>
      obtain rfl := Except.ok.inj hlast
      rw [Std.HashMap.getElem?_insert]
      by_cases hkey : Key.ofValue (table.cell n index) = key
      · subst hkey
        -- A key that comes again has been refused.
        have hfree (row : Nat) : before[Key.ofValue (table.cell n index)]? ≠ some row := by
          intro hin
          exact hnew (by rw [Std.HashMap.contains_eq_isSome_getElem?, hin]; rfl)
        rw [if_pos (beq_self_eq_true _), Option.some.injEq]
        constructor
        · rintro rfl
          exact ⟨Nat.lt_succ_self n, rfl⟩
        · rintro ⟨hlt, hsame⟩
          by_contra hne
          exact hfree row ((hold row).2 ⟨by omega, hsame⟩)
      · rw [if_neg (by simpa using hkey), hold row]
        refine and_congr_left fun hsame => ?_
        have : row ≠ n := by
          rintro rfl
          exact hkey hsame
        omega

section Parents

variable {table : Table} {column : String} {rows : KeyRows} {key parent : Nat}
  {parents : List (Option Nat)}

theorem find?_key (hrows : keyRows table column key = .ok rows) (k : Key) :
    (List.range table.rowCount).find? (fun row => Key.ofValue (table.cell row key) = k) =
      rows[k]? := by
  cases hfind : (List.range table.rowCount).find? _ with
  | some row =>
    have hsame := List.find?_some hfind
    have hmem := List.mem_of_find?_eq_some hfind
    exact ((keyRows_eq_ok hrows k row).2 ⟨by simpa using hmem, by simpa using hsame⟩).symm
  | none =>
    refine (Option.eq_none_iff_forall_ne_some.2 fun row hrow => ?_).symm
    obtain ⟨hlt, hsame⟩ := (keyRows_eq_ok hrows k row).1 hrow
    simpa [hsame] using List.find?_eq_none.1 hfind row (List.mem_range.2 hlt)

/-- The rows above, as the builder finds them. -/
theorem parentRows_eq_ok (hrows : keyRows table column key = .ok rows)
    (h : parentRows table rows key parent = .ok parents) :
    parents = (List.range table.rowCount).map (table.rowAbove? key parent) := by
  rw [parentRows, mapM_eq_ok_iff] at h
  rw [eq_comm, ← List.forall₂_eq_eq_eq, List.forall₂_map_left_iff]
  refine h.imp fun row above habove => ?_
  dsimp only at habove
  rw [Table.rowAbove?, find?_key hrows]
  split at habove
  · next hnull => rw [if_pos hnull, Except.ok.inj habove]
  · next hnull =>
    rw [if_neg hnull]
    split at habove
    · next found hfound => rw [hfound, Except.ok.inj habove]
    · cases habove

end Parents

end CubeQuery
