import CubeQuery.Cube.Build
import Mathlib.Data.List.Induction

/-!
What the level columns of a dimension table say, apart from any cube. The values of a row form a
path, and the members of a level are the initial parts of these paths, in the order in which they
first appear.
-/

namespace CubeQuery

theorem eraseDups_concat {α : Type} [BEq α] [LawfulBEq α] (xs : List α) (x : α)
    [Decidable (x ∈ xs)] :
    (xs ++ [x]).eraseDups = if x ∈ xs then xs.eraseDups else xs.eraseDups ++ [x] := by
  rw [List.eraseDups_append]
  split <;> simp [List.removeAll, List.eraseDups_cons, *]

theorem nodup_eraseDups {α : Type} [BEq α] [LawfulBEq α] (xs : List α) : xs.eraseDups.Nodup := by
  classical
  induction xs using List.reverseRecOn with
  | nil => simp
  | append_singleton xs x ih =>
    rw [eraseDups_concat]
    split
    · exact ih
    · next hx =>
      have hnew : x ∉ xs.eraseDups := by rwa [List.mem_eraseDups]
      rw [List.nodup_append]
      exact ⟨ih, by simp, by simpa using fun y hy (heq : y = x) => hnew (heq ▸ hy)⟩

namespace Table

variable (t : Table) (columns : List Nat)

/-- The values of a row in some columns. Null and the text that captions show for it are one
value. -/
def valuePath (row : Nat) : List Key :=
  columns.map fun column => levelKey (t.cell row column)

/-- The different paths of so many values in the first rows, in the order in which they appear. -/
def pathsIn (rows depth : Nat) : List (List Key) :=
  ((List.range rows).map fun row => (t.valuePath columns row).take depth).eraseDups

variable {t columns} {rows depth : Nat}

@[simp] theorem pathsIn_zero : t.pathsIn columns 0 depth = [] := rfl

theorem pathsIn_succ : t.pathsIn columns (rows + 1) depth =
    if (t.valuePath columns rows).take depth ∈ t.pathsIn columns rows depth then
      t.pathsIn columns rows depth
    else t.pathsIn columns rows depth ++ [(t.valuePath columns rows).take depth] := by
  unfold pathsIn
  rw [List.range_succ, List.map_append, List.map_singleton, eraseDups_concat]
  simp only [List.mem_eraseDups]

theorem nodup_pathsIn : (t.pathsIn columns rows depth).Nodup :=
  nodup_eraseDups _

theorem length_valuePath {row : Nat} : (t.valuePath columns row).length = columns.length := by
  simp [valuePath]

theorem take_valuePath_succ {row i : Nat} (hi : i < columns.length) :
    (t.valuePath columns row).take (i + 1) =
      (t.valuePath columns row).take i ++ [levelKey (t.cell row columns[i])] := by
  rw [List.take_succ_eq_append_getElem (by simpa [length_valuePath] using hi)]
  simp [valuePath]

end Table

end CubeQuery
