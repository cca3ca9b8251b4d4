import CubeQuery.Proofs.Assembly.Paths
import CubeQuery.Query.SetFunctions
import Mathlib.Data.List.Nodup
import Mathlib.Data.Nat.Init

/-!
Sets without repetitions. Taking each tuple once, at its first place, may be done at any time:
before or after tuples are left out, renamed or put behind others. Unions and differences therefore
obey the laws of sets, order included.
-/

namespace CubeQuery

/-! ### Lists without repetitions -/

section EraseDups

/-- The recursion by which repetitions are erased: what follows the first element is dealt with
after all its repetitions have gone. -/
theorem eraseDups_induction {α : Type} [BEq α] {motive : List α → Prop} (nil : motive [])
    (cons : ∀ a l, motive (l.filter fun b => !b == a) → motive (a :: l)) (l : List α) :
    motive l := by
  induction hn : l.length using Nat.strong_induction_on generalizing l with
  | h n ih =>
    cases l with
    | nil => exact nil
    | cons a l =>
      have hshort : (l.filter fun b => !b == a).length < n :=
        hn ▸ Nat.lt_succ_of_le (List.length_filter_le _ _)
      exact cons a l (ih _ hshort _ rfl)

variable {α β : Type} [BEq α] [LawfulBEq α] [BEq β] [LawfulBEq β]

theorem filter_eraseDups (p : α → Bool) (l : List α) :
    l.eraseDups.filter p = (l.filter p).eraseDups := by
  induction l using eraseDups_induction with
  | nil => rfl
  | cons a l ih =>
    rw [List.eraseDups_cons, List.filter_cons, List.filter_cons, ih, List.filter_filter]
    split
    · rw [List.eraseDups_cons, List.filter_filter]
      simp only [Bool.and_comm]
    · rename_i ha
      congr 1
      refine List.filter_congr fun b _ => ?_
      by_cases hba : b = a
      · simp [hba, ha]
      · simp [hba]

theorem eraseDups_map {f : α → β} (hf : Function.Injective f) (l : List α) :
    (l.map f).eraseDups = l.eraseDups.map f := by
  induction l using eraseDups_induction with
  | nil => rfl
  | cons a l ih =>
    have hsame : (fun b => !b == f a) ∘ f = fun b => !b == a := by
      funext b
      show (!f b == f a) = !b == a
      rw [hf.beq_eq]
    rw [List.map_cons, List.eraseDups_cons, List.eraseDups_cons, List.map_cons, List.filter_map,
      hsame, ih]

theorem eraseDups_eq_self {l : List α} (h : l.Nodup) : l.eraseDups = l := by
  induction l with
  | nil => rfl
  | cons a l ih =>
    obtain ⟨ha, hl⟩ := List.nodup_cons.1 h
    have hkept : (l.filter fun b => !b == a) = l :=
      List.filter_eq_self.2 fun b hb => by simpa using fun heq : b = a => ha (heq ▸ hb)
    rw [List.eraseDups_cons, hkept, ih hl]

theorem eraseDups_eraseDups (l : List α) : l.eraseDups.eraseDups = l.eraseDups :=
  eraseDups_eq_self (nodup_eraseDups l)

theorem eraseDups_append_left (a b : List α) :
    (a.eraseDups ++ b).eraseDups = (a ++ b).eraseDups := by
  have hrest : b.removeAll a.eraseDups = b.removeAll a :=
    List.filter_congr fun x _ => by simp [List.mem_eraseDups]
  rw [List.eraseDups_append, List.eraseDups_append, eraseDups_eraseDups, hrest]

theorem eraseDups_append_right (a b : List α) :
    (a ++ b.eraseDups).eraseDups = (a ++ b).eraseDups := by
  rw [List.eraseDups_append, List.eraseDups_append]
  congr 1
  rw [List.removeAll, List.removeAll, filter_eraseDups, eraseDups_eraseDups]

/-- What is left stands in the order of its first places. -/
theorem pairwise_eraseDups (l : List α) :
    l.eraseDups.Pairwise fun a b => l.idxOf a < l.idxOf b := by
  classical
  induction l using List.reverseRecOn with
  | nil => exact .nil
  | append_singleton l x ih =>
    have hold : l.eraseDups.Pairwise fun a b => (l ++ [x]).idxOf a < (l ++ [x]).idxOf b := by
      refine ih.imp_of_mem fun {a b} ha hb hlt => ?_
      rwa [List.idxOf_append_of_mem (List.mem_eraseDups.1 ha),
        List.idxOf_append_of_mem (List.mem_eraseDups.1 hb)]
    rw [eraseDups_concat]
    split
    · exact hold
    · rename_i hx
      refine List.pairwise_append.2 ⟨hold, List.pairwise_singleton _ _, fun a ha b hb => ?_⟩
      obtain rfl := List.mem_singleton.1 hb
      have ha := List.mem_eraseDups.1 ha
      rw [List.idxOf_append_of_mem ha, List.idxOf_append_of_notMem hx, List.idxOf_cons_self]
      exact List.idxOf_lt_length_iff.2 ha

end EraseDups

/-! ### Unions and differences -/

section Sets

variable (a b d : TupleSet)

theorem union_pair : union [a, b] = distinct (a ++ b) := by
  rw [union, List.flatten_cons, List.flatten_cons, List.flatten_nil, List.append_nil]

theorem union_assoc : union [union [a, b], d] = union [a, union [b, d]] := by
  simp only [union_pair, distinct, eraseDups_append_left, eraseDups_append_right, List.append_assoc]

theorem union_self : union [a, a] = distinct a := by
  have hnone : a.removeAll a = [] := List.filter_eq_nil_iff.2 fun t ht => by simpa using ht
  rw [union_pair, distinct, List.eraseDups_append, hnone, List.eraseDups_nil, List.append_nil]
  rfl

theorem except_except : except (except a b) d = except a (b ++ d) := by
  rw [except, except, except, distinct, distinct, distinct, filter_eraseDups, eraseDups_eraseDups,
    List.filter_filter]
  congr 1
  refine List.filter_congr fun t _ => ?_
  simp [Bool.and_comm]

theorem except_union : except (union [a, b]) d = union [except a d, except b d] := by
  rw [union_pair, union_pair]
  simp only [except, distinct, filter_eraseDups, eraseDups_eraseDups, List.filter_append,
    eraseDups_append_left, eraseDups_append_right]

end Sets

end CubeQuery
