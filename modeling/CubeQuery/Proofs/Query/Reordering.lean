import CubeQuery.Proofs.Query.Hierarchizing
import CubeQuery.Proofs.Query.Renaming
import CubeQuery.Proofs.Query.Repetitions

/-!
Sets that hold the same tuples in different orders. Where calculated members stand among others
depends on the order of their definitions; how tuples that hold the same calculated members follow
each other does not. The set functions keep this, and a set with one tuple leaves nothing open.
-/

namespace CubeQuery

open CubeQuery.Language

/-! ### Lineups -/

/-- The place among the calculated members, of an element that is one. -/
def Element.index? : Element → Option ℕ
  | .calculated i => some i
  | _ => none

/-- Which calculated members a tuple holds, and at which positions. -/
def lineup (t : Tuple) : List (Option ℕ) :=
  t.map Element.index?

/-- The tuples of a set with a certain lineup. -/
def aligned (π : List (Option ℕ)) (set : TupleSet) : TupleSet :=
  set.filter fun t => lineup t = π

/-- The second set has the tuples of the first, renamed; those with the same lineup stand in the
same order. -/
def Mirrors (σ : Equiv.Perm ℕ) (a a' : TupleSet) : Prop :=
  ∀ π, aligned (π.map (Option.map σ)) a' = (aligned π a).map (List.map (Element.renamed σ))

variable {σ : Equiv.Perm ℕ} {c : Cube} {s s' : Scope} {a a' b b' : TupleSet} {t u : Tuple}
  {e : Element} {π : List (Option ℕ)}

theorem lineup_append : lineup (t ++ u) = lineup t ++ lineup u :=
  List.map_append

theorem lineup_renamed (t : Tuple) :
    lineup (t.map (Element.renamed σ)) = (lineup t).map (Option.map σ) := by
  rw [lineup, lineup, List.map_map, List.map_map]
  refine List.map_congr_left fun e _ => ?_
  cases e <;> rfl

theorem lineup_renamed_iff :
    lineup (t.map (Element.renamed σ)) = π.map (Option.map σ) ↔ lineup t = π := by
  rw [lineup_renamed]
  exact (List.map_injective_iff.2 (Option.map_injective σ.injective)).eq_iff

theorem mem_aligned : t ∈ aligned π a ↔ t ∈ a ∧ lineup t = π := by
  rw [aligned, List.mem_filter, decide_eq_true_iff]

theorem aligned_append : aligned π (a ++ b) = aligned π a ++ aligned π b :=
  List.filter_append a b

theorem aligned_cons_pos (h : lineup t = π) : aligned π (t :: a) = t :: aligned π a :=
  List.filter_cons_of_pos (decide_eq_true h)

theorem aligned_cons_neg (h : lineup t ≠ π) : aligned π (t :: a) = aligned π a :=
  List.filter_cons_of_neg (by simpa using h)

theorem aligned_eq_nil (h : ∀ t ∈ a, lineup t ≠ π) : aligned π a = [] :=
  List.filter_eq_nil_iff.2 fun t ht => by simpa using h t ht

theorem aligned_eq_self (h : ∀ t ∈ a, lineup t = π) : aligned π a = a :=
  List.filter_eq_self.2 fun t ht => decide_eq_true (h t ht)

theorem aligned_renamed : aligned (π.map (Option.map σ)) (a.map (List.map (Element.renamed σ))) =
    (aligned π a).map (List.map (Element.renamed σ)) := by
  rw [aligned, aligned, List.filter_map]
  congr 1
  refine List.filter_congr fun t _ => ?_
  simp only [Function.comp_apply, lineup_renamed_iff]

theorem mem_renamed : t.map (Element.renamed σ) ∈ a.map (List.map (Element.renamed σ)) ↔ t ∈ a :=
  List.mem_map_of_injective renamed_injective

/-! ### Sets that mirror each other -/

theorem mirrors_renamed (a : TupleSet) : Mirrors σ a (a.map (List.map (Element.renamed σ))) :=
  fun _ => aligned_renamed

namespace Mirrors

theorem mem_iff (h : Mirrors σ a a') : t.map (Element.renamed σ) ∈ a' ↔ t ∈ a := by
  have hclass : t.map (Element.renamed σ) ∈ aligned ((lineup t).map (Option.map σ)) a' ↔
      t.map (Element.renamed σ) ∈ (aligned (lineup t) a).map (List.map (Element.renamed σ)) := by
    rw [h]
  rwa [mem_renamed, mem_aligned, mem_aligned, and_iff_left (lineup_renamed t),
    and_iff_left rfl] at hclass

theorem exists_of_mem (h : Mirrors σ a a') (hu : u ∈ a') :
    ∃ t ∈ a, u = t.map (Element.renamed σ) := by
  refine ⟨u.map (Element.renamed σ.symm), h.mem_iff.1 ?_, (renamed_symm u).symm⟩
  rwa [renamed_symm]

theorem append (ha : Mirrors σ a a') (hb : Mirrors σ b b') : Mirrors σ (a ++ b) (a' ++ b') := by
  intro π
  rw [aligned_append, aligned_append, ha, hb, List.map_append]

theorem flatten {sets sets' : List TupleSet} (h : List.Forall₂ (Mirrors σ) sets sets') :
    Mirrors σ sets.flatten sets'.flatten := by
  induction h with
  | nil => exact mirrors_renamed []
  | cons hfirst _ ih => exact hfirst.append ih

theorem filter (h : Mirrors σ a a') {p p' : Tuple → Bool}
    (hp : ∀ t ∈ a, p' (t.map (Element.renamed σ)) = p t) :
    Mirrors σ (a.filter p) (a'.filter p') := by
  intro π
  have hclass (p : Tuple → Bool) (π : List (Option ℕ)) (a : TupleSet) :
      aligned π (a.filter p) = (aligned π a).filter p := by
    rw [aligned, aligned, List.filter_filter, List.filter_filter]
    simp only [Bool.and_comm]
  rw [hclass, hclass, h, List.filter_map]
  congr 1
  exact List.filter_congr fun t ht => hp t (mem_aligned.1 ht).1

theorem distinct (h : Mirrors σ a a') : Mirrors σ (distinct a) (distinct a') := by
  intro π
  have hclass := h π
  unfold aligned at hclass ⊢
  rw [CubeQuery.distinct, CubeQuery.distinct, filter_eraseDups, filter_eraseDups, hclass,
    eraseDups_map renamed_injective]

theorem union {sets sets' : List TupleSet} (h : List.Forall₂ (Mirrors σ) sets sets') :
    Mirrors σ (union sets) (union sets') :=
  (flatten h).distinct

theorem except (ha : Mirrors σ a a') (hb : Mirrors σ b b') :
    Mirrors σ (except a b) (except a' b') := by
  refine distinct (ha.filter fun t _ => ?_)
  rw [Bool.eq_iff_iff]
  simp [hb.mem_iff]

/-- Where all tuples have the same lineup, all stand in the same order. -/
theorem eq_renamed (h : Mirrors σ a a') (hlineup : ∀ t ∈ a, lineup t = π) :
    a' = a.map (List.map (Element.renamed σ)) := by
  have hlineup' : ∀ u ∈ a', lineup u = π.map (Option.map σ) := by
    intro u hu
    obtain ⟨t, ht, rfl⟩ := h.exists_of_mem hu
    rw [lineup_renamed, hlineup t ht]
  rw [← aligned_eq_self hlineup', h, aligned_eq_self hlineup]

theorem of_singleton (h : Mirrors σ [t] [u]) : u = t.map (Element.renamed σ) :=
  (List.mem_singleton.1 (h.mem_iff.2 (List.mem_singleton_self t))).symm

/-- Tuples that are told apart by their lineups may stand anywhere. -/
theorem of_apart (ha : a.Nodup) (ha' : a'.Nodup)
    (hmem : ∀ t, t.map (Element.renamed σ) ∈ a' ↔ t ∈ a)
    (hapart : ∀ t ∈ a, ∀ u ∈ a, lineup t = lineup u → t = u) : Mirrors σ a a' := by
  intro π
  have hnodup : ((aligned π a).map (List.map (Element.renamed σ))).Nodup :=
    (ha.filter _).map renamed_injective
  have hperm : (aligned (π.map (Option.map σ)) a').Perm
      ((aligned π a).map (List.map (Element.renamed σ))) := by
    refine (List.perm_ext_iff_of_nodup (ha'.filter _) hnodup).2 fun u => ?_
    obtain ⟨t, rfl⟩ : ∃ t : Tuple, t.map (Element.renamed σ) = u := ⟨_, renamed_symm u⟩
    exact mem_aligned.trans
      ((and_congr (hmem t) lineup_renamed_iff).trans (mem_aligned.symm.trans mem_renamed.symm))
  -- There is one such tuple at most, so that the order does not matter.
  have hany (l : TupleSet) : l.Pairwise fun _ _ => True :=
    List.pairwise_of_forall fun _ _ => trivial
  refine hperm.eq_of_pairwise (fun t u ht hu _ _ => ?_) (hany _) (hany _)
  obtain ⟨v, hv, rfl⟩ := List.mem_map.1 (hperm.mem_iff.1 ht)
  obtain ⟨w, hw, rfl⟩ := List.mem_map.1 hu
  obtain ⟨hv, hlv⟩ := mem_aligned.1 hv
  obtain ⟨hw, hlw⟩ := mem_aligned.1 hw
  rw [hapart v hv w hw (hlv.trans hlw.symm)]

/-! ### Products -/

/-- A joined tuple has the lineups of its parts, which are as long as the parts. -/
theorem aligned_product {n : ℕ} (hlength : ∀ l ∈ a, l.length = n) :
    aligned π (Context.product a b) =
      Context.product (aligned (π.take n) a) (aligned (π.drop n) b) := by
  induction a with
  | nil => rfl
  | cons l a ih =>
    obtain ⟨hl, ha⟩ := List.forall_mem_cons.1 hlength
    have hjoined (r : Tuple) : lineup (l ++ r) = π ↔ lineup l = π.take n ∧ lineup r = π.drop n := by
      have hlen : (lineup l).length = n := by rw [lineup, List.length_map, hl]
      rw [lineup_append]
      constructor
      · rintro rfl
        rw [← hlen, List.take_left, List.drop_left]
        exact ⟨rfl, rfl⟩
      · rintro ⟨hleft, hright⟩
        rw [hleft, hright, List.take_append_drop]
    have hcons : aligned π (Context.product (l :: a) b) =
        aligned π (b.map fun r => l ++ r) ++ aligned π (Context.product a b) :=
      aligned_append
    rw [hcons, ih ha]
    -- A tuple on the left decides for all its pairs whether they may be of the lineup.
    by_cases hleft : lineup l = π.take n
    · have hright : aligned π (b.map fun r => l ++ r) =
          (aligned (π.drop n) b).map fun r => l ++ r := by
        rw [aligned, List.filter_map]
        congr 1
        exact List.filter_congr fun r _ => by simp [hjoined, hleft]
      rw [hright, aligned_cons_pos hleft]
      rfl
    · have hnone : aligned π (b.map fun r => l ++ r) = [] := by
        refine aligned_eq_nil fun t ht => ?_
        obtain ⟨r, -, rfl⟩ := List.mem_map.1 ht
        exact fun h => hleft ((hjoined r).1 h).1
      rw [hnone, aligned_cons_neg hleft]
      rfl

theorem product_renamed : Context.product (a.map (List.map (Element.renamed σ)))
    (b.map (List.map (Element.renamed σ))) =
      (Context.product a b).map (List.map (Element.renamed σ)) := by
  rw [Context.product, Context.product, List.flatMap_map, List.map_flatMap]
  refine List.flatMap_congr fun l _ => ?_
  rw [List.map_map, List.map_map]
  exact List.map_congr_left fun r _ => List.map_append.symm

theorem product {n : ℕ} (ha : Mirrors σ a a') (hb : Mirrors σ b b')
    (hlength : ∀ l ∈ a, l.length = n) :
    Mirrors σ (Context.product a b) (Context.product a' b') := by
  intro π
  have hlength' : ∀ l ∈ a', l.length = n := by
    intro l hl
    obtain ⟨t, ht, rfl⟩ := ha.exists_of_mem hl
    rw [List.length_map, hlength t ht]
  rw [aligned_product hlength', aligned_product hlength, ← List.map_take, ← List.map_drop, ha, hb,
    product_renamed]

end Mirrors

end CubeQuery
