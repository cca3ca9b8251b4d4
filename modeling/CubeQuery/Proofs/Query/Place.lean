import CubeQuery.Proofs.Query.Transparency
import CubeQuery.Proofs.Query.Uniform
import CubeQuery.Query.Grid
import Mathlib.Data.List.Sort

/-!
Coordinates as functions of facets. A coordinate lists its facets in ascending order, so that it is
determined by the choice for each facet; members that are put into it override what their facets
contributed and leave the other facets alone. In what order members on different facets are put does
not matter.
-/

namespace CubeQuery

theorem Facet.rank_injective {f g : Facet} (h : f.rank = g.rank) : f = g := by
  cases f with
  | measures =>
    cases g with
    | measures => rfl
    | hierarchy j => cases h
  | hierarchy i =>
    cases g with
    | measures => cases h
    | hierarchy j =>
      obtain ⟨i⟩ := i
      obtain ⟨j⟩ := j
      obtain rfl : i = j := Nat.succ.inj h
      rfl

namespace Coordinate

/-- Facets stand in ascending order, each at most once. -/
def Ascending (coordinate : Coordinate) : Prop :=
  coordinate.Pairwise fun x y => x.1.rank < y.1.rank

variable {coordinate : Coordinate} {f g : Facet} {choice : Choice}

@[simp] theorem choice?_nil : choice? f [] = none := rfl

theorem choice?_cons : choice? f ((g, choice) :: coordinate) =
    if f = g then some choice else choice? f coordinate := by
  rw [choice?, List.lookup_cons]
  by_cases h : f = g
  · rw [if_pos h, beq_iff_eq.2 h]
  · rw [if_neg h, beq_eq_false_iff_ne.2 h]
    rfl

theorem choice?_put : (coordinate.put g choice).choice? f =
    if f = g then some choice else coordinate.choice? f := by
  induction coordinate with
  | nil => exact choice?_cons
  | cons slot rest ih =>
    obtain ⟨other, old⟩ := slot
    rw [put]
    split
    · exact choice?_cons
    · split
      · rename_i heq
        subst heq
        rw [choice?_cons, choice?_cons]
        split <;> rfl
      · rename_i hne
        rw [choice?_cons, choice?_cons, ih]
        by_cases hf : f = other
        · rw [if_pos hf, if_pos hf, if_neg]
          rintro rfl
          exact hne hf
        · rw [if_neg hf, if_neg hf]

theorem Ascending.put (h : coordinate.Ascending) : (coordinate.put g choice).Ascending := by
  induction coordinate with
  | nil => exact List.pairwise_singleton _ _
  | cons slot rest ih =>
    obtain ⟨other, old⟩ := slot
    obtain ⟨hbelow, hrest⟩ := List.pairwise_cons.1 h
    rw [Coordinate.put]
    split
    · rename_i hlt
      refine List.pairwise_cons.2 ⟨fun slot hslot => ?_, h⟩
      rcases List.mem_cons.1 hslot with rfl | hslot
      · exact hlt
      · exact Nat.lt_trans hlt (hbelow slot hslot)
    · split
      · rename_i heq
        subst heq
        exact List.pairwise_cons.2 ⟨hbelow, hrest⟩
      · rename_i hge hne
        refine List.pairwise_cons.2 ⟨fun slot hslot => ?_, ih hrest⟩
        rcases mem_put hslot with rfl | hslot
        · have hranks : other.rank ≠ g.rank := fun h => hne (Facet.rank_injective h.symm)
          show other.rank < g.rank
          omega
        · exact hbelow slot hslot

theorem Ascending.choice?_eq_some (h : coordinate.Ascending) :
    coordinate.choice? f = some choice ↔ (f, choice) ∈ coordinate := by
  induction coordinate with
  | nil => simp
  | cons slot rest ih =>
    obtain ⟨g, first⟩ := slot
    obtain ⟨hbelow, hrest⟩ := List.pairwise_cons.1 h
    rw [choice?_cons, List.mem_cons, Prod.mk.injEq]
    split
    · rename_i heq
      subst heq
      constructor
      · exact fun hsome => .inl ⟨rfl, (Option.some.inj hsome).symm⟩
      · rintro (⟨-, rfl⟩ | hmem)
        · rfl
        · exact absurd (hbelow _ hmem) (Nat.lt_irrefl _)
    · rename_i hne
      rw [ih hrest]
      exact ⟨.inr, fun hor => hor.resolve_left fun heq => hne heq.1⟩

/-- A coordinate is determined by the choice for each facet. -/
theorem Ascending.ext {other : Coordinate} (h : coordinate.Ascending) (h' : other.Ascending)
    (hsame : ∀ f, coordinate.choice? f = other.choice? f) : coordinate = other := by
  refine List.Pairwise.eq_of_mem_iff h h' fun ⟨f, choice⟩ => ?_
  rw [← h.choice?_eq_some, ← h'.choice?_eq_some, hsame]

end Coordinate

/-! ### Members that are put into a coordinate -/

namespace Context

variable {ctx : Context} {base : Coordinate} {t u : Tuple}

theorem place_cons (e : Element) :
    ctx.place base (e :: t) = ctx.place (base.put (ctx.facetOf e) (.one e)) t :=
  rfl

theorem ascending_place (h : base.Ascending) : (ctx.place base t).Ascending := by
  induction t generalizing base with
  | nil => exact h
  | cons e rest ih => exact ih h.put

theorem find?_facet {f : Facet} {e : Element} (hnodup : (ctx.facets t).Nodup) :
    (t.find? fun x => ctx.facetOf x = f) = some e ↔ e ∈ t ∧ ctx.facetOf e = f := by
  induction t with
  | nil => simp
  | cons x rest ih =>
    obtain ⟨hx, hrest⟩ := List.nodup_cons.1 hnodup
    rw [List.find?_cons]
    by_cases hf : ctx.facetOf x = f
    · rw [decide_eq_true hf, List.mem_cons]
      constructor
      · rintro ⟨⟩
        exact ⟨.inl rfl, hf⟩
      · rintro ⟨rfl | hmem, he⟩
        · rfl
        · exact absurd (List.mem_map.2 ⟨e, hmem, he.trans hf.symm⟩) hx
    · rw [decide_eq_false hf, List.mem_cons]
      dsimp only
      rw [ih hrest]
      refine and_congr_left fun he => ?_
      constructor
      · exact .inr
      · rintro (rfl | hmem)
        · exact absurd he hf
        · exact hmem

/-- Each facet has the member that lies on it, and what it had before if there is none. -/
theorem choice?_place (hnodup : (ctx.facets t).Nodup) (f : Facet) :
    (ctx.place base t).choice? f =
      ((t.find? fun e => ctx.facetOf e = f).map .one).or (base.choice? f) := by
  induction t generalizing base with
  | nil => rfl
  | cons e rest ih =>
    obtain ⟨he, hrest⟩ := List.nodup_cons.1 hnodup
    rw [place_cons, ih hrest, Coordinate.choice?_put, List.find?_cons]
    by_cases hf : ctx.facetOf e = f
    · have hnone : (rest.find? fun x => ctx.facetOf x = f) = none := by
        rw [List.find?_eq_none]
        intro x hx hxf
        exact he (List.mem_map.2 ⟨x, hx, (of_decide_eq_true hxf).trans hf.symm⟩)
      rw [hnone, if_pos hf.symm, decide_eq_true hf]
      rfl
    · rw [if_neg (Ne.symm hf), decide_eq_false hf]

/-- Members on different facets do not get in each other's way, so that only the set of them
counts. -/
theorem place_congr (hbase : base.Ascending) (ht : (ctx.facets t).Nodup)
    (hu : (ctx.facets u).Nodup) (hsame : ∀ e, e ∈ t ↔ e ∈ u) :
    ctx.place base t = ctx.place base u := by
  refine (ascending_place hbase).ext (ascending_place hbase) fun f => ?_
  rw [choice?_place ht, choice?_place hu]
  congr 2
  refine Option.ext fun e => ?_
  rw [find?_facet ht, find?_facet hu, hsame]

/-! ### The coordinate of the slicer -/

theorem pairwise_facetsOf (es : List Element) :
    (ctx.facetsOf es).Pairwise fun f g => f.rank < g.rank := by
  have hsorted : (ctx.facetsOf es).Pairwise fun f g => (decide (f.rank ≤ g.rank)) = true :=
    List.pairwise_mergeSort (fun _ _ _ h h' => by simp at *; omega)
      (fun _ _ => by simp; omega) _
  have hnodup : (ctx.facetsOf es).Nodup :=
    (List.mergeSort_perm _ _).nodup_iff.2 (nodup_eraseDups _)
  refine (hsorted.and hnodup).imp fun {f g} h => ?_
  exact Nat.lt_of_le_of_ne (of_decide_eq_true h.1) fun heq => h.2 (Facet.rank_injective heq)

/-- Each facet of the slicer, in their order, contributes what its members come to. -/
theorem forall₂_slicerCoordinate {set : TupleSet} (h : ctx.slicerCoordinate set = .ok base) :
    List.Forall₂ (fun facet slot => slot.1 = facet ∧ ctx.slicerChoice facet
        (set.flatten.eraseDups.filter fun e => ctx.facetOf e = facet) = .ok slot.2)
      (ctx.facetsOf set.flatten.eraseDups) base := by
  unfold slicerCoordinate at h
  rw [mapM_eq_ok_iff] at h
  refine h.imp fun facet slot hslot => ?_
  obtain ⟨choice, hchoice, heq⟩ := bind_eq_ok_iff.1 hslot
  obtain rfl := Except.ok.inj heq
  exact ⟨rfl, hchoice⟩

theorem ascending_slicerCoordinate {set : TupleSet} (h : ctx.slicerCoordinate set = .ok base) :
    base.Ascending := by
  have hfacets : base.map (·.1) = ctx.facetsOf set.flatten.eraseDups := by
    rw [← List.forall₂_eq_eq_eq, List.forall₂_map_left_iff]
    exact List.Forall₂.flip ((forall₂_slicerCoordinate h).imp fun _ _ hslot => hslot.1)
  have hpairwise := ctx.pairwise_facetsOf set.flatten.eraseDups
  rw [← hfacets, List.pairwise_map] at hpairwise
  exact hpairwise

end Context

end CubeQuery
