import CubeQuery.Proofs.Query.Copies
import CubeQuery.Proofs.Query.Mirroring

/-!
Calculated members that are added to sets which mirror each other. They are added in the order of
their definitions, each as a copy of the last tuple with a sibling. Which tuple is copied does not
show where tuples have one member; and it is the same tuple in both sets where the members are added
on one facet, to tuples that all stand in the same order.
-/

namespace CubeQuery

open CubeQuery.Language Context

variable {σ : Equiv.Perm ℕ} {c : Cube} {s s' : Scope} {ctx : Context} {a a' set : TupleSet}
  {t : Tuple} {e x : Element} {π : List (Option ℕ)} {fs : List Facet} {p i : ℕ}

/-- The order in which calculated members are added to the set does not show: its tuples have one
member at most, or those that find a place lie on one facet, where the tuples do not differ in the
calculated members that they hold. -/
def Context.OrderFree (ctx : Context) (set : TupleSet) : Prop :=
  (∀ t ∈ set, t.length ≤ 1) ∨
    ∀ t ∈ set, ∀ i < ctx.scope.members.size, ∀ j < ctx.scope.members.size,
      ctx.Eligible (ctx.facets t) set i → ctx.Eligible (ctx.facets t) set j →
        ctx.facetOf (.calculated i) = ctx.facetOf (.calculated j) ∧
          ∀ u ∈ set, lineup u = lineup t

/-! ### Members that find a place -/

theorem getElem?_renamed :
    (t.map (Element.renamed σ))[p]? = some (e.renamed σ) ↔ t[p]? = some e := by
  rw [List.getElem?_map, ← Option.map_some]
  exact (Option.map_injective Element.renamed_injective).eq_iff

theorem Renames.siblings_iff (hr : Renames σ s s') :
    Siblings ⟨c, s'⟩ (e.renamed σ) (x.renamed σ) ↔ Siblings ⟨c, s⟩ e x := by
  unfold Siblings
  rw [hr.parentOf?, hr.parentOf?, hr.facetOf, hr.facetOf]

theorem Renames.isSibling (hr : Renames σ s s') (m : CalculatedMember) (e : Element) :
    isSibling ⟨c, s'⟩ m (e.renamed σ) = isSibling ⟨c, s⟩ m e := by
  unfold Context.isSibling
  rw [hr.parentOf?, hr.facetOf]

/-- A member finds a place in one set if it does in the other. -/
theorem Mirrors.eligible_iff (h : Mirrors σ a a') (hr : Renames σ s s') :
    Eligible ⟨c, s'⟩ fs a' (σ i) ↔ Eligible ⟨c, s⟩ fs a i := by
  have hfacet : facetOf ⟨c, s'⟩ (.calculated (σ i)) = facetOf ⟨c, s⟩ (.calculated i) :=
    hr.facetOf (.calculated i)
  unfold Eligible
  rw [hfacet]
  refine exists_congr fun p => and_congr_right fun _ => and_congr ?_ ?_
  · constructor
    · intro habsent t ht hat
      exact habsent _ (h.mem_iff.2 ht) (getElem?_renamed.2 hat)
    · intro habsent u hu hat
      obtain ⟨t, ht, rfl⟩ := h.exists_of_mem hu
      exact habsent t ht (getElem?_renamed (e := .calculated i).1 hat)
  · constructor
    · rintro ⟨u, hu, y, hy, hsiblings⟩
      obtain ⟨t, ht, rfl⟩ := h.exists_of_mem hu
      obtain ⟨x, rfl⟩ : ∃ x : Element, x.renamed σ = y := ⟨_, y.renamed_symm⟩
      exact ⟨t, ht, x, getElem?_renamed.1 hy, hr.siblings_iff (e := .calculated i).1 hsiblings⟩
    · rintro ⟨t, ht, x, hx, hsiblings⟩
      exact ⟨_, h.mem_iff.2 ht, _, getElem?_renamed.2 hx,
        hr.siblings_iff (e := .calculated i).2 hsiblings⟩

/-! ### Tuples of one member -/

section Lone

variable {entries : List Entry} {entry : Entry}

/-- A tuple that has been put in for a member consists of it. -/
theorem Context.Added.eq_calculated (h : ctx.Added fs set ctx.scope.members.size entries)
    (hlength : fs.length ≤ 1) (hspans : ctx.Spans fs (entries.map Prod.fst))
    (hentry : entry ∈ entries) (hnew : entry.2 = some i) : entry.1 = [.calculated i] := by
  obtain ⟨n, hn⟩ := List.mem_iff_getElem?.1 hentry
  obtain ⟨m, host, -, hhost, hbehind⟩ := h.exists_host hn hnew
  obtain ⟨p, x, hp, hx, -, -, hset⟩ := hbehind i hnew
  have hone (u : Entry) (hu : u ∈ entries) : u.1.length ≤ 1 := by
    have := congrArg List.length (hspans u.1 (List.mem_map_of_mem hu))
    rw [facets, List.length_map] at this
    omega
  have hlt := (List.getElem?_eq_some_iff.1 hx).1
  have hhostOne := hone host (List.mem_of_getElem? hhost)
  obtain rfl : p = 0 := by omega
  obtain ⟨y, hy⟩ := List.length_eq_one_iff.1 (show host.1.length = 1 by omega)
  rw [hset, hy]
  rfl

theorem lineup_eq_singleton : lineup t = [some i] ↔ t = [.calculated i] := by
  constructor
  · intro h
    obtain ⟨e, rfl, he⟩ := List.map_eq_singleton_iff.1 h
    cases e with
    | calculated j => rw [Option.some.inj he]
    | member _ => cases he
    | measure _ => cases he
  · rintro rfl
    rfl

/-- What was in the set keeps its order. -/
theorem Context.Added.aligned_old (h : ctx.Added fs set ctx.scope.members.size entries)
    (hlength : fs.length ≤ 1) (hspans : ctx.Spans fs (entries.map Prod.fst))
    (hnone : ∀ i ∈ newMembers entries, π ≠ [some i]) :
    aligned π (entries.map Prod.fst) = aligned π set := by
  rw [← h.kept, aligned, aligned, List.filter_map, List.filter_map, List.filter_filter]
  congr 1
  refine List.filter_congr fun entry hentry => ?_
  cases hnew : entry.2 with
  | none => simp
  | some i =>
    have hother : lineup entry.1 ≠ π := by
      rw [h.eq_calculated hlength hspans hentry hnew]
      exact (hnone i (List.mem_filterMap.2 ⟨entry, hentry, hnew⟩)).symm
    simp [hother]

/-- A member that has found a place stands in one tuple: no tuple of the set holds it, and it has
been put in once. -/
theorem Context.Added.aligned_new (h : ctx.Added fs set ctx.scope.members.size entries)
    (hlength : fs.length ≤ 1) (hspans : ctx.Spans fs (entries.map Prod.fst))
    (hi : i ∈ newMembers entries) :
    aligned [some i] (entries.map Prod.fst) = [[.calculated i]] := by
  obtain ⟨-, p, hp, habsent, -⟩ := (h.added i).1 hi
  obtain rfl : p = 0 := by
    have := (List.getElem?_eq_some_iff.1 hp).1
    omega
  obtain ⟨entry, hentry, hnew⟩ := List.mem_filterMap.1 hi
  have hcalculated := h.eq_calculated hlength hspans hentry hnew
  -- Whatever holds the member alone is its own entry, as no tuple of the set holds it.
  have heq : ∀ other ∈ entries.filter fun other => lineup other.1 = [some i],
      other = ([.calculated i], some i) := by
    intro other hother
    obtain ⟨hother, hlineup⟩ := List.mem_filter.1 hother
    have hfirst := lineup_eq_singleton.1 (of_decide_eq_true hlineup)
    cases hsecond : other.2 with
    | none =>
      refine absurd ?_ (habsent other.1 (h.mem_of_old hother hsecond))
      rw [hfirst]
      rfl
    | some j =>
      have hj := h.eq_calculated hlength hspans hother hsecond
      rw [hfirst, List.singleton_inj, Element.calculated.injEq] at hj
      exact Prod.ext hfirst (hj ▸ hsecond)
  have honce : (entries.filter fun other => lineup other.1 = [some i]).length ≤ 1 := by
    have hnodup : (newMembers (entries.filter fun other => lineup other.1 = [some i])).Nodup :=
      (List.filter_sublist.filterMap Prod.snd).nodup h.once
    rw [List.eq_replicate_of_mem heq] at hnodup
    simpa [newMembers] using hnodup
  have hmem : entry ∈ entries.filter fun other => lineup other.1 = [some i] :=
    List.mem_filter.2 ⟨hentry, by simp [hcalculated, lineup_eq_singleton]⟩
  obtain ⟨other, hother⟩ :=
    List.length_eq_one_iff.1 (Nat.le_antisymm honce (List.length_pos_of_mem hmem))
  rw [aligned, List.filter_map]
  change (entries.filter fun other => lineup other.1 = [some i]).map Prod.fst = _
  rw [hother, heq other (hother ▸ List.mem_singleton_self other)]
  rfl

theorem Mirrors.addCalculatedMembers_lone (h : Mirrors σ a a') (hr : Renames σ s s')
    (hfits : Fits ⟨c, s⟩) (hfits' : Fits ⟨c, s'⟩) (hhas : HasSet ⟨c, s⟩ a) (hnodup : fs.Nodup)
    (hspans : Spans ⟨c, s⟩ fs a) (hlength : fs.length ≤ 1) :
    Mirrors σ (addCalculatedMembers ⟨c, s⟩ a) (addCalculatedMembers ⟨c, s'⟩ a') := by
  have hspans' : Spans ⟨c, s'⟩ fs a' := h.spans hr hspans
  obtain ⟨entries, heq, hadded⟩ := exists_added hfits hnodup hhas (Nat.le_refl _)
  obtain ⟨entries', heq', hadded'⟩ :=
    exists_added hfits' hnodup (h.hasSet hr hhas) (Nat.le_refl _)
  rw [← addCalculatedMembers_eq hspans] at heq
  rw [← addCalculatedMembers_eq hspans'] at heq'
  have hall : Spans ⟨c, s⟩ fs (entries.map Prod.fst) := heq ▸ spans_addCalculatedMembers hspans
  have hall' : Spans ⟨c, s'⟩ fs (entries'.map Prod.fst) :=
    heq' ▸ spans_addCalculatedMembers hspans'
  have hnew (i : ℕ) : σ i ∈ newMembers entries' ↔ i ∈ newMembers entries := by
    rw [hadded.added, hadded'.added, h.eligible_iff hr]
    exact and_congr_left fun _ => hr.lt_size_iff
  rw [heq, heq']
  intro π
  by_cases hπ : ∃ i ∈ newMembers entries, π = [some i]
  · obtain ⟨i, hi, rfl⟩ := hπ
    rw [hadded.aligned_new hlength hall hi]
    exact hadded'.aligned_new hlength hall' ((hnew i).2 hi)
  · rw [hadded.aligned_old hlength hall fun i hi heq => hπ ⟨i, hi, heq⟩,
      hadded'.aligned_old hlength hall' fun j hj heq => ?_]
    · exact h π
    · obtain ⟨_ | i, rfl, hi⟩ := List.map_eq_singleton_iff.1 heq
      · cases hi
      · obtain rfl := Option.some.inj hi
        exact hπ ⟨i, (hnew i).1 hj, rfl⟩

end Lone

/-! ### Copies on one facet -/

section Copies

variable {is is' : List ℕ} {rest : TupleSet}

theorem Renames.beside (hr : Renames σ s s') :
    Context.beside ⟨c, s'⟩ p (s'.member (σ i)) (t.map (Element.renamed σ)) =
      Context.beside ⟨c, s⟩ p (s.member i) t := by
  rw [Context.beside, Context.beside, hr.member, List.getElem?_map]
  cases t[p]? with
  | none => rfl
  | some x => exact hr.isSibling (s.member i) x

theorem Renames.hosts (hr : Renames σ s s') :
    Context.hosts ⟨c, s'⟩ p (t.map (Element.renamed σ)) (rest.map (List.map (Element.renamed σ)))
      (σ i) = Context.hosts ⟨c, s⟩ p t rest i := by
  unfold Context.hosts
  rw [hr.beside, List.any_map]
  congr 3
  funext u
  exact hr.beside

theorem lineup_copy : lineup (t.set p (.calculated i)) = (lineup t).set p (some i) :=
  List.map_set

theorem renamed_copy : (t.set p (.calculated i)).map (Element.renamed σ) =
    (t.map (Element.renamed σ)).set p (.calculated (σ i)) :=
  List.map_set

/-- Copies of one tuple are told apart by the members that they are made for. -/
theorem mirrors_copies (hp : is ≠ [] → p < t.length) (his : is.Nodup)
    (hperm : is'.Perm (is.map σ)) :
    Mirrors σ (is.map fun i => t.set p (.calculated i))
      (is'.map fun i => (t.map (Element.renamed σ)).set p (.calculated i)) := by
  have hapart (i : ℕ) (hi : i ∈ is) (j : ℕ)
      (heq : lineup (t.set p (.calculated i)) = lineup (t.set p (.calculated j))) : i = j := by
    have hlt : p < (lineup t).length := by
      rw [lineup, List.length_map]
      exact hp (List.ne_nil_of_mem hi)
    rw [lineup_copy, lineup_copy] at heq
    have hat := congrArg (·[p]?) heq
    simpa [List.getElem?_set_self hlt] using hat
  have hcopies : (is'.map fun i => (t.map (Element.renamed σ)).set p (.calculated i)).Perm
      ((is.map fun i => t.set p (.calculated i)).map (List.map (Element.renamed σ))) := by
    refine (hperm.map _).trans (.of_eq ?_)
    rw [List.map_map, List.map_map]
    exact List.map_congr_left fun i _ => renamed_copy.symm
  have hnodup : (is.map fun i => t.set p (.calculated i)).Nodup :=
    his.map_on fun i hi j _ heq => hapart i hi j (congrArg lineup heq)
  refine .of_apart hnodup (hcopies.nodup_iff.2 (hnodup.map renamed_injective)) (fun u => ?_) ?_
  · rw [hcopies.mem_iff, mem_renamed]
  · intro u hu v hv heq
    obtain ⟨i, hi, rfl⟩ := List.mem_map.1 hu
    obtain ⟨j, -, rfl⟩ := List.mem_map.1 hv
    rw [hapart i hi j heq]

theorem Renames.mirrors_withCopies (hr : Renames σ s s') (his : is.Nodup)
    (hperm : is'.Perm (is.map σ)) (set : TupleSet) :
    Mirrors σ (Context.withCopies ⟨c, s⟩ p is set)
      (Context.withCopies ⟨c, s'⟩ p is' (set.map (List.map (Element.renamed σ)))) := by
  induction set with
  | nil => exact mirrors_renamed []
  | cons t rest ih =>
    rw [List.map_cons, withCopies, withCopies]
    refine ((mirrors_renamed [t]).append ?_).append ih
    have hperm' := hperm.filter (Context.hosts ⟨c, s'⟩ p (t.map (Element.renamed σ))
      (rest.map (List.map (Element.renamed σ))))
    rw [List.filter_map] at hperm'
    refine mirrors_copies (fun hne => ?_) (his.filter _) (hperm'.trans (.of_eq ?_))
    · obtain ⟨i, hi⟩ := List.exists_mem_of_ne_nil _ hne
      obtain ⟨hbeside, -⟩ := Bool.and_eq_true_iff.1 (List.mem_filter.1 hi).2
      obtain ⟨x, hx, -⟩ := (Option.any_eq_true _ _).1 hbeside
      exact (List.getElem?_eq_some_iff.1 hx).1
    · congr 1
      exact List.filter_congr fun i _ => hr.hosts

theorem Mirrors.addCalculatedMembers_copies (h : Mirrors σ a a') (hr : Renames σ s s')
    (hfits : Fits ⟨c, s⟩) (hfits' : Fits ⟨c, s'⟩) (hhas : HasSet ⟨c, s⟩ a) (hnodup : fs.Nodup)
    (hspans : Spans ⟨c, s⟩ fs a)
    (hfree : ∀ t ∈ a, ∀ i < s.members.size, ∀ j < s.members.size, Eligible ⟨c, s⟩ fs a i →
      Eligible ⟨c, s⟩ fs a j → facetOf ⟨c, s⟩ (.calculated i) = facetOf ⟨c, s⟩ (.calculated j) ∧
        ∀ u ∈ a, lineup u = lineup t) :
    Mirrors σ (addCalculatedMembers ⟨c, s⟩ a) (addCalculatedMembers ⟨c, s'⟩ a') := by
  have hspans' : Spans ⟨c, s'⟩ fs a' := h.spans hr hspans
  have hhas' : HasSet ⟨c, s'⟩ a' := h.hasSet hr hhas
  -- All members with a place share its facet, and with it the position of their copies.
  by_cases hplace : ∃ i < s.members.size, Eligible ⟨c, s⟩ fs a i
  · obtain ⟨i, hi, hplace⟩ := hplace
    have ⟨p, hp, _, t, ht, _⟩ := hplace
    obtain rfl := h.eq_renamed (hfree t ht i hi i hi hplace hplace).2
    have hone (j : ℕ) (hj : j < s.members.size) (hplace' : Eligible ⟨c, s⟩ fs a j) :
        fs[p]? = some (Context.facetOf ⟨c, s⟩ (.calculated j)) := by
      rw [hp, (hfree t ht i hi j hj hplace hplace').1]
    have hone' (j : ℕ) (hj : j < s'.members.size)
        (hplace' : Eligible ⟨c, s'⟩ fs (a.map (List.map (Element.renamed σ))) j) :
        fs[p]? = some (Context.facetOf ⟨c, s'⟩ (.calculated j)) := by
      obtain ⟨k, rfl⟩ := σ.surjective j
      rw [hone k (hr.lt_size_iff.1 hj) ((h.eligible_iff hr).1 hplace')]
      exact congrArg some (hr.facetOf (.calculated k)).symm
    obtain ⟨is, his, hmem, heq⟩ := exists_withCopies hfits hnodup hhas hone (Nat.le_refl _)
    obtain ⟨is', his', hmem', heq'⟩ :=
      exists_withCopies hfits' hnodup hhas' hone' (Nat.le_refl _)
    rw [addCalculatedMembers_eq hspans, addCalculatedMembers_eq hspans', heq, heq']
    refine hr.mirrors_withCopies his ?_ a
    refine (List.perm_ext_iff_of_nodup his' (his.map σ.injective)).2 fun j => ?_
    obtain ⟨k, rfl⟩ := σ.surjective j
    rw [hmem', List.mem_map_of_injective σ.injective, hmem, h.eligible_iff hr]
    exact and_congr_left fun _ => hr.lt_size_iff
  · have hnone (i : ℕ) (hi : i < s.members.size) : ¬ Eligible ⟨c, s⟩ fs a i :=
      fun h => hplace ⟨i, hi, h⟩
    have hnone' (j : ℕ) (hj : j < s'.members.size) : ¬ Eligible ⟨c, s'⟩ fs a' j := by
      obtain ⟨k, rfl⟩ := σ.surjective j
      rw [h.eligible_iff hr]
      exact hnone k (hr.lt_size_iff.1 hj)
    rw [addCalculatedMembers_eq_self hfits hhas hnodup hspans hnone,
      addCalculatedMembers_eq_self hfits' hhas' hnodup hspans' hnone']
    exact h

end Copies

theorem Mirrors.addCalculatedMembers (h : Mirrors σ a a') (hr : Renames σ s s')
    (hfits : Fits ⟨c, s⟩) (hfits' : Fits ⟨c, s'⟩) (hhas : HasSet ⟨c, s⟩ a)
    (huniform : Uniform ⟨c, s⟩ a) (hfree : OrderFree ⟨c, s⟩ a) :
    Mirrors σ (addCalculatedMembers ⟨c, s⟩ a) (addCalculatedMembers ⟨c, s'⟩ a') := by
  obtain ⟨fs, hnodup, hspans⟩ := huniform
  by_cases hempty : a = []
  · subst hempty
    obtain rfl := h.eq_renamed (π := []) fun _ ht => absurd ht List.not_mem_nil
    exact mirrors_renamed []
  · obtain ⟨t, ht⟩ := List.exists_mem_of_ne_nil a hempty
    have hfacets := hspans t ht
    rcases hfree with hlone | hcopies
    · refine h.addCalculatedMembers_lone hr hfits hfits' hhas hnodup hspans ?_
      rw [← hfacets, Context.facets, List.length_map]
      exact hlone t ht
    · refine h.addCalculatedMembers_copies hr hfits hfits' hhas hnodup hspans fun t ht => ?_
      rw [← hspans t ht]
      exact hcopies t ht

end CubeQuery
