import CubeQuery.Proofs.Query.Additions
import CubeQuery.Proofs.Query.Drilling
import CubeQuery.Proofs.Query.Reordering

/-!
The set functions on sets that mirror each other. Sorting compares tuples with the same lineup by
their stored members alone. Drilling puts in tuples with the lineup of the tuple that is drilled,
and looks for no others. Calculated members that are added make a difference only where tuples of
several members are copied for them.
-/

namespace CubeQuery

open CubeQuery.Language Context

variable {σ : Equiv.Perm ℕ} {c : Cube} {s s' : Scope} {a a' : TupleSet} {t u : Tuple}
  {e : Element} {π : List (Option ℕ)} {fs : List Facet}

/-! ### Ordering by hierarchy -/

/-- Where two tuples hold a calculated member at a position, it is the same one, and its place is
compared with itself. -/
theorem compareTuples_renamed (post : Bool) (h : lineup t = lineup u) :
    compareTuples post ((t.map (Element.renamed σ)).map (descent ⟨c, s'⟩))
        ((u.map (Element.renamed σ)).map (descent ⟨c, s'⟩)) =
      compareTuples post (t.map (descent ⟨c, s⟩)) (u.map (descent ⟨c, s⟩)) := by
  have hdescents {e f : Element} (hef : e.index? = f.index?) :
      compareDescents post (descent ⟨c, s'⟩ (e.renamed σ)) (descent ⟨c, s'⟩ (f.renamed σ)) =
        compareDescents post (descent ⟨c, s⟩ e) (descent ⟨c, s⟩ f) := by
    cases e with
    | calculated i =>
      cases f with
      | calculated j =>
        obtain rfl := Option.some.inj hef
        rw [compareDescents_self, compareDescents_self]
      | member _ => cases hef
      | measure _ => cases hef
    | member _ =>
      cases f with
      | calculated _ => cases hef
      | member _ => rfl
      | measure _ => rfl
    | measure _ =>
      cases f with
      | calculated _ => cases hef
      | member _ => rfl
      | measure _ => rfl
  induction t generalizing u with
  | nil =>
    obtain rfl := List.map_eq_nil_iff.1 h.symm
    rfl
  | cons e t ih =>
    cases u with
    | nil => cases h
    | cons f u =>
      obtain ⟨hfirst, hrest⟩ := List.cons_eq_cons.1 h
      simp only [List.map_cons, compareTuples, hdescents hfirst, ih hrest]

namespace Mirrors

theorem hasSet (h : Mirrors σ a a') (hr : Renames σ s s') (hhas : HasSet ⟨c, s⟩ a) :
    HasSet ⟨c, s'⟩ a' := by
  intro u hu
  obtain ⟨t, ht, rfl⟩ := h.exists_of_mem hu
  exact hr.hasAll (hhas t ht)

theorem spans (h : Mirrors σ a a') (hr : Renames σ s s') (hspans : Spans ⟨c, s⟩ fs a) :
    Spans ⟨c, s'⟩ fs a' := by
  intro u hu
  obtain ⟨t, ht, rfl⟩ := h.exists_of_mem hu
  rw [hr.facets, hspans t ht]

/-- Tuples with the same lineup are sorted alike, and there is one way only to sort them. -/
theorem hierarchize (h : Mirrors σ a a') (hr : Renames σ s s') (hg : Cube.Graph c)
    (hfits : Fits ⟨c, s⟩) (hfits' : Fits ⟨c, s'⟩) (hhas : HasSet ⟨c, s⟩ a)
    (hspans : Spans ⟨c, s⟩ fs a) (post : Bool) :
    Mirrors σ (hierarchize ⟨c, s⟩ a post) (hierarchize ⟨c, s'⟩ a' post) := by
  intro π
  have hhas' := h.hasSet hr hhas
  have hspans' := h.spans hr hspans
  have hwalked : Walked ⟨c, s⟩ post a (Context.hierarchize ⟨c, s⟩ a post) :=
    walked_hierarchize hg hfits hhas hspans
  have hwalked' : Walked ⟨c, s'⟩ post a' (Context.hierarchize ⟨c, s'⟩ a' post) :=
    walked_hierarchize hg hfits' hhas' hspans'
  have hperm := (hwalked'.perm.filter fun t => lineup t = π.map (Option.map σ)).trans
    (List.Perm.of_eq (h π))
  have hperm' := ((hwalked.perm.filter fun t => lineup t = π).map
    (List.map (Element.renamed σ))).symm
  refine (hperm.trans hperm').eq_of_pairwise (fun t u ht hu hle hge => ?_)
    (hwalked'.sorted.filter _) ?_
  -- Tuples of equal rank are equal.
  · have ht := mem_hierarchize.1 (mem_aligned.1 ht).1
    have hu := (mem_aligned.1 ((hperm.trans hperm').mem_iff.2 hu)).1
    have hu := mem_hierarchize.1 hu
    exact ranks_injective hg hfits' (hhas' t ht) ((hspans' u hu).trans (hspans' t ht).symm)
      (le_antisymm hle hge)
  -- The renamed tuples are in order in the other scope, where ranks are compared too.
  · refine List.pairwise_map.2 ((hwalked.sorted.filter _).imp_of_mem fun {t u} ht hu hle => ?_)
    obtain ⟨ht, hlt⟩ := mem_aligned.1 ht
    obtain ⟨hu, hlu⟩ := mem_aligned.1 hu
    have ht := mem_hierarchize.1 ht
    have hu := mem_hierarchize.1 hu
    have hfacets := (hspans u hu).trans (hspans t ht).symm
    have hfacets' : Context.facets ⟨c, s'⟩ (u.map (Element.renamed σ)) =
        Context.facets ⟨c, s'⟩ (t.map (Element.renamed σ)) := by
      rw [hr.facets, hr.facets, hfacets]
    have hcompare : (compareTuples post (t.map (descent ⟨c, s⟩)) (u.map (descent ⟨c, s⟩)) != .gt) =
        decide (ranks ⟨c, s⟩ post t ≤ ranks ⟨c, s⟩ post u) :=
      compareTuples_eq hg hfits (hhas t ht) (hhas u hu) hfacets
    have hcompare' : (compareTuples post ((t.map (Element.renamed σ)).map (descent ⟨c, s'⟩))
        ((u.map (Element.renamed σ)).map (descent ⟨c, s'⟩)) != .gt) =
        decide (ranks ⟨c, s'⟩ post (t.map (Element.renamed σ)) ≤
          ranks ⟨c, s'⟩ post (u.map (Element.renamed σ))) :=
      compareTuples_eq hg hfits' (hr.hasAll (hhas t ht)) (hr.hasAll (hhas u hu)) hfacets'
    rw [compareTuples_renamed post (hlt.trans hlu.symm), hcompare] at hcompare'
    exact of_decide_eq_true (hcompare'.symm.trans (decide_eq_true hle))

end Mirrors

/-! ### Drilling down -/

/-- What has been emitted on both sides agrees on the tuples with a certain lineup. -/
def Agrees (σ : Equiv.Perm ℕ) (π : List (Option ℕ)) (emitted emitted' : TupleSet) : Prop :=
  ∀ u, lineup u = π → (u.map (Element.renamed σ) ∈ emitted' ↔ u ∈ emitted)

theorem agrees_renamed (emitted : TupleSet) :
    Agrees σ π emitted (emitted.map (List.map (Element.renamed σ))) :=
  fun _ _ => mem_renamed

theorem agrees_symm (emitted : TupleSet) :
    Agrees σ π (emitted.map (List.map (Element.renamed σ.symm))) emitted := by
  intro u _
  rw [← mem_renamed (σ := σ.symm), symm_renamed]

theorem Agrees.append {emitted emitted' : TupleSet} (h : Agrees σ π emitted emitted')
    (block : TupleSet) :
    Agrees σ π (emitted ++ block) (emitted' ++ block.map (List.map (Element.renamed σ))) := by
  intro u hu
  rw [List.mem_append, List.mem_append, h u hu, mem_renamed]

/-- Blocks keep the lineup of the tuple that they follow, and depend on it and on what has been
emitted with the same lineup. -/
structure BlocksMirror (σ : Equiv.Perm ℕ) (block block' : TupleSet → Tuple → TupleSet) : Prop where
  kept : ∀ emitted t, ∀ u ∈ block emitted t, lineup u = lineup t
  renamed : ∀ emitted emitted' t, Agrees σ (lineup t) emitted emitted' →
    block' emitted' (t.map (Element.renamed σ)) =
      (block emitted t).map (List.map (Element.renamed σ))

section Interleave

variable {block block' : TupleSet → Tuple → TupleSet}

/-- Tuples with another lineup can be left out. -/
theorem aligned_interleave (hkept : ∀ emitted t, ∀ u ∈ block emitted t, lineup u = lineup t)
    (hlocal : ∀ emitted t, block (aligned (lineup t) emitted) t = block emitted t)
    (emitted set : TupleSet) :
    aligned π (interleave block emitted set) =
      interleave block (aligned π emitted) (aligned π set) := by
  induction set generalizing emitted with
  | nil => rfl
  | cons t rest ih =>
    rw [interleave, List.cons_append]
    by_cases ht : lineup t = π
    · have hblock : aligned π (block emitted t) = block emitted t :=
        aligned_eq_self fun u hu => (hkept emitted t u hu).trans ht
      subst ht
      rw [aligned_cons_pos rfl, aligned_cons_pos rfl, aligned_append, hblock, interleave, hlocal,
        ih, aligned_append, hblock]
      rfl
    · have hblock : aligned π (block emitted t) = [] :=
        aligned_eq_nil fun u hu => fun h => ht ((hkept emitted t u hu).symm.trans h)
      rw [aligned_cons_neg ht, aligned_cons_neg ht, aligned_append, hblock, ih, aligned_append,
        hblock, List.append_nil, List.nil_append]

theorem BlocksMirror.interleave (h : BlocksMirror σ block block') (emitted set : TupleSet) :
    interleave block' (emitted.map (List.map (Element.renamed σ)))
        (set.map (List.map (Element.renamed σ))) =
      (interleave block emitted set).map (List.map (Element.renamed σ)) := by
  induction set generalizing emitted with
  | nil => rfl
  | cons t rest ih =>
    rw [List.map_cons, CubeQuery.interleave, CubeQuery.interleave,
      h.renamed emitted _ t (agrees_renamed emitted), ← List.map_append, ih]
    simp only [List.map_cons, List.map_append]

theorem BlocksMirror.local_left (h : BlocksMirror σ block block') (emitted : TupleSet) (t : Tuple) :
    block (aligned (lineup t) emitted) t = block emitted t := by
  have hagrees : Agrees σ (lineup t) (aligned (lineup t) emitted)
      (emitted.map (List.map (Element.renamed σ))) := by
    intro u hu
    rw [mem_renamed, mem_aligned, and_iff_left hu]
  apply List.map_injective_iff.2 (renamed_injective (σ := σ))
  rw [← h.renamed _ _ t hagrees, ← h.renamed _ _ t (agrees_renamed emitted)]

theorem BlocksMirror.symm (h : BlocksMirror σ block block') : BlocksMirror σ.symm block' block where
  kept emitted t u hu := by
    obtain ⟨t, rfl⟩ : ∃ v : Tuple, v.map (Element.renamed σ) = t := ⟨_, renamed_symm t⟩
    rw [h.renamed _ _ _ (agrees_symm emitted)] at hu
    obtain ⟨v, hv, rfl⟩ := List.mem_map.1 hu
    rw [lineup_renamed, lineup_renamed, h.kept _ _ v hv]
  renamed emitted emitted' t hagrees := by
    obtain ⟨t, rfl⟩ : ∃ v : Tuple, v.map (Element.renamed σ) = t := ⟨_, renamed_symm t⟩
    have hagrees' : Agrees σ (lineup t) emitted' emitted := by
      intro u hu
      have hu := hagrees (u.map (Element.renamed σ)) (by rw [lineup_renamed, lineup_renamed, hu])
      rw [symm_renamed] at hu
      exact hu.symm
    rw [h.renamed _ _ t hagrees', symm_renamed, List.map_map, List.map_congr_left (g := id),
      List.map_id]
    exact fun u _ => symm_renamed u

theorem Mirrors.interleave (h : Mirrors σ a a') (hblocks : BlocksMirror σ block block') :
    Mirrors σ (interleave block [] a) (interleave block' [] a') := by
  intro π
  rw [aligned_interleave hblocks.kept hblocks.local_left,
    aligned_interleave hblocks.symm.kept hblocks.symm.local_left, h]
  exact hblocks.interleave [] _

end Interleave

theorem lineup_set_child {ctx : Context} {child : Element} {p : ℕ} (hat : t[p]? = some e)
    (hchild : child ∈ ctx.childrenOf e) : lineup (t.set p child) = lineup t := by
  obtain ⟨m, child, rfl, rfl, -⟩ := mem_childrenOf hchild
  obtain ⟨hlt, hget⟩ := List.getElem?_eq_some_iff.1 hat
  have hindex : Element.index? (.member child) = t[p].index? := by rw [hget]; rfl
  rw [lineup, lineup, List.map_set, hindex, ← List.map_set, List.set_getElem_self]

section Drill

variable {present present' : TupleSet} {targets targets' : List Element}

theorem childTuples_renamed {p : ℕ}
    (hpresent : ∀ u, u.map (Element.renamed σ) ∈ present' ↔ u ∈ present)
    {further further' : TupleSet → Tuple → Element → TupleSet}
    (hfurther : ∀ emitted emitted' u child, child.renamed σ = child → lineup u = lineup t →
      Agrees σ (lineup t) emitted emitted' → further' emitted' (u.map (Element.renamed σ)) child =
        (further emitted u child).map (List.map (Element.renamed σ)))
    {children : List Element}
    (hchildren : ∀ child ∈ children, child.renamed σ = child ∧ lineup (t.set p child) = lineup t)
    {emitted emitted' : TupleSet} (hagrees : Agrees σ (lineup t) emitted emitted') :
    childTuples present' further' (t.map (Element.renamed σ)) p emitted' children =
      (childTuples present further t p emitted children).map (List.map (Element.renamed σ)) := by
  induction children generalizing emitted emitted' with
  | nil => rfl
  | cons child rest ih =>
    obtain ⟨⟨hsame, hlineup⟩, hrest⟩ := List.forall_mem_cons.1 hchildren
    have hset : (t.map (Element.renamed σ)).set p child =
        (t.set p child).map (Element.renamed σ) := by rw [List.map_set, hsame]
    have hold : ((t.set p child).map (Element.renamed σ) ∈ present' ∨
        (t.set p child).map (Element.renamed σ) ∈ emitted') ↔
        (t.set p child ∈ present ∨ t.set p child ∈ emitted) := by
      rw [hpresent, hagrees _ hlineup]
    rw [childTuples, childTuples, hset]
    by_cases hfound : t.set p child ∈ present ∨ t.set p child ∈ emitted
    · rw [if_pos hfound, if_pos (hold.2 hfound)]
      exact ih hrest hagrees
    · have hblock := hfurther (emitted ++ [t.set p child]) _ (t.set p child) child hsame hlineup
        (hagrees.append [t.set p child])
      rw [if_neg hfound, if_neg (mt hold.1 hfound), List.map_append,
        ← ih hrest (hagrees.append _), List.map_cons, ← hblock]
      rfl

/-- By induction on the levels that are left. -/
theorem drillTuple_renamed
    (htargets : ∀ e, e.renamed σ ∈ targets' ↔ e ∈ targets)
    (hpresent : ∀ u, u.map (Element.renamed σ) ∈ present' ↔ u ∈ present) (recursive : Bool)
    (levels : ℕ) {emitted emitted' : TupleSet} (hagrees : Agrees σ (lineup t) emitted emitted') :
    drillTuple ⟨c, s'⟩ targets' present' recursive levels emitted' (t.map (Element.renamed σ)) =
      (drillTuple ⟨c, s⟩ targets present recursive levels emitted t).map
        (List.map (Element.renamed σ)) := by
  have htarget (e : Element) : targets'.contains (e.renamed σ) = targets.contains e := by
    rw [Bool.eq_iff_iff, List.contains_iff_mem, List.contains_iff_mem, htargets]
  induction levels generalizing t emitted emitted' with
  | zero => rfl
  | succ levels ih =>
    have hposition : (t.map (Element.renamed σ)).findIdx? (targets'.contains ·) =
        t.findIdx? (targets.contains ·) := by
      rw [List.findIdx?_map]
      congr 1
      funext e
      exact htarget e
    rw [drillTuple, drillTuple, hposition]
    cases hp : t.findIdx? (targets.contains ·) with
    | none => rfl
    | some p =>
      obtain ⟨e, hfirst⟩ := FirstTarget.of_findIdx? hp
      have hat := hfirst.at_position
      have hat' : (t.map (Element.renamed σ))[p]? = some (e.renamed σ) := by
        rw [List.getElem?_map, hat, Option.map_some]
      dsimp only
      rw [hat, hat']
      dsimp only [Option.map_some, Option.getD_some]
      rw [Renames.childrenOf (s := s)]
      -- The children are stored members, which no renaming moves.
      refine childTuples_renamed hpresent (fun emitted emitted' u child hsame hu h => ?_)
        (fun child hchild => ⟨?_, lineup_set_child hat hchild⟩) hagrees
      · have hcontains := htarget child
        rw [hsame] at hcontains
        rw [hcontains]
        split
        · exact ih (hu ▸ h)
        · rfl
      · obtain ⟨-, child, -, rfl, -⟩ := mem_childrenOf hchild
        rfl

theorem max?_congr {l l' : List ℕ} (h : ∀ n, n ∈ l' ↔ n ∈ l) : l'.max? = l.max? := by
  cases hmax : l.max? with
  | none =>
    rw [List.max?_eq_none_iff] at hmax ⊢
    exact List.eq_nil_iff_forall_not_mem.2 fun n hn => by simp [h, hmax] at hn
  | some m =>
    obtain ⟨hm, hle⟩ := List.max?_eq_some_iff.1 hmax
    exact List.max?_eq_some_iff.2 ⟨(h m).2 hm, fun n hn => hle n ((h n).1 hn)⟩

theorem keptByDrilling_lineup (ctx : Context) (π : List (Option ℕ)) :
    ctx.KeptByDrilling fun t => lineup t = π :=
  fun _ _ _ _ ht hat hchild => (lineup_set_child hat hchild).trans ht

namespace Mirrors

theorem mem_flatten {b b' : TupleSet} (h : Mirrors σ b b') (e : Element) :
    e.renamed σ ∈ b'.flatten ↔ e ∈ b.flatten := by
  rw [List.mem_flatten, List.mem_flatten]
  constructor
  · rintro ⟨u, hu, he⟩
    obtain ⟨t, ht, rfl⟩ := h.exists_of_mem hu
    exact ⟨t, ht, (List.mem_map_of_injective Element.renamed_injective).1 he⟩
  · rintro ⟨t, ht, he⟩
    exact ⟨_, h.mem_iff.2 ht, List.mem_map_of_mem he⟩

theorem drilldownMember {b b' : TupleSet} (ha : Mirrors σ a a') (hb : Mirrors σ b b')
    (recursive : Bool) :
    Mirrors σ (drilldownMember ⟨c, s⟩ a b recursive) (drilldownMember ⟨c, s'⟩ a' b' recursive) := by
  refine ha.interleave ⟨fun emitted t => ?_, fun emitted emitted' t hagrees => ?_⟩
  · exact forall_drillTuple (keptByDrilling_lineup ⟨c, s⟩ (lineup t)) _ _ _ _ _ rfl
  · rw [Renames.levelsBelow (s := s)]
    exact drillTuple_renamed hb.mem_flatten (fun u => ha.mem_iff) recursive _ hagrees

theorem drillFirst (ha : Mirrors σ a a') (depth : ℕ) (hierarchy? : Option HierarchyId) :
    Mirrors σ (drillFirst ⟨c, s⟩ a depth hierarchy?) (drillFirst ⟨c, s'⟩ a' depth hierarchy?) := by
  refine ha.interleave ⟨fun emitted t => ?_, fun emitted emitted' t hagrees => ?_⟩
  · split
    · split
      · refine forall_childTuples (P := fun u => lineup u = _) (fun child hchild => ?_)
          (fun _ _ _ _ _ h => absurd h List.not_mem_nil) _ _
        exact lineup_set_child rfl hchild
      · exact fun _ h => absurd h List.not_mem_nil
    · exact fun _ h => absurd h List.not_mem_nil
  · cases t with
    | nil => rfl
    | cons e t =>
      cases e with
      | measure _ => rfl
      | calculated _ => rfl
      | member id =>
        show (if _ then _ else _) = List.map _ (if _ then _ else _)
        split
        · refine childTuples_renamed (fun u => ha.mem_iff) (fun _ _ _ _ _ _ _ => rfl)
            (fun child hchild => ⟨?_, lineup_set_child rfl hchild⟩) hagrees
          obtain ⟨-, child, -, rfl, -⟩ := mem_childrenOf hchild
          rfl
        · rfl

theorem max?_filterMap (h : Mirrors σ a a') {f : Tuple → Option ℕ}
    (hf : ∀ t : Tuple, f (t.map (Element.renamed σ)) = f t) :
    (a'.filterMap f).max? = (a.filterMap f).max? := by
  refine max?_congr fun n => ?_
  rw [List.mem_filterMap, List.mem_filterMap]
  constructor
  · rintro ⟨u, hu, hn⟩
    obtain ⟨t, ht, rfl⟩ := h.exists_of_mem hu
    exact ⟨t, ht, (hf t).symm.trans hn⟩
  · rintro ⟨t, ht, hn⟩
    exact ⟨_, h.mem_iff.2 ht, (hf t).trans hn⟩

theorem deepestFirst? (h : Mirrors σ a a') :
    deepestFirst? ⟨c, s'⟩ a' = deepestFirst? ⟨c, s⟩ a := by
  refine h.max?_filterMap fun t => ?_
  cases t with
  | nil => rfl
  | cons e t => cases e <;> rfl

theorem drilldownLevel (ha : Mirrors σ a a') (level? : Option LevelId) :
    Mirrors σ (drilldownLevel ⟨c, s⟩ a level?) (drilldownLevel ⟨c, s'⟩ a' level?) := by
  unfold Context.drilldownLevel
  cases level? with
  | some id => exact ha.drillFirst _ _
  | none =>
    rw [ha.deepestFirst? (s := s)]
    dsimp only
    split
    · exact ha.drillFirst _ _
    · exact ha

end Mirrors

end Drill

end CubeQuery
