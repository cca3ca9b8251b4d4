import CubeQuery.Proofs.Query.Traversal
import CubeQuery.Query.Grid
import Mathlib.Data.List.Lex
import Mathlib.Data.List.Sort

/-!
Sets in the order of the hierarchies. Sorting by descents lists members as the walk through their
tree reaches them; tuples follow their first members, then their second ones, and so on. Since the
walk reaches nothing twice, what is sorted depends on the tuples alone and not on where they stood.
-/

namespace CubeQuery

open CubeQuery.Language

/-- In a list that ascends strictly, elements compare like their places. -/
theorem compare_idxOf {α : Type} [BEq α] [LawfulBEq α] (cmp : α → α → Ordering)
    (hself : ∀ x, cmp x x = .eq) (hswap : ∀ x y, (cmp x y).swap = cmp y x) {l : List α}
    (h : l.Pairwise fun x y => cmp x y = .lt) {x y : α} (hx : x ∈ l) (hy : y ∈ l) :
    cmp x y = compare (l.idxOf x) (l.idxOf y) := by
  have hlt {x y : α} (hx : x ∈ l) (hy : y ∈ l) (hlt : l.idxOf x < l.idxOf y) :
      cmp x y = .lt := by
    have hbefore := List.pairwise_iff_getElem.1 h _ _ (List.idxOf_lt_length_iff.2 hx)
      (List.idxOf_lt_length_iff.2 hy) hlt
    rwa [List.getElem_idxOf, List.getElem_idxOf] at hbefore
  rcases Nat.lt_trichotomy (l.idxOf x) (l.idxOf y) with hless | hsame | hmore
  · rw [hlt hx hy hless, Nat.compare_eq_lt.2 hless]
  · rw [(List.idxOf_inj hx).1 hsame, hself, Nat.compare_eq_eq.2 rfl]
  · rw [← hswap, hlt hy hx hmore, Nat.compare_eq_gt.2 hmore]
    rfl

namespace Context

variable {ctx : Context} {post : Bool} {e e' : Element} {t u : Tuple} {set set' : TupleSet}
  {fs : List Facet}

/-! ### Places in the walk -/

/-- The place of an element in the walk through its facet. -/
def rank (ctx : Context) (post : Bool) (e : Element) : Nat :=
  (ctx.facetOrder post (ctx.facetOf e)).idxOf e

/-- The places of the members of a tuple. -/
def ranks (ctx : Context) (post : Bool) (t : Tuple) : List Nat :=
  t.map (ctx.rank post)

theorem rank_injective (hg : Cube.Graph ctx.cube) (hfits : ctx.Fits) (he : ctx.Has e)
    (hf : ctx.facetOf e' = ctx.facetOf e) (h : ctx.rank post e = ctx.rank post e') : e = e' := by
  rw [rank, rank, hf] at h
  exact (List.idxOf_inj (mem_facetOrder_of_has hg hfits he)).1 h

theorem compareDescents_eq (hg : Cube.Graph ctx.cube) (hfits : ctx.Fits) (he : ctx.Has e)
    (he' : ctx.Has e') (hf : ctx.facetOf e' = ctx.facetOf e) :
    compareDescents post (ctx.descent e) (ctx.descent e') =
      compare (ctx.rank post e) (ctx.rank post e') := by
  have hmem' : e' ∈ ctx.facetOrder post (ctx.facetOf e') := mem_facetOrder_of_has hg hfits he'
  rw [hf] at hmem'
  rw [rank, rank, hf]
  exact compare_idxOf (fun x y => compareDescents post (ctx.descent x) (ctx.descent y))
    (fun _ => compareDescents_self _ _) (fun _ _ => compareDescents_swap _ _ _)
    (pairwise_facetOrder hg hfits (hasFacet_facetOf hg hfits he))
    (mem_facetOrder_of_has hg hfits he) hmem'

theorem ranks_injective (hg : Cube.Graph ctx.cube) (hfits : ctx.Fits) (ht : ctx.HasAll t)
    (hf : ctx.facets u = ctx.facets t) (h : ctx.ranks post t = ctx.ranks post u) : t = u := by
  induction t generalizing u with
  | nil => exact (List.map_eq_nil_iff.1 hf).symm
  | cons e t ih =>
    cases u with
    | nil => cases hf
    | cons e' u =>
      obtain ⟨hfirst, hrest⟩ := List.cons_eq_cons.1 hf
      obtain ⟨hrank, hranks⟩ := List.cons_eq_cons.1 h
      obtain ⟨he, ht⟩ := List.forall_mem_cons.1 ht
      rw [rank_injective hg hfits he hfirst hrank, ih ht hrest hranks]

theorem ranks_cons_le : ctx.ranks post (e :: t) ≤ ctx.ranks post (e' :: u) ↔
    ctx.rank post e < ctx.rank post e' ∨
      ctx.rank post e = ctx.rank post e' ∧ ctx.ranks post t ≤ ctx.ranks post u := by
  have hlt : ctx.ranks post (e' :: u) < ctx.ranks post (e :: t) ↔
      ctx.rank post e' < ctx.rank post e ∨
        ctx.rank post e' = ctx.rank post e ∧ ctx.ranks post u < ctx.ranks post t :=
    List.cons_lt_cons_iff
  rw [← not_lt, hlt, ← not_lt]
  rcases Nat.lt_trichotomy (ctx.rank post e) (ctx.rank post e') with hless | hsame | hmore
  · simp [hless, Nat.lt_asymm hless, (Nat.ne_of_lt hless).symm]
  · simp [hsame]
  · simp [hmore, Nat.lt_asymm hmore, (Nat.ne_of_lt hmore).symm]

/-- Tuples on the same facets compare like the places of their members. -/
theorem compareTuples_eq (hg : Cube.Graph ctx.cube) (hfits : ctx.Fits) (ht : ctx.HasAll t)
    (hu : ctx.HasAll u) (hf : ctx.facets u = ctx.facets t) :
    (compareTuples post (t.map ctx.descent) (u.map ctx.descent) != .gt) =
      decide (ctx.ranks post t ≤ ctx.ranks post u) := by
  induction t generalizing u with
  | nil =>
    obtain rfl := List.map_eq_nil_iff.1 hf
    simp [compareTuples, ranks]
  | cons e t ih =>
    cases u with
    | nil => cases hf
    | cons e' u =>
      obtain ⟨hfirst, hrest⟩ := List.cons_eq_cons.1 hf
      obtain ⟨he, ht⟩ := List.forall_mem_cons.1 ht
      obtain ⟨he', hu⟩ := List.forall_mem_cons.1 hu
      have ih := ih ht hu hrest
      rw [List.map_cons, List.map_cons, compareTuples, compareDescents_eq hg hfits he he' hfirst,
        Bool.eq_iff_iff, decide_eq_true_iff, ranks_cons_le]
      -- The rest of the tuples has a say only where the first members are the same.
      rcases Nat.lt_trichotomy (ctx.rank post e) (ctx.rank post e') with hless | hsame | hmore
      · rw [Nat.compare_eq_lt.2 hless]
        simp [hless, Ordering.then]
      · rw [Nat.compare_eq_eq.2 hsame]
        simp only [hsame, Nat.lt_irrefl, false_or, true_and]
        rw [Bool.eq_iff_iff, decide_eq_true_iff] at ih
        exact ih
      · rw [Nat.compare_eq_gt.2 hmore]
        have hne : ctx.rank post e ≠ ctx.rank post e' := by omega
        simp [hne, Nat.not_lt_of_lt hmore, Ordering.then]

/-! ### The sorted set -/

theorem hierarchize_eq (hg : Cube.Graph ctx.cube) (hfits : ctx.Fits) (hhas : ctx.HasSet set)
    (hspans : ctx.Spans fs set) :
    ctx.hierarchize set post = set.mergeSort fun t u => ctx.ranks post t ≤ ctx.ranks post u := by
  have hset : (set.map fun t => (t.map ctx.descent, t)).map (·.2) = set := by
    simp [Function.comp_def]
  rw [hierarchize, List.map_mergeSort
    (s := fun t u => decide (ctx.ranks post t ≤ ctx.ranks post u)), hset]
  intro a ha b hb
  obtain ⟨t, ht, rfl⟩ := List.mem_map.1 ha
  obtain ⟨u, hu, rfl⟩ := List.mem_map.1 hb
  exact compareTuples_eq hg hfits (hhas t ht) (hhas u hu) ((hspans u hu).trans (hspans t ht).symm)

/-- A list of tuples in the order of the walk: by the places of their first members, then of their
second ones, and so on. -/
structure Walked (ctx : Context) (post : Bool) (set walked : TupleSet) : Prop where
  perm : walked.Perm set
  sorted : walked.Pairwise fun t u => ctx.ranks post t ≤ ctx.ranks post u

theorem walked_hierarchize (hg : Cube.Graph ctx.cube) (hfits : ctx.Fits) (hhas : ctx.HasSet set)
    (hspans : ctx.Spans fs set) : ctx.Walked post set (ctx.hierarchize set post) := by
  rw [hierarchize_eq hg hfits hhas hspans]
  refine ⟨List.mergeSort_perm _ _, ?_⟩
  have htrans (t u v : Tuple) (h : decide (ctx.ranks post t ≤ ctx.ranks post u) = true)
      (h' : decide (ctx.ranks post u ≤ ctx.ranks post v) = true) :
      decide (ctx.ranks post t ≤ ctx.ranks post v) = true :=
    decide_eq_true (le_trans (of_decide_eq_true h) (of_decide_eq_true h'))
  have htotal (t u : Tuple) : (decide (ctx.ranks post t ≤ ctx.ranks post u) ||
      decide (ctx.ranks post u ≤ ctx.ranks post t)) = true := by
    simpa using le_total (ctx.ranks post t) (ctx.ranks post u)
  exact (List.pairwise_mergeSort htrans htotal set).imp of_decide_eq_true

/-- Only one order of the tuples is that of the walk. -/
theorem Walked.unique (hg : Cube.Graph ctx.cube) (hfits : ctx.Fits) (hhas : ctx.HasSet set)
    (hspans : ctx.Spans fs set) {walked walked' : TupleSet} (h : ctx.Walked post set walked)
    (h' : ctx.Walked post set' walked') (hperm : set'.Perm set) : walked' = walked := by
  have hperm' := h'.perm.trans hperm
  refine List.Perm.eq_of_pairwise (fun t u ht hu hle hge => ?_) h'.sorted h.sorted
    (hperm'.trans h.perm.symm)
  have ht := hperm'.mem_iff.1 ht
  have hu := h.perm.mem_iff.1 hu
  exact ranks_injective hg hfits (hhas t ht) ((hspans u hu).trans (hspans t ht).symm)
    (le_antisymm hle hge)

/-! ### Whole hierarchies -/

/-- The stored members of a hierarchy, level by level. -/
def storedOn (ctx : Context) (h : HierarchyId) : List Element :=
  (ctx.cube.hierarchy h).levels.flatMap fun l => (ctx.cube.level l).members.toList.map .member

variable {h : HierarchyId}

theorem hierarchyMembers_eq : ctx.hierarchyMembers h = (ctx.storedOn h).map fun e => [e] := by
  simp [hierarchyMembers, storedOn, List.map_flatMap, Function.comp_def]

theorem mem_storedOn (hg : Cube.Graph ctx.cube) (hh : ctx.cube.Has (.hierarchy h)) :
    e ∈ ctx.storedOn h ↔
      (ctx.Has e ∧ ctx.facetOf e = .hierarchy h) ∧ e.isCalculated = false := by
  constructor
  · intro he
    obtain ⟨l, hl, he⟩ := List.mem_flatMap.1 he
    obtain ⟨m, hm, rfl⟩ := List.mem_map.1 he
    obtain ⟨i, hi⟩ := List.mem_iff_getElem?.1 hl
    obtain ⟨hlevel, hsame, -⟩ := (hg.levels_at h hh l i).1 hi
    obtain ⟨hhas, hhierarchy, -⟩ := hg.depth_eq hlevel (Array.mem_toList_iff.1 hm)
    exact ⟨⟨hhas, congrArg _ (hhierarchy.trans hsame)⟩, rfl⟩
  · rintro ⟨⟨he, hfacet⟩, hstored⟩
    cases e with
    | member m =>
      obtain ⟨hlevel, hsame⟩ := hg.member_level m he
      have hm : (ctx.cube.member m).hierarchy = h := Facet.hierarchy.inj hfacet
      have hat := (hg.levels_at h hh _ _).2 ⟨hlevel, hsame.trans hm, rfl⟩
      refine List.mem_flatMap.2 ⟨_, List.mem_of_getElem? hat, List.mem_map_of_mem ?_⟩
      exact Array.mem_toList_iff.2 (hg.mem_members he)
    | measure id => cases hfacet
    | calculated i => cases hstored

theorem nodup_storedOn (hg : Cube.Graph ctx.cube) (hh : ctx.cube.Has (.hierarchy h)) :
    (ctx.storedOn h).Nodup := by
  have hlevels : (ctx.cube.hierarchy h).levels.Nodup := by
    rw [List.nodup_iff_getElem?_ne_getElem?]
    intro i j hlt hj heq
    rw [List.getElem?_eq_getElem hj] at heq
    have hi := ((hg.levels_at h hh _ i).1 heq).2.2
    have hj := ((hg.levels_at h hh _ j).1 (List.getElem?_eq_getElem hj)).2.2
    omega
  have hhas {l : LevelId} (hl : l ∈ (ctx.cube.hierarchy h).levels) : ctx.cube.Has (.level l) := by
    obtain ⟨i, hi⟩ := List.mem_iff_getElem?.1 hl
    exact ((hg.levels_at h hh l i).1 hi).1
  rw [storedOn, List.nodup_flatMap]
  refine ⟨fun l hl => ?_, hlevels.imp_of_mem fun {l l'} hl hl' hne e he he' => ?_⟩
  · refine List.Nodup.map (fun _ _ => Element.member.inj) ((hg.pairwise_members (hhas hl)).imp ?_)
    exact fun hlt heq => by simp [heq] at hlt
  · -- A member stands on one level only.
    obtain ⟨m, hm, rfl⟩ := List.mem_map.1 he
    obtain ⟨m', hm', heq⟩ := List.mem_map.1 he'
    obtain rfl := Element.member.inj heq
    obtain ⟨i, hi⟩ := List.mem_iff_getElem?.1 hm
    obtain ⟨j, hj⟩ := List.mem_iff_getElem?.1 hm'
    rw [Array.getElem?_toList] at hi hj
    exact hne (((hg.members_at l (hhas hl) _ i).1 hi).2.1.symm.trans
      ((hg.members_at l' (hhas hl') _ j).1 hj).2.1)

theorem pairwise_ranks {es : List Element} (hfacet : ∀ e ∈ es, ctx.facetOf e = .hierarchy h)
    (hes : es.Pairwise fun x y => (ctx.facetOrder post (.hierarchy h)).idxOf x <
      (ctx.facetOrder post (.hierarchy h)).idxOf y) :
    (es.map fun e => [e]).Pairwise fun t u => ctx.ranks post t ≤ ctx.ranks post u := by
  rw [List.pairwise_map]
  refine hes.imp_of_mem fun {x y} hx hy hlt => ?_
  rw [ranks_cons_le, rank, rank, hfacet x hx, hfacet y hy]
  exact .inl hlt

/-- Elements of a hierarchy, each once, in the order of the walk. -/
theorem walked_filter (hg : Cube.Graph ctx.cube) (hfits : ctx.Fits)
    (hh : ctx.cube.Has (.hierarchy h)) (p : Element → Bool) {es : List Element} (hes : es.Nodup)
    (hmem : ∀ e, e ∈ es ↔ (ctx.Has e ∧ ctx.facetOf e = .hierarchy h) ∧ p e = true) :
    ctx.Walked post (es.map fun e => [e])
      (((ctx.walk post (ctx.cube.hierarchy h).allMember).filter p).map fun e => [e]) := by
  have hnodup : (ctx.walk post (ctx.cube.hierarchy h).allMember).Nodup :=
    nodup_facetOrder (f := .hierarchy h) hg hfits hh
  have hwalk (e : Element) : e ∈ ctx.walk post (ctx.cube.hierarchy h).allMember ↔
      ctx.Has e ∧ ctx.facetOf e = .hierarchy h :=
    mem_facetOrder (f := .hierarchy h) hg hfits hh
  constructor
  · refine ((List.perm_ext_iff_of_nodup (hnodup.filter p) hes).2 fun e => ?_).map _
    rw [List.mem_filter, hwalk, hmem]
  · refine pairwise_ranks (h := h)
      (fun e he => ((hwalk e).1 (List.mem_filter.1 he).1).2) (List.Pairwise.filter p ?_)
    rw [List.pairwise_iff_getElem]
    intro i j hi hj hlt
    show (ctx.walk post _).idxOf _ < (ctx.walk post _).idxOf _
    rwa [hnodup.idxOf_getElem, hnodup.idxOf_getElem]

theorem nodup_calculatedOn (f : Facet) : (ctx.calculatedOn f).Nodup := by
  rw [calculatedOn_eq]
  exact List.Nodup.map (fun _ _ => Element.calculated.inj) (List.nodup_range.filter _)

/-- All elements of a hierarchy: the stored ones level by level, then the calculated ones. -/
theorem mem_hierarchyWith (hg : Cube.Graph ctx.cube) (hh : ctx.cube.Has (.hierarchy h)) :
    e ∈ ctx.storedOn h ++ ctx.calculatedOn (.hierarchy h) ↔
      ctx.Has e ∧ ctx.facetOf e = .hierarchy h := by
  rw [List.mem_append, mem_storedOn hg hh, mem_calculatedOn]
  constructor
  · rintro (⟨he, -⟩ | ⟨i, hi, hfacet, rfl⟩)
    · exact he
    · exact ⟨hi, hfacet⟩
  · intro he
    cases e with
    | member m => exact .inl ⟨he, rfl⟩
    | measure id => exact .inl ⟨he, rfl⟩
    | calculated i => exact .inr ⟨i, he.1, he.2, rfl⟩

theorem nodup_hierarchyWith (hg : Cube.Graph ctx.cube) (hh : ctx.cube.Has (.hierarchy h)) :
    (ctx.storedOn h ++ ctx.calculatedOn (.hierarchy h)).Nodup := by
  refine List.nodup_append'.2 ⟨nodup_storedOn hg hh, nodup_calculatedOn _, fun e he he' => ?_⟩
  obtain ⟨i, -, -, rfl⟩ := mem_calculatedOn.1 he'
  cases ((mem_storedOn hg hh).1 he).2

/-- A list of all members of a hierarchy becomes the walk through its tree. -/
theorem hierarchize_map (hg : Cube.Graph ctx.cube) (hfits : ctx.Fits)
    (hh : ctx.cube.Has (.hierarchy h)) (p : Element → Bool) {es : List Element} (hes : es.Nodup)
    (hmem : ∀ e, e ∈ es ↔ (ctx.Has e ∧ ctx.facetOf e = .hierarchy h) ∧ p e = true) :
    ctx.hierarchize (es.map fun e => [e]) post =
      ((ctx.walk post (ctx.cube.hierarchy h).allMember).filter p).map fun e => [e] := by
  have hhas : ctx.HasSet (es.map fun e => [e]) := hasSet_map fun e he => ((hmem e).1 he).1.1
  have hspans : ctx.Spans [.hierarchy h] (es.map fun e => [e]) := by
    intro t ht
    obtain ⟨e, he, rfl⟩ := List.mem_map.1 ht
    rw [facets, List.map_singleton, ((hmem e).1 he).1.2]
  exact (walked_filter hg hfits hh p hes hmem).unique hg hfits hhas hspans
    (walked_hierarchize hg hfits hhas hspans) (.refl _)

/-! ### The order of a query -/

variable {layout : CubeLayout} {catalog : Catalog} {c : Cube} {s : Scope}

/-- Sets are listed as a walk through the trees reaches their members. The walk visits a member with
its children in source order and its calculated members in the order of their definitions below it,
and reaches each element of a facet once. What is sorted does not depend on the order before, is in
order already when sorted again, and is the walk itself for all members of a hierarchy. -/
theorem hierarchize_walks (hbuild : Cube.build layout catalog = .ok c)
    {definitions : List Definition}
    (hscope : (Scope.ofDefinitions c definitions).result = .ok s) (post : Bool) :
    (∀ m, c.Has (.member m) → walk ⟨c, s⟩ post m = visit post m
      ((c.memberChildren m).flatMap (walk ⟨c, s⟩ post) ++ calculatedBelow ⟨c, s⟩ m)) ∧
    (∀ f, HasFacet ⟨c, s⟩ f → (facetOrder ⟨c, s⟩ post f).Nodup ∧
      ∀ e, e ∈ facetOrder ⟨c, s⟩ post f ↔ Context.Has ⟨c, s⟩ e ∧ facetOf ⟨c, s⟩ e = f) ∧
    (∀ fs set, HasSet ⟨c, s⟩ set → Spans ⟨c, s⟩ fs set →
      Walked ⟨c, s⟩ post set (hierarchize ⟨c, s⟩ set post) ∧
      (∀ set', set'.Perm set → hierarchize ⟨c, s⟩ set' post = hierarchize ⟨c, s⟩ set post) ∧
      hierarchize ⟨c, s⟩ (hierarchize ⟨c, s⟩ set post) post = hierarchize ⟨c, s⟩ set post) ∧
    ∀ h, c.Has (.hierarchy h) →
      hierarchize ⟨c, s⟩ (hierarchyWith ⟨c, s⟩ h .allMembers) post =
        (walk ⟨c, s⟩ post (c.hierarchy h).allMember).map (fun e => [e]) ∧
      hierarchize ⟨c, s⟩ (hierarchyWith ⟨c, s⟩ h .members) post =
        ((walk ⟨c, s⟩ post (c.hierarchy h).allMember).filter (!·.isCalculated)).map
          (fun e => [e]) := by
  have hb := Cube.built_of_build hbuild
  have hfits := (sound_ofDefinitions hb hscope).fits
  have hg : Cube.Graph (Context.mk c s).cube := hb.graph
  refine ⟨fun m hm => walk_eq hg hm,
    fun f hf => ⟨nodup_facetOrder hg hfits hf, fun e => mem_facetOrder hg hfits hf⟩,
    fun fs set hhas hspans => ?_, fun h hh => ⟨?_, ?_⟩⟩
  · have hwalked : Walked ⟨c, s⟩ post set _ := walked_hierarchize hg hfits hhas hspans
    have hother {set' : TupleSet} (hperm : set'.Perm set) :
        hierarchize ⟨c, s⟩ set' post = hierarchize ⟨c, s⟩ set post := by
      have hhas' : HasSet ⟨c, s⟩ set' := hhas.mono fun t => hperm.mem_iff.1
      have hspans' : Spans ⟨c, s⟩ fs set' := fun t ht => hspans t (hperm.mem_iff.1 ht)
      exact hwalked.unique hg hfits hhas hspans (walked_hierarchize hg hfits hhas' hspans') hperm
    exact ⟨hwalked, fun set' => hother, hother hwalked.perm⟩
  · have hsplit : hierarchyWith ⟨c, s⟩ h .allMembers =
        (storedOn ⟨c, s⟩ h ++ calculatedOn ⟨c, s⟩ (.hierarchy h)).map fun e => [e] := by
      rw [hierarchyWith, hierarchyMembers_eq, List.map_append]
      rfl
    rw [hsplit, hierarchize_map hg hfits hh (fun _ => true) (nodup_hierarchyWith hg hh)
      fun e => (mem_hierarchyWith hg hh).trans (and_iff_left rfl).symm, List.filter_true]
  · have hsplit : hierarchyWith ⟨c, s⟩ h .members =
        (storedOn ⟨c, s⟩ h).map fun e => [e] := by
      rw [hierarchyWith, hierarchyMembers_eq]
      exact List.append_nil _
    rw [hsplit, hierarchize_map hg hfits hh (!·.isCalculated) (nodup_storedOn hg hh) fun e => ?_]
    rw [mem_storedOn hg hh, Bool.not_eq_true']

theorem hierarchize_walks_sample :
    let ctx : Context := ⟨Sample.cube, .empty⟩
    ctx.hierarchize [[.member ⟨1⟩], [.member ⟨0⟩]] false = [[.member ⟨0⟩], [.member ⟨1⟩]] ∧
      ctx.hierarchize [[.member ⟨0⟩], [.member ⟨1⟩]] true = [[.member ⟨1⟩], [.member ⟨0⟩]] := by
  intro ctx
  have hscope : (Scope.ofDefinitions Sample.cube []).result = .ok .empty := rfl
  have hh : Sample.cube.Has (.hierarchy ⟨0⟩) := show 0 < Sample.cube.hierarchies.size by decide
  have hall : ctx.hierarchyWith ⟨0⟩ .members = [[.member ⟨0⟩], [.member ⟨1⟩]] := by decide
  obtain ⟨-, -, hsets, hwhole⟩ := hierarchize_walks Sample.build_eq_cube hscope false
  obtain ⟨-, -, -, hwhole'⟩ := hierarchize_walks Sample.build_eq_cube hscope true
  have hb := Cube.built_of_build Sample.build_eq_cube
  have hhas := hierarchyWith_has (sound_ofDefinitions hb hscope) .members hh
  obtain ⟨fs, -, hspans⟩ : ctx.Uniform (ctx.hierarchyWith ⟨0⟩ .members) :=
    uniform_hierarchyWith hb.graph .members hh
  rw [hall] at hhas hspans
  constructor
  · have hother := (hsets fs _ hhas hspans).2.1 [[.member ⟨1⟩], [.member ⟨0⟩]] (.swap _ _ _)
    have hwalk := (hwhole ⟨0⟩ hh).2
    rw [hall] at hwalk
    exact hother.trans (hwalk.trans (by decide))
  · have hwalk := (hwhole' ⟨0⟩ hh).2
    rw [hall] at hwalk
    exact hwalk.trans (by decide)

end Context

end CubeQuery
