import CubeQuery.Proofs.Query.KnownScope
import Mathlib.Data.List.Nodup

/-!
Every set that is evaluated is uniform: all of its tuples have their members on the same facets in
the same order, and no facet twice. Products and axes are checked by their first tuples alone; this
is why that is enough.
-/

namespace CubeQuery

open CubeQuery.Language Noted

theorem Noted.Gives.and {α : Type} {x : Noted α} {P Q : α → Prop} (hP : x.Gives P)
    (hQ : x.Gives Q) : x.Gives fun a => P a ∧ Q a :=
  fun a h => ⟨hP a h, hQ a h⟩

theorem Noted.Gives.mono {α : Type} {x : Noted α} {P Q : α → Prop} (hP : x.Gives P)
    (h : ∀ a, P a → Q a) : x.Gives Q :=
  fun a ha => h a (hP a ha)

namespace Context

/-- All tuples have their members on the given facets. -/
def Spans (ctx : Context) (fs : List Facet) (set : TupleSet) : Prop :=
  ∀ t ∈ set, ctx.facets t = fs

def Uniform (ctx : Context) (set : TupleSet) : Prop :=
  ∃ fs : List Facet, fs.Nodup ∧ ctx.Spans fs set

variable {ctx : Context} {a b set : TupleSet} {t u : Tuple} {e : Element} {f : Facet}

/-! ### Checks -/

theorem repeatedFacet?_eq_none {seen fs : List Facet} :
    repeatedFacet? seen fs = none ↔ fs.Nodup ∧ ∀ f ∈ fs, f ∉ seen := by
  induction fs generalizing seen with
  | nil => simp [repeatedFacet?]
  | cons f fs ih =>
    rw [repeatedFacet?]
    split
    · rename_i hseen
      simp [hseen]
    · rename_i hseen
      rw [ih, List.nodup_cons]
      constructor
      · rintro ⟨hnodup, hfree⟩
        refine ⟨⟨fun hf => hfree f hf List.mem_cons_self, hnodup⟩, ?_⟩
        intro g hg hmem
        rcases List.mem_cons.1 hg with rfl | hg
        · exact hseen hmem
        · exact hfree g hg (List.mem_cons_of_mem f hmem)
      · rintro ⟨⟨hf, hnodup⟩, hfree⟩
        refine ⟨hnodup, fun g hg hmem => ?_⟩
        rcases List.mem_cons.1 hmem with rfl | hmem
        · exact hf hg
        · exact hfree g (List.mem_cons_of_mem f hg) hmem

theorem checkTuple_eq_ok_iff {v : Unit} :
    ctx.checkTuple t = .ok v ↔ (ctx.facets t).Nodup := by
  unfold checkTuple
  split
  · rename_i f hsome
    refine iff_of_false (fun h => nomatch h) fun hnodup => ?_
    rw [repeatedFacet?_eq_none.2 ⟨hnodup, by simp⟩] at hsome
    cases hsome
  · rename_i hnone
    exact iff_of_true rfl (repeatedFacet?_eq_none.1 hnone).1

theorem uniform_of_checkUniform {expr : Expr} {v : Unit} (h : ctx.checkUniform set expr = .ok v)
    (hnodup : ∀ t ∈ set, (ctx.facets t).Nodup) : ctx.Uniform set := by
  unfold checkUniform at h
  split at h
  · exact ⟨[], .nil, fun _ h => nomatch h⟩
  · rename_i first rest
    split at h
    · cases h
    · rename_i hnone
      refine ⟨ctx.facets first, hnodup first List.mem_cons_self, fun t ht => ?_⟩
      rcases List.mem_cons.1 ht with rfl | ht
      · rfl
      · simpa using List.find?_eq_none.1 hnone t ht

/-! ### Small sets -/

theorem uniform_nil : ctx.Uniform [] :=
  ⟨[], .nil, fun _ h => nomatch h⟩

theorem Uniform.mono (hb : ctx.Uniform b) (h : ∀ t ∈ a, t ∈ b) : ctx.Uniform a := by
  obtain ⟨fs, hnodup, hspans⟩ := hb
  exact ⟨fs, hnodup, fun t ht => hspans t (h t ht)⟩

theorem Uniform.nodup (h : ctx.Uniform set) (ht : t ∈ set) : (ctx.facets t).Nodup := by
  obtain ⟨fs, hnodup, hspans⟩ := h
  rwa [hspans t ht]

/-- One-member tuples on one facet. -/
theorem uniform_map {es : List Element} (h : ∀ e ∈ es, ctx.facetOf e = f) :
    ctx.Uniform (es.map fun e => [e]) := by
  refine ⟨[f], List.nodup_singleton f, fun t ht => ?_⟩
  obtain ⟨e, he, rfl⟩ := List.mem_map.1 ht
  rw [facets, List.map_singleton, h e he]

theorem uniform_singleton (e : Element) : ctx.Uniform [[e]] := by
  refine ⟨[ctx.facetOf e], List.nodup_singleton _, fun t ht => ?_⟩
  rw [List.mem_singleton.1 ht]
  rfl

theorem facets_append : ctx.facets (t ++ u) = ctx.facets t ++ ctx.facets u :=
  List.map_append

theorem facets_set {i : Nat} (h : (ctx.facets t)[i]? = some (ctx.facetOf e)) :
    ctx.facets (t.set i e) = ctx.facets t := by
  obtain ⟨hlt, hat⟩ := List.getElem?_eq_some_iff.1 h
  rw [facets, List.map_set, ← hat]
  exact List.set_getElem_self hlt

/-! ### Facets of the cube -/

theorem childrenOf_facet (hg : Cube.Graph ctx.cube) (he : ctx.Has e) {child : Element}
    (h : child ∈ ctx.childrenOf e) : ctx.facetOf child = ctx.facetOf e := by
  cases e with
  | member id =>
    obtain ⟨m, hm, rfl⟩ := List.mem_map.1 h
    rw [facetOf, facetOf, (hg.memberChildren_below he hm).2.1]
  | measure id => cases h
  | calculated i => cases h

theorem levelMembers_facet (hg : Cube.Graph ctx.cube) {l : LevelId} (hl : ctx.cube.Has (.level l))
    (ht : t ∈ ctx.levelMembers l) : ctx.facets t = [.hierarchy (ctx.cube.level l).hierarchy] := by
  obtain ⟨m, hm, rfl⟩ := List.mem_map.1 ht
  rw [facets, List.map_singleton, facetOf, (hg.depth_eq hl (Array.mem_toList_iff.1 hm)).2.1]

theorem hierarchyMembers_facet (hg : Cube.Graph ctx.cube) {h : HierarchyId}
    (hh : ctx.cube.Has (.hierarchy h)) (ht : t ∈ ctx.hierarchyMembers h) :
    ctx.facets t = [.hierarchy h] := by
  obtain ⟨l, hl, hmem⟩ := List.mem_flatMap.1 ht
  obtain ⟨i, hi⟩ := List.mem_iff_getElem?.1 hl
  obtain ⟨hlevel, hsame, -⟩ := (hg.levels_at h hh l i).1 hi
  rw [levelMembers_facet hg hlevel hmem, hsame]

theorem calculatedOn_facet (h : e ∈ ctx.calculatedOn f) : ctx.facetOf e = f := by
  obtain ⟨⟨m, j⟩, hp, rfl⟩ := List.mem_map.1 h
  obtain ⟨hmem, hfacet⟩ := List.mem_filter.1 hp
  obtain ⟨hj, hm⟩ := List.mem_zipIdx' hmem
  rw [Array.getElem_toList] at hm
  rw [facetOf, Scope.member, Array.getD_eq_getD_getElem?, Array.getElem?_eq_getElem hj,
    Option.getD_some, ← hm]
  exact of_decide_eq_true hfacet

theorem calculatedIf_facet {property : Property} (ht : t ∈ ctx.calculatedIf property f) :
    ctx.facets t = [f] := by
  unfold calculatedIf at ht
  split at ht
  · obtain ⟨e, he, rfl⟩ := List.mem_map.1 ht
    rw [facets, List.map_singleton, calculatedOn_facet he]
  · cases ht

theorem uniform_of_facet (h : ∀ t ∈ set, ctx.facets t = [f]) : ctx.Uniform set :=
  ⟨[f], List.nodup_singleton f, h⟩

theorem uniform_hierarchyWith (hg : Cube.Graph ctx.cube) (property : Property) {h : HierarchyId}
    (hh : ctx.cube.Has (.hierarchy h)) : ctx.Uniform (ctx.hierarchyWith h property) := by
  refine uniform_of_facet (f := .hierarchy h) fun t ht => ?_
  rcases List.mem_append.1 ht with hmem | hmem
  · exact hierarchyMembers_facet hg hh hmem
  · exact calculatedIf_facet hmem

theorem uniform_levelWith (hg : Cube.Graph ctx.cube) (property : Property) {l : LevelId}
    (hl : ctx.cube.Has (.level l)) : ctx.Uniform (ctx.levelWith l property) := by
  refine uniform_of_facet (f := .hierarchy (ctx.cube.level l).hierarchy) fun t ht => ?_
  rcases List.mem_append.1 ht with hmem | hmem
  · exact levelMembers_facet hg hl hmem
  · exact calculatedIf_facet (List.mem_of_mem_filter hmem)

/-! ### Set functions -/

theorem uniform_crossjoin (ha : ctx.Uniform a) (hb : ctx.Uniform b)
    (h : ctx.crossjoin a b = .ok set) : ctx.Uniform set := by
  rcases crossjoin_eq_ok h with rfl | ⟨l, r, hl, hr, hcheck, rfl⟩
  · exact uniform_nil
  · obtain ⟨fs, -, hfs⟩ := ha
    obtain ⟨gs, -, hgs⟩ := hb
    have hnodup := checkTuple_eq_ok_iff.1 hcheck
    rw [facets_append, hfs l hl, hgs r hr] at hnodup
    refine ⟨fs ++ gs, hnodup, fun t ht => ?_⟩
    obtain ⟨l', hl', r', hr', rfl⟩ := mem_product.1 ht
    rw [facets_append, hfs l' hl', hgs r' hr']

/-- Drilling replaces a member by one on the same facet. -/
theorem keptByDrilling_facets (hg : Cube.Graph ctx.cube) (fs : List Facet) :
    ctx.KeptByDrilling fun t => ctx.HasAll t ∧ ctx.facets t = fs := by
  rintro t i e child ⟨hhas, rfl⟩ hat hchild
  refine ⟨keptByDrilling_has hg t i e child hhas hat hchild, facets_set ?_⟩
  rw [facets, List.getElem?_map, hat, Option.map_some,
    childrenOf_facet hg (hhas e (List.mem_of_getElem? hat)) hchild]

theorem uniform_drilldownMember (hg : Cube.Graph ctx.cube) (targets : TupleSet) (recursive : Bool)
    (hhas : ctx.HasSet set) (h : ctx.Uniform set) :
    ctx.Uniform (ctx.drilldownMember set targets recursive) := by
  obtain ⟨fs, hnodup, hspans⟩ := h
  refine ⟨fs, hnodup, fun t ht => ?_⟩
  exact (forall_drilldownMember (keptByDrilling_facets hg fs) targets recursive
    (fun t ht => ⟨hhas t ht, hspans t ht⟩) t ht).2

theorem uniform_drilldownLevel (hg : Cube.Graph ctx.cube) (level? : Option LevelId)
    (hhas : ctx.HasSet set) (h : ctx.Uniform set) :
    ctx.Uniform (ctx.drilldownLevel set level?) := by
  obtain ⟨fs, hnodup, hspans⟩ := h
  refine ⟨fs, hnodup, fun t ht => ?_⟩
  exact (forall_drilldownLevel (keptByDrilling_facets hg fs) level?
    (fun t ht => ⟨hhas t ht, hspans t ht⟩) t ht).2

theorem spans_addCalculatedMembers {fs : List Facet} (h : ctx.Spans fs set) :
    ctx.Spans fs (ctx.addCalculatedMembers set) := by
  refine forall_addCalculatedMembers ?_ h
  rintro t i j rfl - ⟨first, hfirst, hfacet⟩
  exact facets_set (by rw [← hfacet, h first hfirst])

theorem uniform_addCalculatedMembers (h : ctx.Uniform set) :
    ctx.Uniform (ctx.addCalculatedMembers set) := by
  obtain ⟨fs, hnodup, hspans⟩ := h
  exact ⟨fs, hnodup, spans_addCalculatedMembers hspans⟩

/-! ### Evaluation -/

/-- All sets that the scope defines are uniform. -/
def UniformScope (ctx : Context) : Prop :=
  ∀ s ∈ ctx.scope.sets, ctx.Uniform s.tuples

theorem uniform_tuples (hu : ctx.UniformScope) (i : Nat) : ctx.Uniform (ctx.scope.tuples i) := by
  unfold Scope.tuples
  cases hi : ctx.scope.sets[i]? with
  | none => exact uniform_nil
  | some s => exact hu s (Array.mem_of_getElem? hi)

theorem uniform_referredSet (hs : ctx.Sound) (hu : ctx.UniformScope) {r : Referent}
    (hr : ctx.HasReferent r) : ctx.Uniform (ctx.referredSet r) := by
  cases r with
  | dimension id =>
    rw [referredSet, hs.graph.dimension_hierarchies id hr]
    exact uniform_singleton _
  | hierarchy id => exact uniform_singleton _
  | level id => exact uniform_of_facet fun t ht => levelMembers_facet hs.graph hr ht
  | element e => exact uniform_singleton e
  | measures => exact uniform_singleton _
  | namedSet i => exact uniform_tuples hu i

theorem uniform_measures (property : Property) :
    ctx.Uniform (ctx.measureMembers ++ ctx.calculatedIf property .measures) := by
  refine uniform_of_facet (f := .measures) fun t ht => ?_
  rcases List.mem_append.1 ht with hmem | hmem
  · obtain ⟨m, -, rfl⟩ := List.mem_map.1 hmem
    rfl
  · exact calculatedIf_facet hmem

theorem uniform_propertySet? (hs : ctx.Sound) (hu : ctx.UniformScope) {property : Property}
    {r : Referent} (hr : ctx.HasReferent r) (h : ctx.propertySet? property r = some set) :
    ctx.Uniform set := by
  cases propertySet_of_eq_some h with
  | children => exact uniform_map fun c => childrenOf_facet hs.graph hr
  | @parent e =>
    cases ctx.parentOf? e with
    | none => exact uniform_nil
    | some p => exact uniform_singleton p
  | measures => exact uniform_measures _
  | hierarchy => exact uniform_hierarchyWith hs.graph _ hr
  | dimension hfirst =>
    have hmem := List.mem_of_mem_head? hfirst
    exact uniform_hierarchyWith hs.graph _ (dimension_hierarchy_has hs.graph hr hmem)
  | level => exact uniform_levelWith hs.graph _ hr
  | namedSet => exact uniform_tuples hu _

theorem gives_uniform_evalProperty (hs : ctx.Sound) (hu : ctx.UniformScope) (path : Path)
    (property : Property) : (ctx.evalProperty path property).Gives ctx.Uniform := by
  refine gives_bind (gives_resolve hs.graph hs.named path) fun r hr => ?_
  split
  · rename_i set hset
    exact gives_pure (uniform_propertySet? hs hu hr hset)
  · exact gives_fail _

/-- A union of uniform sets is checked as a whole. -/
theorem gives_uniform_union {sets : List TupleSet} (h : ∀ s ∈ sets, ctx.Uniform s) (expr : Expr) :
    (do
      Noted.ofResult (ctx.checkUniform (union sets) expr)
      return union sets).Gives ctx.Uniform := by
  refine gives_bind (P := fun _ => ctx.Uniform (union sets)) (fun v hv => ?_)
    fun _ hset => gives_pure hset
  refine uniform_of_checkUniform hv fun t ht => ?_
  obtain ⟨s, hs, hmem⟩ := List.mem_flatten.1 (List.mem_eraseDups.1 ht)
  exact (h s hs).nodup hmem

theorem gives_uniform_evalCall (hs : ctx.Sound) (f : SetFunction) {operands : List Operand}
    (h : ∀ o ∈ operands, o.2.Gives fun set => ctx.HasSet set ∧ ctx.Uniform set) :
    (ctx.evalCall f operands).Gives ctx.Uniform := by
  have harg := gives_argument h
  have huniform : ∀ o ∈ operands, o.2.Gives ctx.Uniform :=
    fun o ho set hset => (h o ho set hset).2
  cases f with
  | hierarchize =>
    refine gives_bind (harg _ 0) fun set hset => gives_bind gives_true fun post _ => ?_
    exact gives_pure (hset.2.mono fun _ => mem_hierarchize.1)
  | addCalculatedMembers =>
    exact gives_bind (harg _ 0) fun set hset => gives_pure (uniform_addCalculatedMembers hset.2)
  | drilldownMember =>
    refine gives_bind (harg _ 0) fun set hset => gives_bind (harg _ 1) fun targets _ => ?_
    refine gives_bind gives_true fun recursive _ => ?_
    exact gives_pure (uniform_drilldownMember hs.graph targets recursive hset.1 hset.2)
  | drilldownLevel =>
    refine gives_bind (harg _ 0) fun set hset => gives_bind gives_true fun level? _ => ?_
    exact gives_pure (uniform_drilldownLevel hs.graph level? hset.1 hset.2)
  | crossJoin =>
    refine gives_bind (harg _ 0) fun left hleft => gives_crossjoinAll ?_ (fun o ho => ?_) hleft.2
    · exact fun _ _ _ => uniform_crossjoin
    · exact huniform o (List.mem_of_mem_tail ho)
  | union =>
    cases operands with
    | nil => exact gives_pure uniform_nil
    | cons o rest =>
      exact gives_bind (gives_sequence (List.forall_mem_map.2 huniform)) fun sets hsets =>
        gives_uniform_union hsets o.1
  | except =>
    refine gives_bind (harg _ 0) fun a ha => gives_bind (harg _ 1) fun b _ => ?_
    exact gives_pure (ha.2.mono fun t ht => List.mem_of_mem_filter (List.mem_eraseDups.1 ht))
  | distinct =>
    refine gives_bind (harg _ 0) fun set hset => ?_
    exact gives_pure (hset.2.mono fun t ht => List.mem_eraseDups.1 ht)

/-- Whatever the expression, the set is uniform. -/
theorem gives_uniform_evalSet (hs : ctx.Sound) (hu : ctx.UniformScope) (e : Expr) :
    (ctx.evalSet e).Gives ctx.Uniform := by
  -- The operands are sets of the context besides.
  have heach {es : List Expr} (h : ∀ e ∈ es, (ctx.evalSet e).Gives ctx.Uniform) :
      ∀ x ∈ ctx.evalEach es, x.Gives fun set => ctx.HasSet set ∧ ctx.Uniform set :=
    gives_evalEach fun e he => (gives_evalSet hs e).and (h e he)
  induction e using evalSet_induction with
  | path path =>
    rw [evalSet]
    refine gives_bind (gives_resolve hs.graph hs.named path) fun r hr => ?_
    exact gives_pure (uniform_referredSet hs hu hr)
  | property path property =>
    rw [evalSet]
    exact gives_uniform_evalProperty hs hu path property
  | set items ih =>
    rw [evalSet]
    refine gives_bind (gives_sequence (heach ih)) fun sets hsets => ?_
    refine gives_bind (P := fun _ => ctx.Uniform sets.flatten) (fun v hv => ?_)
      fun _ hset => gives_pure hset
    refine uniform_of_checkUniform hv fun t ht => ?_
    obtain ⟨set, hset, hmem⟩ := List.mem_flatten.1 ht
    exact (hsets set hset).2.nodup hmem
  | tuple items _ =>
    -- The tuple itself is checked, whatever its members are.
    rw [evalSet]
    refine gives_bind gives_true fun t _ => ?_
    refine gives_bind (P := fun _ => (ctx.facets t).Nodup) (fun v hv => checkTuple_eq_ok_iff.1 hv)
      fun _ hnodup => gives_pure ⟨ctx.facets t, hnodup, fun u hu => ?_⟩
    rw [List.mem_singleton.1 hu]
  | call f items ih =>
    rw [evalSet]
    exact gives_uniform_evalCall hs f fun o ho => heach ih _ (List.of_mem_zip ho).2
  | multiply left right ihl ihr =>
    rw [evalSet]
    refine gives_bind ihl fun a ha => gives_bind ihr fun b hb => ?_
    exact fun set hset => uniform_crossjoin ha hb hset
  | add left right ihl ihr =>
    rw [evalSet]
    refine gives_bind ihl fun a ha => gives_bind ihr fun b hb => ?_
    refine gives_uniform_union (fun s hmem => ?_) _
    rcases List.mem_pair.1 hmem with rfl | rfl
    · exact ha
    · exact hb
  | other e hfail =>
    rw [hfail]
    exact gives_fail _

/-! ### Definitions -/

section Definitions

variable {c : Cube} {s s' : Scope}

/-- Facets are those of the calculated members, which are all declared before any set is read. -/
theorem uniform_congr (hmembers : s'.members = s.members) (h : Uniform ⟨c, s⟩ set) :
    Uniform ⟨c, s'⟩ set := by
  obtain ⟨fs, hnodup, hspans⟩ := h
  refine ⟨fs, hnodup, fun t ht => ?_⟩
  rw [← hspans t ht]
  refine List.map_congr_left fun e _ => ?_
  cases e with
  | member id => rfl
  | measure id => rfl
  | calculated i =>
    show (s'.member i).facet = (s.member i).facet
    rw [Scope.member, Scope.member, hmembers]

theorem gives_declare_sets (d : Definition) :
    (Scope.declare c s d).Gives fun s' => s'.sets = s.sets := by
  cases d with
  | member d => exact gives_bind gives_true fun m _ => gives_pure rfl
  | set d => exact gives_pure rfl

theorem gives_uniform_read (hs : Sound ⟨c, s⟩) (hu : UniformScope ⟨c, s⟩) (d : Definition) :
    (Scope.read c s d).Gives fun s' => UniformScope ⟨c, s'⟩ := by
  cases d with
  | member d =>
    exact gives_bind gives_true fun f _ =>
      gives_pure fun set hset => uniform_congr rfl (hu set hset)
  | set d =>
    refine gives_bind (gives_uniform_evalSet hs hu _) fun tuples htuples => ?_
    split
    · exact gives_fail _
    · refine gives_pure fun set hset => ?_
      rcases Array.mem_push.1 hset with hold | rfl
      · exact uniform_congr rfl (hu set hold)
      · exact uniform_congr rfl htuples

theorem uniform_ofDefinitions {layout : CubeLayout} {catalog : Catalog}
    (hb : Cube.Built layout catalog c) {definitions : List Definition}
    (hs : (Scope.ofDefinitions c definitions).result = .ok s) : UniformScope ⟨c, s⟩ := by
  have hgives : (Scope.ofDefinitions c definitions).Gives
      fun s => Sound ⟨c, s⟩ ∧ UniformScope ⟨c, s⟩ := by
    refine gives_bind (P := fun s => Sound ⟨c, s⟩ ∧ s.sets = #[]) ?_ fun declared hdeclared => ?_
    · refine gives_foldlM (fun s d h => ?_) definitions ⟨.empty hb, rfl⟩
      refine ((gives_declare h.1 d).and (gives_declare_sets d)).mono fun s' h' => ?_
      exact ⟨h'.1, h'.2.trans h.2⟩
    · refine gives_foldlM (fun s d h => ?_) definitions ⟨hdeclared.1, ?_⟩
      · exact (gives_read h.1 d).and (gives_uniform_read h.1 h.2 d)
      · intro set hset
        rw [hdeclared.2] at hset
        exact absurd hset (Array.not_mem_empty set)
  exact (hgives s hs).2

end Definitions

end Context

end CubeQuery
