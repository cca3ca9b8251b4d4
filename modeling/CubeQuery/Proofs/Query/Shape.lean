import CubeQuery.Proofs.Language.Readable
import CubeQuery.Proofs.Query.Addressing

/-!
The shape of evaluated sets. Besides being uniform, a set has no tuple without members, as long as
no expression is a tuple of nothing, which cannot be written. So the first tuples tell everything
about the facets of an axis, and the members of a cell never get in each other's way.
-/

namespace CubeQuery

open CubeQuery.Language Noted

/-! ### Tuples of nothing -/

namespace Language

/-- Every tuple in an expression has an item. -/
inductive Expr.Itemized : Expr → Prop
  | path (p : Path) : Itemized (.path p)
  | property (p : Path) (relative : Property) : Itemized (.property p relative)
  | set {items : List Expr} (hitems : ∀ e ∈ items, Itemized e) : Itemized (.set items)
  | tuple {items : List Expr} (hne : items ≠ []) (hitems : ∀ e ∈ items, Itemized e) :
      Itemized (.tuple items)
  | call (f : SetFunction) {arguments : List Expr} (harguments : ∀ e ∈ arguments, Itemized e) :
      Itemized (.call f arguments)
  | number (x : Float) : Itemized (.number x)
  | text (s : String) : Itemized (.text s)
  | flag (f : Flag) : Itemized (.flag f)
  | negate {e : Expr} (he : Itemized e) : Itemized (.negate e)
  | binary (op : Operator) {left right : Expr} (hleft : Itemized left) (hright : Itemized right) :
      Itemized (.binary op left right)

/-- What stands in parentheses alone is read as itself, and nothing cannot stand there. -/
theorem Expr.Readable.itemized {e : Expr} (h : e.Readable) : e.Itemized := by
  induction h with
  | path => exact .path _
  | property _ relative => exact .property _ relative
  | set _ ih => exact .set ih
  | tuple hlength _ ih => exact .tuple (List.ne_nil_of_length_pos (by omega)) ih
  | call _ _ ih => exact .call _ ih
  | number => exact .number _
  | text s => exact .text s
  | flag f => exact .flag f
  | negate _ ih => exact .negate ih
  | binary op _ _ ihl ihr => exact .binary op ihl ihr

/-- Tuples in formulas do not matter: only a named set is a set. -/
def Definition.Itemized : Definition → Prop
  | .member _ => True
  | .set d => d.expr.Itemized

theorem Definition.Readable.itemized {d : Definition} (h : d.Readable) : d.Itemized := by
  cases d with
  | member d => trivial
  | set d => exact h.expr.itemized

end Language

namespace Context

variable {ctx : Context} {set : TupleSet}

/-- No tuple is without members. -/
def Populated (set : TupleSet) : Prop :=
  ∀ t ∈ set, t ≠ []

/-! ### Sets that belong to the cube -/

theorem populated_nil : Populated [] :=
  fun _ h => nomatch h

theorem populated_map {α : Type} {f : α → Element} {xs : List α} :
    Populated (xs.map fun x => [f x]) := by
  intro t ht
  obtain ⟨x, -, rfl⟩ := List.mem_map.1 ht
  exact List.cons_ne_nil _ _

theorem Populated.append {a b : TupleSet} (ha : Populated a) (hb : Populated b) :
    Populated (a ++ b) :=
  fun t ht => (List.mem_append.1 ht).elim (ha t) (hb t)

theorem populated_singleton (e : Element) : Populated [[e]] := by
  intro t ht
  obtain rfl := List.mem_singleton.1 ht
  exact List.cons_ne_nil _ _

theorem populated_calculatedIf (property : Property) (facet : Facet) :
    Populated (ctx.calculatedIf property facet) := by
  unfold calculatedIf
  split
  · exact populated_map
  · exact populated_nil

theorem populated_hierarchyMembers (h : HierarchyId) : Populated (ctx.hierarchyMembers h) := by
  intro t ht
  obtain ⟨l, -, ht⟩ := List.mem_flatMap.1 ht
  exact populated_map t ht

/-! ### Evaluation -/

/-- All sets that the scope defines are populated. -/
def PopulatedScope (s : Scope) : Prop :=
  ∀ set ∈ s.sets, Populated set.tuples

theorem populated_tuples (hf : PopulatedScope ctx.scope) (i : Nat) :
    Populated (ctx.scope.tuples i) := by
  unfold Scope.tuples
  cases hi : ctx.scope.sets[i]? with
  | none => exact populated_nil
  | some s => exact hf s (Array.mem_of_getElem? hi)

theorem populated_referredSet (hf : PopulatedScope ctx.scope) (r : Referent) :
    Populated (ctx.referredSet r) := by
  cases r with
  | dimension id =>
    rw [referredSet]
    cases (ctx.cube.dimension id).hierarchies.head? with
    | none => exact populated_nil
    | some h => exact populated_singleton _
  | hierarchy id => exact populated_singleton _
  | level id => exact populated_map
  | element e => exact populated_singleton e
  | measures => exact populated_singleton _
  | namedSet i => exact populated_tuples hf i

theorem populated_propertySet? (hf : PopulatedScope ctx.scope) {property : Property} {r : Referent}
    (h : ctx.propertySet? property r = some set) : Populated set := by
  cases propertySet_of_eq_some h with
  | children | parent => exact populated_map (f := id)
  | measures => exact populated_map.append (populated_calculatedIf _ _)
  | @hierarchy id => exact (populated_hierarchyMembers id).append (populated_calculatedIf _ _)
  | @dimension _ first =>
    exact (populated_hierarchyMembers first).append (populated_calculatedIf _ _)
  | level =>
    refine populated_map.append fun t ht => ?_
    exact populated_calculatedIf _ _ t (List.mem_of_mem_filter ht)
  | namedSet => exact populated_tuples hf _

theorem keptBySets_populated (ctx : Context) : ctx.KeptBySets (· ≠ []) where
  append _ _ ht _ := List.append_ne_nil_of_left_ne_nil ht _
  drilled _ _ _ _ ht _ _ := by simpa using ht
  calculated _ _ _ ht _ := by simpa using ht

theorem gives_populated_evalTuple {operands : List Operand} (hne : operands ≠ [])
    (h : ∀ o ∈ operands, o.2.Gives Populated) : (evalTuple operands).Gives (· ≠ []) := by
  obtain ⟨o, rest, rfl⟩ := List.exists_cons_of_ne_nil hne
  refine gives_bind (h o List.mem_cons_self) fun set hset => ?_
  split
  · rename_i members
    refine gives_bind gives_true fun others _ => gives_pure ?_
    exact List.append_ne_nil_of_left_ne_nil (hset members List.mem_cons_self) others
  · exact gives_fail _

/-- By the cases of the evaluation; only a tuple of nothing would bring in a tuple without
members. -/
theorem gives_populated_evalSet (hf : PopulatedScope ctx.scope) {e : Expr} (he : e.Itemized) :
    (ctx.evalSet e).Gives Populated := by
  have heach {es : List Expr} (h : ∀ e ∈ es, e.Itemized → (ctx.evalSet e).Gives Populated)
      (hitems : ∀ e ∈ es, e.Itemized) : ∀ x ∈ ctx.evalEach es, x.Gives Populated :=
    gives_evalEach fun e he => h e he (hitems e he)
  induction e using evalSet_induction with
  | path path =>
    rw [evalSet]
    exact gives_bind gives_true fun r _ => gives_pure (populated_referredSet hf r)
  | property path property =>
    rw [evalSet]
    refine gives_bind gives_true fun r _ => ?_
    split
    · rename_i set hset
      exact gives_pure (populated_propertySet? hf hset)
    · exact gives_fail _
  | set items ih =>
    cases he with
    | set hitems =>
      rw [evalSet]
      refine gives_bind (gives_sequence (heach ih hitems)) fun sets hsets => ?_
      refine gives_bind gives_true fun _ _ => gives_pure fun t ht => ?_
      obtain ⟨set, hset, hmem⟩ := List.mem_flatten.1 ht
      exact hsets set hset t hmem
  | tuple items ih =>
    cases he with
    | tuple hne hitems =>
      rw [evalSet]
      have hzip : items.zip (ctx.evalEach items) ≠ [] := by
        rw [evalEach_eq_map, ne_eq, List.zip_eq_nil_iff, List.map_eq_nil_iff, or_self]
        exact hne
      refine gives_bind (gives_populated_evalTuple hzip fun o ho =>
        heach ih hitems _ (List.of_mem_zip ho).2) fun t ht => ?_
      refine gives_bind gives_true fun _ _ => gives_pure fun u hu => ?_
      rw [List.mem_singleton.1 hu]
      exact ht
  | call f items ih =>
    cases he with
    | call _ hitems =>
      rw [evalSet]
      exact gives_evalCall (keptBySets_populated ctx) f
        fun o ho => heach ih hitems _ (List.of_mem_zip ho).2
  | multiply left right ihl ihr =>
    cases he with
    | binary _ hleft hright =>
      rw [evalSet]
      refine gives_bind (ihl hleft) fun a ha => gives_bind (ihr hright) fun b hb => ?_
      exact fun set => forall_crossjoin (keptBySets_populated ctx).append ha hb
  | add left right ihl ihr =>
    cases he with
    | binary _ hleft hright =>
      rw [evalSet]
      refine gives_bind (ihl hleft) fun a ha => gives_bind (ihr hright) fun b hb => ?_
      refine gives_bind gives_true fun _ _ => gives_pure (forall_union fun set hset => ?_)
      rcases List.mem_pair.1 hset with rfl | rfl
      · exact ha
      · exact hb
  | other e hfail =>
    rw [hfail]
    exact gives_fail _

/-! ### Definitions -/

section Definitions

variable {c : Cube} {s : Scope}

theorem gives_populated_read (h : PopulatedScope s) {d : Definition} (hd : d.Itemized) :
    (Scope.read c s d).Gives PopulatedScope := by
  cases d with
  | member d => exact gives_bind gives_true fun f _ => gives_pure h
  | set d =>
    have hevalSet : (Context.evalSet ⟨c, s⟩ d.expr).Gives Populated :=
      gives_populated_evalSet h hd
    refine gives_bind hevalSet fun tuples htuples => ?_
    split
    · exact gives_fail _
    · refine gives_pure fun set hset => ?_
      rcases Array.mem_push.1 hset with hold | rfl
      · exact h set hold
      · exact htuples

theorem populated_ofDefinitions {definitions : List Definition}
    (hitems : ∀ d ∈ definitions, d.Itemized)
    (hs : (Scope.ofDefinitions c definitions).result = .ok s) : PopulatedScope s := by
  have hgives : (Scope.ofDefinitions c definitions).Gives PopulatedScope := by
    refine gives_bind (P := fun s => s.sets = #[]) ?_ fun declared hdeclared => ?_
    · exact gives_foldlM (fun s d h => (gives_declare_sets d).mono fun s' h' => h'.trans h)
        definitions rfl
    · refine gives_foldlM_mem (fun d hd s h => gives_populated_read h (hitems d hd))
        fun set hset => ?_
      rw [hdeclared] at hset
      exact absurd hset (Array.not_mem_empty set)
  exact hgives s hs

end Definitions

/-! ### First tuples -/

theorem Uniform.checkTuple_append {a b : TupleSet} {l r t u : Tuple} (ha : ctx.Uniform a)
    (hb : ctx.Uniform b) (hl : l ∈ a) (hr : r ∈ b) (ht : t ∈ a) (hu : u ∈ b)
    (h : ctx.checkTuple (l ++ r) = .ok ()) : ctx.checkTuple (t ++ u) = .ok () := by
  obtain ⟨fs, -, hfs⟩ := ha
  obtain ⟨gs, -, hgs⟩ := hb
  rw [checkTuple_eq_ok_iff, facets_append, hfs l hl, hgs r hr] at h
  rwa [checkTuple_eq_ok_iff, facets_append, hfs t ht, hgs u hu]

/-- No member of an axis is put in place of another one. -/
theorem Plans.choice?_place {statement : Statement} {plan : Plan} {positions : List Nat}
    (h : ctx.Plans statement plan) (hsets : ∀ set ∈ plan.sets, ctx.Uniform set)
    (hwithin : Within plan.sizes positions) {e : Element} (he : e ∈ plan.membersAt positions) :
    (ctx.place plan.base (plan.membersAt positions)).choice? (ctx.facetOf e) = some (.one e) := by
  have hapart : (ctx.facets (plan.membersAt positions)).Nodup :=
    facets_membersAt hsets hwithin ▸ h.apart
  rw [Context.choice?_place hapart, (find?_facet hapart).2 ⟨he, rfl⟩]
  rfl

/-- Whatever an expression evaluates to is known and spans the same facets in every tuple, none of
them twice. It has members in every tuple, unless a tuple of nothing is written somewhere. What
holds of first tuples therefore holds of all: those of a product may be joined, and the members of a
cell keep their places. -/
theorem evalSet_shape {layout : CubeLayout} {catalog : Catalog} {c : Cube}
    (hbuild : Cube.build layout catalog = .ok c) {definitions : List Definition} {s : Scope}
    (hscope : (Scope.ofDefinitions c definitions).result = .ok s) :
    (∀ e set, (evalSet ⟨c, s⟩ e).result = .ok set → HasSet ⟨c, s⟩ set ∧ Uniform ⟨c, s⟩ set ∧
      ((∀ d ∈ definitions, d.Itemized) → e.Itemized → ∀ t ∈ set, t ≠ [])) ∧
    (∀ e e' a b l r, (evalSet ⟨c, s⟩ e).result = .ok (l :: a) →
      (evalSet ⟨c, s⟩ e').result = .ok (r :: b) → checkTuple ⟨c, s⟩ (l ++ r) = .ok () →
      ∀ t ∈ l :: a, ∀ u ∈ r :: b, checkTuple ⟨c, s⟩ (t ++ u) = .ok ()) ∧
    ∀ statement plan, (Context.plan ⟨c, s⟩ statement).result = .ok plan →
      ∀ positions, Within plan.sizes positions → ∀ e ∈ plan.membersAt positions,
        (place ⟨c, s⟩ plan.base (plan.membersAt positions)).choice? (facetOf ⟨c, s⟩ e) =
          some (.one e) := by
  have hb := Cube.built_of_build hbuild
  have hs := sound_ofDefinitions hb hscope
  have huniform (e : Expr) : (evalSet ⟨c, s⟩ e).Gives (Uniform ⟨c, s⟩) :=
    gives_uniform_evalSet hs (uniform_ofDefinitions hb hscope) e
  refine ⟨fun e set hset =>
    ⟨gives_evalSet hs e set hset, huniform e set hset, fun hitems he => ?_⟩, ?_, ?_⟩
  · have hpopulated : (evalSet ⟨c, s⟩ e).Gives Populated :=
      gives_populated_evalSet (populated_ofDefinitions hitems hscope) he
    exact hpopulated set hset
  · intro e e' a b l r ha hb' hcheck t ht u hu
    exact (huniform e _ ha).checkTuple_append (huniform e' _ hb') List.mem_cons_self
      List.mem_cons_self ht hu hcheck
  · intro statement plan hplan positions hwithin e he
    have hplans := plan_eq_ok_iff.1 hplan
    exact hplans.choice?_place (hplans.gives huniform) hwithin he

theorem evalSet_shape_amounts :
    let amounts : Path := ⟨["Amounts"], 0⟩
    let definition : Definition := .set ⟨amounts, .path ⟨["Measures", "Amount"], 0⟩⟩
    let ctx : Context := ⟨Sample.cube, ⟨#[], #[], #[⟨"[Amounts]", [[.measure ⟨0⟩]]⟩]⟩⟩
    definition.Itemized ∧ (Scope.ofDefinitions Sample.cube [definition]).result = .ok ctx.scope ∧
      (ctx.evalSet (.path amounts)).result = .ok [[.measure ⟨0⟩]] ∧
      ctx.HasSet [[.measure ⟨0⟩]] ∧ ctx.Uniform [[.measure ⟨0⟩]] ∧
      ∀ t ∈ [[Element.measure ⟨0⟩]], t ≠ [] := by
  intro amounts definition ctx
  have hitemized : definition.Itemized := .path _
  have hscope : (Scope.ofDefinitions Sample.cube [definition]).result = .ok ctx.scope := by
    have hname : amounts.render = "[Amounts]" := by decide
    simp only [Scope.ofDefinitions, definition, List.foldlM_cons, List.foldlM_nil, Scope.declare,
      Scope.read, result_bind_eq_ok]
    refine ⟨.empty, ⟨.empty, rfl, rfl⟩, _, ⟨_, Sample.evalSet_amount rfl rfl, rfl⟩, ?_⟩
    rw [hname]
    rfl
  have hset : (ctx.evalSet (.path amounts)).result = .ok [[.measure ⟨0⟩]] := by
    have hfound : ctx.scope.findSet? amounts = some 0 := by decide
    have hresolve : ctx.resolve amounts = pure (.namedSet 0) := by
      rw [resolve, hfound]
      rfl
    rw [evalSet, result_bind, hresolve]
    rfl
  have hitems : ∀ d ∈ [definition], d.Itemized := List.forall_mem_singleton.2 hitemized
  obtain ⟨hhas, huniform, hfilled⟩ := (evalSet_shape Sample.build_eq_cube hscope).1 _ _ hset
  exact ⟨hitemized, hscope, hset, hhas, huniform, hfilled hitems (.path _)⟩

/-- A tuple of nothing has no members. And first tuples tell nothing about sets that no expression
evaluates to: the second tuple of this product has two measures. -/
theorem evalSet_tuple_nothing :
    let ctx : Context := ⟨Sample.cube, .empty⟩
    let mixed : TupleSet := [[.member ⟨1⟩], [.measure ⟨0⟩]]
    Cube.build Sample.layout Sample.catalog = .ok Sample.cube ∧
      (Scope.ofDefinitions Sample.cube []).result = .ok ctx.scope ∧
      (ctx.evalSet (.tuple [])).result = .ok [[]] ∧ ¬ (∀ t ∈ ([[]] : TupleSet), t ≠ []) ∧
      ctx.crossjoin mixed [[.measure ⟨0⟩]] =
        .ok [[.member ⟨1⟩, .measure ⟨0⟩], [.measure ⟨0⟩, .measure ⟨0⟩]] ∧
      ctx.facets [.measure ⟨0⟩, .measure ⟨0⟩] = [.measures, .measures] :=
  ⟨Sample.build_eq_cube, rfl, rfl, by simp, rfl, rfl⟩

end Context

end CubeQuery
