import CubeQuery.Proofs.Query.Known
import CubeQuery.Query.Definitions

/-!
Every set that is evaluated holds objects of the cube and of the definitions, and so does every
definition that has been read. The set functions bring in nothing but children of what they are
given, and calculated members.
-/

namespace CubeQuery

open CubeQuery.Language Noted

namespace Context

def HasAll (ctx : Context) (es : List Element) : Prop :=
  ∀ e ∈ es, ctx.Has e

def HasSet (ctx : Context) (set : TupleSet) : Prop :=
  ∀ t ∈ set, ctx.HasAll t

/-- The tuples of a formula are of the cube and of the definitions. -/
def HasFormula (ctx : Context) : Formula → Prop
  | .number _ => True
  | .text _ => True
  | .tuple t => ctx.HasAll t
  | .negate e => ctx.HasFormula e
  | .binary _ left right => ctx.HasFormula left ∧ ctx.HasFormula right

/-- A place for a calculated member: among the measures, or below a stored member. -/
def HasPlace (ctx : Context) (facet : Facet) : Option MemberId → Prop
  | none => facet = .measures
  | some p => ctx.cube.Has (.member p) ∧ facet = .hierarchy (ctx.cube.member p).hierarchy

/-- The definitions of a scope fit its cube: nothing refers to what is not there. -/
structure Fits (ctx : Context) : Prop where
  members : ∀ m ∈ ctx.scope.members, ctx.HasPlace m.facet m.parent?
  formulas : ∀ f ∈ ctx.scope.formulas, ctx.HasFormula f
  sets : ∀ s ∈ ctx.scope.sets, ctx.HasSet s.tuples

section Sets

variable {ctx : Context} {a b set : TupleSet} {t : Tuple} {e : Element}

theorem hasSet_nil : ctx.HasSet [] :=
  fun _ h => nomatch h

theorem HasSet.mono (hb : ctx.HasSet b) (h : ∀ t ∈ a, t ∈ b) : ctx.HasSet a :=
  fun t ht => hb t (h t ht)

theorem HasSet.append (ha : ctx.HasSet a) (hb : ctx.HasSet b) : ctx.HasSet (a ++ b) := by
  intro t ht
  rcases List.mem_append.1 ht with h | h
  · exact ha t h
  · exact hb t h

theorem HasSet.cons (ht : ctx.HasAll t) (ha : ctx.HasSet a) : ctx.HasSet (t :: a) := by
  intro u hu
  rcases List.mem_cons.1 hu with rfl | h
  · exact ht
  · exact ha u h

theorem HasAll.append {t u : Tuple} (ht : ctx.HasAll t) (hu : ctx.HasAll u) :
    ctx.HasAll (t ++ u) := by
  intro e he
  rcases List.mem_append.1 he with h | h
  · exact ht e h
  · exact hu e h

theorem HasAll.replace (ht : ctx.HasAll t) (he : ctx.Has e) (i : Nat) : ctx.HasAll (t.set i e) := by
  intro x hx
  rcases List.mem_or_eq_of_mem_set hx with h | rfl
  · exact ht x h
  · exact he

/-- One-member tuples. -/
theorem hasSet_map {es : List Element} (hes : ctx.HasAll es) :
    ctx.HasSet (es.map fun e => [e]) := by
  intro t ht
  obtain ⟨e, he, rfl⟩ := List.mem_map.1 ht
  intro x hx
  obtain rfl := List.mem_singleton.1 hx
  exact hes x he

theorem hasSet_singleton (he : ctx.Has e) : ctx.HasSet [[e]] := by
  have hes : ctx.HasAll [e] := by
    intro x hx
    obtain rfl := List.mem_singleton.1 hx
    exact he
  exact hasSet_map hes

/-! ### Members of the cube -/

theorem childrenOf_has (hg : Cube.Graph ctx.cube) (he : ctx.Has e) :
    ctx.HasAll (ctx.childrenOf e) := by
  cases e with
  | member id =>
    intro x hx
    obtain ⟨child, hchild, rfl⟩ := List.mem_map.1 hx
    exact ((hg.mem_memberChildren he).1 hchild).1
  | measure id => exact fun _ h => nomatch h
  | calculated i => exact fun _ h => nomatch h

theorem member_mem_or_blank (scope : Scope) (i : Nat) :
    scope.member i ∈ scope.members ∨ (scope.member i).parent? = none := by
  unfold Scope.member Array.getD
  split
  · exact .inl (Array.getElem_mem _)
  · exact .inr rfl

theorem parentOf?_has (hg : Cube.Graph ctx.cube) (hf : ctx.Fits) (he : ctx.Has e) {p : Element}
    (hp : ctx.parentOf? e = some p) : ctx.Has p := by
  cases e with
  | member id =>
    obtain ⟨q, hq, rfl⟩ := Option.map_eq_some_iff.1 hp
    exact (hg.parent id q he hq).1
  | measure id => cases hp
  | calculated i =>
    obtain ⟨q, hq, rfl⟩ := Option.map_eq_some_iff.1 hp
    rcases member_mem_or_blank ctx.scope i with hmem | hblank
    · have hplace := hf.members _ hmem
      rw [hq] at hplace
      exact hplace.1
    · rw [hblank] at hq
      cases hq

theorem levelMembers_has (hg : Cube.Graph ctx.cube) {l : LevelId} (hl : ctx.cube.Has (.level l)) :
    ctx.HasSet (ctx.levelMembers l) := by
  intro t ht
  obtain ⟨m, hm, rfl⟩ := List.mem_map.1 ht
  have hhas : ctx.Has (.member m) := (hg.depth_eq hl (Array.mem_toList_iff.1 hm)).1
  exact hasSet_singleton hhas _ List.mem_cons_self

theorem hierarchyMembers_has (hg : Cube.Graph ctx.cube) {h : HierarchyId}
    (hh : ctx.cube.Has (.hierarchy h)) : ctx.HasSet (ctx.hierarchyMembers h) := by
  intro t ht
  obtain ⟨l, hl, hmem⟩ := List.mem_flatMap.1 ht
  obtain ⟨i, hi⟩ := List.mem_iff_getElem?.1 hl
  exact levelMembers_has hg ((hg.levels_at h hh l i).1 hi).1 t hmem

theorem measureMembers_has : ctx.HasSet ctx.measureMembers := by
  intro t ht
  obtain ⟨m, hm, rfl⟩ := List.mem_map.1 ht
  obtain ⟨i, hi, rfl⟩ := List.mem_map.1 hm
  have hhas : ctx.Has (.measure ⟨i⟩) := List.mem_range.1 hi
  exact hasSet_singleton hhas _ List.mem_cons_self

theorem defaultMember_has (hg : Cube.Graph ctx.cube) {h : HierarchyId}
    (hh : ctx.cube.Has (.hierarchy h)) : ctx.HasSet [[ctx.defaultMember h]] :=
  hasSet_singleton (hg.allMember hh).1

theorem calculatedOn_has (facet : Facet) : ctx.HasAll (ctx.calculatedOn facet) := by
  intro e he
  obtain ⟨p, hp, rfl⟩ := List.mem_map.1 he
  have hlt := List.snd_lt_of_mem_zipIdx (List.mem_of_mem_filter hp)
  show p.2 < ctx.scope.members.size
  simpa using hlt

/-! ### Set functions -/

@[simp] theorem mem_hierarchize {post : Bool} : t ∈ ctx.hierarchize set post ↔ t ∈ set := by
  simp [hierarchize]

@[simp] theorem mem_product : t ∈ product a b ↔ ∃ l ∈ a, ∃ r ∈ b, t = l ++ r := by
  simp [product, eq_comm]

/-- A product with an empty set is empty; other products are checked by their first tuple. -/
theorem crossjoin_eq_ok (h : ctx.crossjoin a b = .ok set) :
    set = [] ∨ ∃ l r, l ∈ a ∧ r ∈ b ∧ ctx.checkTuple (l ++ r) = .ok () ∧ set = product a b := by
  unfold crossjoin at h
  split at h
  · rename_i l _ r _
    cases hcheck : ctx.checkTuple (l ++ r) with
    | error e =>
      rw [hcheck] at h
      cases h
    | ok u =>
      rw [hcheck] at h
      exact .inr ⟨l, r, List.mem_cons_self, List.mem_cons_self, hcheck, (Except.ok.inj h).symm⟩
  · exact .inl (Except.ok.inj h).symm

theorem forall_crossjoin {P : Tuple → Prop} (happend : ∀ t u, P t → P u → P (t ++ u))
    (ha : ∀ t ∈ a, P t) (hb : ∀ t ∈ b, P t) (h : ctx.crossjoin a b = .ok set) :
    ∀ t ∈ set, P t := by
  rcases crossjoin_eq_ok h with rfl | ⟨-, -, -, -, -, rfl⟩
  · exact fun _ h => nomatch h
  · intro t ht
    obtain ⟨l, hl, r, hr, rfl⟩ := mem_product.1 ht
    exact happend l r (ha l hl) (hb r hr)

theorem forall_union {P : Tuple → Prop} {sets : List TupleSet} (h : ∀ s ∈ sets, ∀ t ∈ s, P t) :
    ∀ t ∈ union sets, P t := by
  intro t ht
  obtain ⟨s, hs, hmem⟩ := List.mem_flatten.1 (List.mem_eraseDups.1 ht)
  exact h s hs t hmem

/-! ### Drilling down -/

/-- Replacing a member of a tuple by one of its children keeps the property. -/
def KeptByDrilling (ctx : Context) (P : Tuple → Prop) : Prop :=
  ∀ t i e child, P t → t[i]? = some e → child ∈ ctx.childrenOf e → P (t.set i child)

theorem forall_interleave {P : Tuple → Prop} {block : TupleSet → Tuple → TupleSet}
    (hblock : ∀ emitted t, P t → ∀ u ∈ block emitted t, P u) (emitted : TupleSet)
    (h : ∀ t ∈ set, P t) : ∀ u ∈ interleave block emitted set, P u := by
  induction set generalizing emitted with
  | nil => exact fun _ hu => nomatch hu
  | cons t rest ih =>
    have ht := h t List.mem_cons_self
    intro u hu
    rcases List.mem_append.1 hu with hhead | hrest
    · rcases List.mem_cons.1 hhead with rfl | hu
      · exact ht
      · exact hblock emitted t ht u hu
    · exact ih _ (fun v hv => h v (List.mem_cons_of_mem t hv)) u hrest

theorem forall_childTuples {P : Tuple → Prop} {further : TupleSet → Tuple → Element → TupleSet}
    {position : Nat} {children : List Element}
    (hchildren : ∀ child ∈ children, P (t.set position child))
    (hfurther : ∀ emitted u child, P u → ∀ v ∈ further emitted u child, P v)
    (present emitted : TupleSet) :
    ∀ u ∈ childTuples present further t position emitted children, P u := by
  induction children generalizing emitted with
  | nil => exact fun _ hu => nomatch hu
  | cons child rest ih =>
    have hfirst := hchildren child List.mem_cons_self
    have ih := ih fun c hc => hchildren c (List.mem_cons_of_mem child hc)
    rw [childTuples]
    dsimp only
    split
    · exact ih emitted
    · intro u hu
      rcases List.mem_append.1 hu with hblock | hrest
      · rcases List.mem_cons.1 hblock with rfl | hu
        · exact hfirst
        · exact hfurther _ _ _ hfirst u hu
      · exact ih _ u hrest

theorem forall_drillTuple {P : Tuple → Prop} (hP : ctx.KeptByDrilling P) (targets : List Element)
    (present : TupleSet) (recursive : Bool) (levels : Nat) (emitted : TupleSet) (ht : P t) :
    ∀ u ∈ ctx.drillTuple targets present recursive levels emitted t, P u := by
  induction levels generalizing emitted t with
  | zero => exact fun _ hu => nomatch hu
  | succ levels ih =>
    rw [drillTuple]
    split
    · exact fun _ hu => nomatch hu
    · rename_i position _
      refine forall_childTuples ?_ (fun emitted u child hu => ?_) present emitted
      · cases hat : t[position]? with
        | none => exact fun _ h => nomatch h
        | some e => exact fun child hchild => hP t position e child ht hat hchild
      · split
        · exact ih emitted hu
        · exact fun _ h => nomatch h

theorem forall_drilldownMember {P : Tuple → Prop} (hP : ctx.KeptByDrilling P) (targets : TupleSet)
    (recursive : Bool) (h : ∀ t ∈ set, P t) :
    ∀ u ∈ ctx.drilldownMember set targets recursive, P u :=
  forall_interleave (fun _ _ ht => forall_drillTuple hP _ _ _ _ _ ht) [] h

theorem forall_drillFirst {P : Tuple → Prop} (hP : ctx.KeptByDrilling P) (depth : Nat)
    (hierarchy? : Option HierarchyId) (h : ∀ t ∈ set, P t) :
    ∀ u ∈ ctx.drillFirst set depth hierarchy?, P u := by
  refine forall_interleave (fun emitted t ht => ?_) [] h
  split
  · split
    · refine forall_childTuples ?_ (fun _ _ _ _ _ h => nomatch h) _ _
      exact fun child hchild => hP _ 0 _ child ht rfl hchild
    · exact fun _ h => nomatch h
  · exact fun _ h => nomatch h

theorem forall_drilldownLevel {P : Tuple → Prop} (hP : ctx.KeptByDrilling P)
    (level? : Option LevelId) (h : ∀ t ∈ set, P t) : ∀ u ∈ ctx.drilldownLevel set level?, P u := by
  unfold drilldownLevel
  split
  · exact forall_drillFirst hP _ _ h
  · split
    · exact forall_drillFirst hP _ _ h
    · exact h

theorem keptByDrilling_has (hg : Cube.Graph ctx.cube) : ctx.KeptByDrilling ctx.HasAll :=
  fun _ i _ child ht hat hchild =>
    ht.replace (childrenOf_has hg (ht _ (List.mem_of_getElem? hat)) child hchild) i

/-! ### Calculated members -/

theorem forall_insertCalculated {P : Tuple → Prop} {position : Nat} (m : CalculatedMember)
    (he : ∀ t, P t → P (t.set position e)) (h : ∀ t ∈ set, P t) :
    ∀ u ∈ ctx.insertCalculated position m e set, P u := by
  unfold insertCalculated
  split
  · exact h
  · split
    · exact h
    · dsimp only
      split
      · rename_i fromEnd _ t ht
        intro u hu
        rcases List.mem_append.1 hu with hbefore | hafter
        · exact h u (List.mem_of_mem_take hbefore)
        · rcases List.mem_cons.1 hafter with rfl | hafter
          · exact he t (h t (List.mem_of_getElem? ht))
          · exact h u (List.mem_of_mem_drop hafter)
      · exact h

/-- Each calculated member takes the place of a member on its own facet. -/
theorem forall_addCalculatedMembers {P : Tuple → Prop}
    (hP : ∀ t i j, P t → j < ctx.scope.members.size →
      (∃ first ∈ set, (ctx.facets first)[i]? = some (ctx.facetOf (.calculated j))) →
      P (t.set i (.calculated j)))
    (h : ∀ t ∈ set, P t) : ∀ u ∈ ctx.addCalculatedMembers set, P u := by
  unfold addCalculatedMembers
  split
  · exact h
  · rename_i first rest
    dsimp only
    refine List.foldlRecOn (motive := fun set => ∀ u ∈ set, P u) _ _ h fun set hset p hp => ?_
    obtain ⟨m, j⟩ := p
    obtain ⟨hj, hm⟩ := List.mem_zipIdx' hp
    rw [Array.getElem_toList] at hm
    split
    · rename_i position hposition
      obtain ⟨hlt, hfacet, -⟩ := List.findIdx?_eq_some_iff_getElem.1 hposition
      refine forall_insertCalculated _ (fun t ht => hP t position j ht hj ?_) hset
      refine ⟨first, List.mem_cons_self, ?_⟩
      rw [List.getElem?_eq_getElem hlt, of_decide_eq_true hfacet, facetOf, Scope.member,
        Array.getD_eq_getD_getElem?, Array.getElem?_eq_getElem hj, hm]
      rfl
    · exact hset

/-! ### Properties of single tuples -/

/-- What the set functions keep: joined tuples have the property, and so has a tuple in which a
child or a calculated member takes the place of a member. -/
structure KeptBySets (ctx : Context) (P : Tuple → Prop) : Prop where
  append : ∀ t u, P t → P u → P (t ++ u)
  drilled : ctx.KeptByDrilling P
  calculated : ∀ t i j, P t → j < ctx.scope.members.size → P (t.set i (.calculated j))

theorem keptBySets_has (hg : Cube.Graph ctx.cube) : ctx.KeptBySets ctx.HasAll where
  append _ _ := HasAll.append
  drilled := keptByDrilling_has hg
  calculated _ i j ht hj := ht.replace (e := .calculated j) hj i

end Sets

end Context

end CubeQuery
