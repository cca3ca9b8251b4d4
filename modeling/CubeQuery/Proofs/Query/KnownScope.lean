import CubeQuery.Proofs.Query.KnownSets

/-!
Evaluation and the reading of definitions. A set refers to what is there if the definitions that it
uses do, so the invariant is carried from each definition to the next.
-/

namespace CubeQuery

open CubeQuery.Language Noted

namespace Context

/-- A cube that has been built, with definitions that fit it. -/
structure Sound (ctx : Context) : Prop where
  graph : Cube.Graph ctx.cube
  named : Cube.Named ctx.cube
  /-- There is a measure, so that the one declared first is one. -/
  measures : 0 < ctx.cube.measures.size
  fits : ctx.Fits

variable {ctx : Context}

/-! ### Sets -/

theorem tuples_has (hf : ctx.Fits) (i : Nat) : ctx.HasSet (ctx.scope.tuples i) := by
  unfold Scope.tuples
  cases hi : ctx.scope.sets[i]? with
  | none => exact hasSet_nil
  | some s => exact hf.sets s (Array.mem_of_getElem? hi)

theorem referredSet_has (hs : ctx.Sound) {r : Referent} (hr : ctx.HasReferent r) :
    ctx.HasSet (ctx.referredSet r) := by
  cases r with
  | dimension id =>
    rw [referredSet, hs.graph.dimension_hierarchies id hr]
    refine defaultMember_has hs.graph ?_
    show id.index < ctx.cube.hierarchies.size
    rw [← hs.graph.dimensions_size]
    exact hr
  | hierarchy id => exact defaultMember_has hs.graph hr
  | level id => exact levelMembers_has hs.graph hr
  | element e => exact hasSet_singleton hr
  | measures => exact hasSet_singleton (e := .measure _) hs.measures
  | namedSet i => exact tuples_has hs.fits i

theorem calculatedIf_has (property : Property) (facet : Facet) :
    ctx.HasSet (ctx.calculatedIf property facet) := by
  unfold calculatedIf
  split
  · exact hasSet_map (calculatedOn_has facet)
  · exact hasSet_nil

theorem hierarchyWith_has (hs : ctx.Sound) (property : Property) {h : HierarchyId}
    (hh : ctx.cube.Has (.hierarchy h)) : ctx.HasSet (ctx.hierarchyWith h property) :=
  (hierarchyMembers_has hs.graph hh).append (calculatedIf_has _ _)

theorem levelWith_has (hs : ctx.Sound) (property : Property) {l : LevelId}
    (hl : ctx.cube.Has (.level l)) : ctx.HasSet (ctx.levelWith l property) :=
  (levelMembers_has hs.graph hl).append
    ((calculatedIf_has _ _).mono fun _ => List.mem_of_mem_filter)

theorem childSet_has (hs : ctx.Sound) {e : Element} (he : ctx.Has e) :
    ctx.HasSet ((ctx.childrenOf e).map fun c => [c]) :=
  hasSet_map (childrenOf_has hs.graph he)

/-- What the properties of a name denote. `Members` and `AllMembers` differ in the calculated
members alone. -/
inductive PropertySet (ctx : Context) (property : Property) : Referent → TupleSet → Prop
  | children {e : Element} (hp : property = .members ∨ property = .children) :
      PropertySet ctx property (.element e) ((ctx.childrenOf e).map fun c => [c])
  | parent {e : Element} (hp : property = .parent) :
      PropertySet ctx property (.element e) ((ctx.parentOf? e).toList.map fun p => [p])
  | measures : PropertySet ctx property .measures
      (ctx.measureMembers ++ ctx.calculatedIf property .measures)
  | hierarchy {h : HierarchyId} :
      PropertySet ctx property (.hierarchy h) (ctx.hierarchyWith h property)
  | dimension {d : DimensionId} {first : HierarchyId}
      (hfirst : (ctx.cube.dimension d).hierarchies.head? = some first) :
      PropertySet ctx property (.dimension d) (ctx.hierarchyWith first property)
  | level {l : LevelId} : PropertySet ctx property (.level l) (ctx.levelWith l property)
  | namedSet {i : Nat} : PropertySet ctx property (.namedSet i) (ctx.scope.tuples i)

theorem propertySet_of_eq_some {property : Property} {r : Referent} {set : TupleSet}
    (h : ctx.propertySet? property r = some set) : ctx.PropertySet property r set := by
  unfold propertySet? at h
  split at h
  · obtain rfl := Option.some.inj h
    exact .children (.inl rfl)
  · obtain rfl := Option.some.inj h
    exact .children (.inr rfl)
  · obtain rfl := Option.some.inj h
    exact .parent rfl
  iterate 2
    · cases r with
      | dimension d =>
        obtain ⟨first, hfirst, rfl⟩ := Option.map_eq_some_iff.1 h
        exact .dimension hfirst
      | element e => cases h
      | _ =>
        obtain rfl := Option.some.inj h
        constructor
  · cases h

theorem propertySet?_has (hs : ctx.Sound) {property : Property} {r : Referent}
    (hr : ctx.HasReferent r) {set : TupleSet} (h : ctx.propertySet? property r = some set) :
    ctx.HasSet set := by
  cases propertySet_of_eq_some h with
  | children => exact childSet_has hs hr
  | parent =>
    exact hasSet_map fun p hp => parentOf?_has hs.graph hs.fits hr (Option.mem_toList.1 hp)
  | measures => exact measureMembers_has.append (calculatedIf_has _ _)
  | hierarchy => exact hierarchyWith_has hs _ hr
  | dimension hfirst =>
    have hmem := List.mem_of_mem_head? hfirst
    exact hierarchyWith_has hs _ (dimension_hierarchy_has hs.graph hr hmem)
  | level => exact levelWith_has hs _ hr
  | namedSet => exact tuples_has hs.fits _

theorem gives_evalProperty (hs : ctx.Sound) (path : Path) (property : Property) :
    (ctx.evalProperty path property).Gives ctx.HasSet := by
  refine gives_bind (gives_resolve hs.graph hs.named path) fun r hr => ?_
  split
  · rename_i set hset
    exact gives_pure (propertySet?_has hs hr hset)
  · exact gives_fail _

/-! ### Operands -/

section Operands

variable {operands : List Operand}

theorem gives_argument {P : TupleSet → Prop} (h : ∀ o ∈ operands, o.2.Gives P) (f : SetFunction)
    (index : Nat) : (argument f operands index).Gives P := by
  unfold argument
  split
  · rename_i hat
    exact h _ (List.mem_of_getElem? hat)
  · exact gives_fail _

theorem gives_sequence {α : Type} {P : α → Prop} {xs : List (Noted α)}
    (h : ∀ x ∈ xs, x.Gives P) : (Noted.sequence xs).Gives fun as => ∀ a ∈ as, P a := by
  induction xs with
  | nil => exact gives_pure fun _ ha => nomatch ha
  | cons x xs ih =>
    refine gives_bind (h x List.mem_cons_self) fun a ha => ?_
    refine gives_bind (ih fun y hy => h y (List.mem_cons_of_mem x hy)) fun as has => ?_
    exact gives_pure (List.forall_mem_cons.2 ⟨ha, has⟩)

/-- What evaluation gives of every expression it gives of every operand. -/
theorem gives_evalEach {P : TupleSet → Prop} {es : List Expr}
    (h : ∀ e ∈ es, (ctx.evalSet e).Gives P) : ∀ x ∈ ctx.evalEach es, x.Gives P := by
  rw [evalEach_eq_map]
  exact List.forall_mem_map.2 h

theorem gives_crossjoinAll {P : TupleSet → Prop}
    (hP : ∀ a b set, P a → P b → ctx.crossjoin a b = .ok set → P set)
    (h : ∀ o ∈ operands, o.2.Gives P) {left : TupleSet} (hleft : P left) :
    (ctx.crossjoinAll left operands).Gives P := by
  induction operands generalizing left with
  | nil => exact gives_pure hleft
  | cons o rest ih =>
    refine gives_bind (h o List.mem_cons_self) fun right hright => ?_
    refine gives_bind (P := P) (fun joined => hP left right joined hleft hright) ?_
    exact fun joined => ih fun p hp => h p (List.mem_cons_of_mem o hp)

theorem gives_evalCall {P : Tuple → Prop} (hP : ctx.KeptBySets P) (f : SetFunction)
    (h : ∀ o ∈ operands, o.2.Gives fun set => ∀ t ∈ set, P t) :
    (ctx.evalCall f operands).Gives fun set => ∀ t ∈ set, P t := by
  have harg := gives_argument h
  cases f with
  | hierarchize =>
    refine gives_bind (harg _ 0) fun set hset => gives_bind gives_true fun post _ => ?_
    exact gives_pure fun t ht => hset t (mem_hierarchize.1 ht)
  | addCalculatedMembers =>
    refine gives_bind (harg _ 0) fun set hset => gives_pure ?_
    exact forall_addCalculatedMembers (fun t i j ht hj _ => hP.calculated t i j ht hj) hset
  | drilldownMember =>
    refine gives_bind (harg _ 0) fun set hset => gives_bind (harg _ 1) fun targets _ => ?_
    refine gives_bind gives_true fun recursive _ => ?_
    exact gives_pure (forall_drilldownMember hP.drilled targets recursive hset)
  | drilldownLevel =>
    refine gives_bind (harg _ 0) fun set hset => gives_bind gives_true fun level? _ => ?_
    exact gives_pure (forall_drilldownLevel hP.drilled level? hset)
  | crossJoin =>
    refine gives_bind (harg _ 0) fun left hleft =>
      gives_crossjoinAll (P := fun set => ∀ t ∈ set, P t) ?_ (fun o ho => ?_) hleft
    · exact fun _ _ _ => forall_crossjoin hP.append
    · exact h o (List.mem_of_mem_tail ho)
  | union =>
    refine gives_bind (gives_sequence (List.forall_mem_map.2 h)) fun sets hsets => ?_
    have hunion := forall_union hsets
    dsimp only
    split
    · exact gives_bind gives_true fun _ _ => gives_pure hunion
    · exact gives_pure hunion
  | except =>
    refine gives_bind (harg _ 0) fun a ha => gives_bind (harg _ 1) fun b _ => ?_
    exact gives_pure fun t ht => ha t (List.mem_of_mem_filter (List.mem_eraseDups.1 ht))
  | distinct =>
    refine gives_bind (harg _ 0) fun set hset => ?_
    exact gives_pure fun t ht => hset t (List.mem_eraseDups.1 ht)

theorem gives_evalTuple (h : ∀ o ∈ operands, o.2.Gives ctx.HasSet) :
    (evalTuple operands).Gives ctx.HasAll := by
  induction operands with
  | nil => exact gives_pure fun _ he => nomatch he
  | cons o rest ih =>
    refine gives_bind (h o List.mem_cons_self) fun set hset => ?_
    split
    · rename_i members
      refine gives_bind (ih fun p hp => h p (List.mem_cons_of_mem o hp)) fun others hothers => ?_
      exact gives_pure (HasAll.append (hset members List.mem_cons_self) hothers)
    · exact gives_fail _

end Operands

/-- Evaluation brings nothing in from outside, whatever the expression. -/
theorem gives_evalSet (hs : ctx.Sound) (e : Expr) : (ctx.evalSet e).Gives ctx.HasSet := by
  induction e using evalSet_induction with
  | path path =>
    rw [evalSet]
    refine gives_bind (gives_resolve hs.graph hs.named path) fun r hr => ?_
    exact gives_pure (referredSet_has hs hr)
  | property path property =>
    rw [evalSet]
    exact gives_evalProperty hs path property
  | set items ih =>
    rw [evalSet]
    refine gives_bind (gives_sequence (gives_evalEach ih)) fun sets hsets => ?_
    refine gives_bind gives_true fun _ _ => gives_pure fun t ht => ?_
    obtain ⟨set, hset, hmem⟩ := List.mem_flatten.1 ht
    exact hsets set hset t hmem
  | tuple items ih =>
    rw [evalSet]
    refine gives_bind (gives_evalTuple fun o ho => gives_evalEach ih _ (List.of_mem_zip ho).2)
      fun t ht => ?_
    refine gives_bind gives_true fun _ _ => gives_pure (.cons ht hasSet_nil)
  | call f items ih =>
    rw [evalSet]
    exact gives_evalCall (keptBySets_has hs.graph) f
      fun o ho => gives_evalEach ih _ (List.of_mem_zip ho).2
  | multiply left right ihl ihr =>
    rw [evalSet]
    refine gives_bind ihl fun a ha => gives_bind ihr fun b hb => ?_
    exact fun set => forall_crossjoin (fun _ _ => HasAll.append) ha hb
  | add left right ihl ihr =>
    rw [evalSet]
    refine gives_bind ihl fun a ha => gives_bind ihr fun b hb => ?_
    refine gives_bind gives_true fun _ _ => gives_pure (forall_union fun set hset => ?_)
    rcases List.mem_pair.1 hset with rfl | rfl
    · exact ha
    · exact hb
  | other e hfail =>
    rw [hfail]
    exact gives_fail _

/-! ### Definitions -/

theorem gives_formula (hs : ctx.Sound) (e : Expr) : (ctx.formula e).Gives ctx.HasFormula := by
  have hsingle (e : Expr) : (formula.single ctx e).Gives ctx.HasFormula := by
    refine gives_bind (gives_evalSet hs e) fun set hset => ?_
    split
    · exact gives_pure (hset _ List.mem_cons_self)
    · exact gives_fail _
  induction e using formula_induction with
  | number x => exact gives_pure trivial
  | text s => exact gives_pure trivial
  | negate e ih => exact gives_bind ih fun f hf => gives_pure hf
  | binary op left right ihl ihr =>
    exact gives_bind ihl fun l hl => gives_bind ihr fun r hr => gives_pure ⟨hl, hr⟩
  | single e heq =>
    rw [heq]
    exact hsingle e
  | other e hfail =>
    rw [hfail]
    exact gives_fail _

theorem place?_has (hg : Cube.Graph ctx.cube) {r : Referent} (hr : ctx.HasReferent r)
    {place : Facet × Option MemberId} (h : ctx.place? r = some place) :
    ctx.HasPlace place.1 place.2 := by
  have hbelow {id : HierarchyId} (hid : ctx.cube.Has (.hierarchy id)) :
      ctx.HasPlace (.hierarchy id) (some (ctx.cube.hierarchy id).allMember) := by
    obtain ⟨hall, hsame, -⟩ := hg.allMember hid
    exact ⟨hall, by rw [hsame]⟩
  unfold place? at h
  dsimp only at h
  split at h
  · obtain rfl := Option.some.inj h
    exact rfl
  · obtain rfl := Option.some.inj h
    exact ⟨hr, rfl⟩
  · obtain rfl := Option.some.inj h
    exact hbelow hr
  · obtain ⟨id, hid, rfl⟩ := Option.map_eq_some_iff.1 h
    exact hbelow (dimension_hierarchy_has hg hr (List.mem_of_mem_head? hid))
  · cases h

theorem gives_declared (hs : ctx.Sound) (d : MemberDefinition) :
    (ctx.declared d).Gives fun m => ctx.HasPlace m.facet m.parent? := by
  unfold declared
  split
  · exact gives_fail _
  · dsimp only
    split
    · exact gives_fail _
    · refine gives_bind (gives_resolve hs.graph hs.named _) fun r hr => ?_
      split
      · exact gives_fail _
      · rename_i facet parent? hplace
        split
        · exact gives_fail _
        · exact gives_pure (place?_has hs.graph hr hplace)

/-! ### Definition after definition -/

section Growth

variable {c : Cube} {s s' : Scope}

theorem Has.mono (hsize : s.members.size ≤ s'.members.size) {e : Element}
    (h : Context.Has ⟨c, s⟩ e) : Context.Has ⟨c, s'⟩ e := by
  cases e with
  | member id => exact h
  | measure id => exact h
  | calculated i => exact Nat.lt_of_lt_of_le h hsize

theorem HasFormula.mono (hsize : s.members.size ≤ s'.members.size) {f : Formula}
    (h : HasFormula ⟨c, s⟩ f) : HasFormula ⟨c, s'⟩ f := by
  induction f with
  | number x => trivial
  | text t => trivial
  | tuple t => exact fun e he => (h e he).mono hsize
  | negate e ih => exact ih h
  | binary op left right ihl ihr => exact ⟨ihl h.1, ihr h.2⟩

theorem HasSet.grow (hsize : s.members.size ≤ s'.members.size) {set : TupleSet}
    (h : HasSet ⟨c, s⟩ set) : HasSet ⟨c, s'⟩ set :=
  fun t ht e he => (h t ht e he).mono hsize

theorem Sound.empty {layout : CubeLayout} {catalog : Catalog} (hb : Cube.Built layout catalog c) :
    Sound ⟨c, .empty⟩ := by
  refine ⟨hb.graph, hb.named, ?_, ?_⟩
  · show 0 < c.measures.size
    rw [hb.measures]
    exact List.length_pos_iff.2 hb.measures_ne_nil
  · constructor <;> simp [Scope.empty]

theorem Sound.pushMember (h : Sound ⟨c, s⟩) {m : CalculatedMember}
    (hm : HasPlace ⟨c, s⟩ m.facet m.parent?) :
    Sound ⟨c, { s with members := s.members.push m }⟩ := by
  have hsize : s.members.size ≤ (s.members.push m).size := by simp
  refine ⟨h.graph, h.named, h.measures, ?_, ?_, ?_⟩
  · intro m' hm'
    rcases Array.mem_push.1 hm' with hold | rfl
    · exact h.fits.members m' hold
    · exact hm
  · exact fun f hf => (h.fits.formulas f hf).mono hsize
  · exact fun set hset => (h.fits.sets set hset).grow hsize

theorem Sound.pushFormula (h : Sound ⟨c, s⟩) {f : Formula} (hf : HasFormula ⟨c, s⟩ f) :
    Sound ⟨c, { s with formulas := s.formulas.push f }⟩ := by
  have hsize : s.members.size ≤ { s with formulas := s.formulas.push f }.members.size :=
    Nat.le_refl _
  refine ⟨h.graph, h.named, h.measures, h.fits.members, ?_, h.fits.sets⟩
  intro f' hf'
  rcases Array.mem_push.1 hf' with hold | rfl
  · exact (h.fits.formulas f' hold).mono hsize
  · exact hf.mono hsize

theorem Sound.pushSet (h : Sound ⟨c, s⟩) {set : NamedSet} (hset : HasSet ⟨c, s⟩ set.tuples) :
    Sound ⟨c, { s with sets := s.sets.push set }⟩ := by
  have hsize : s.members.size ≤ { s with sets := s.sets.push set }.members.size :=
    Nat.le_refl _
  refine ⟨h.graph, h.named, h.measures, h.fits.members, ?_, ?_⟩
  · exact fun f hf => (h.fits.formulas f hf).mono hsize
  · intro set' hset'
    rcases Array.mem_push.1 hset' with hold | rfl
    · exact h.fits.sets set' hold
    · exact hset

theorem gives_declare (h : Sound ⟨c, s⟩) (d : Definition) :
    (Scope.declare c s d).Gives fun s' => Sound ⟨c, s'⟩ := by
  cases d with
  | member d => exact gives_bind (gives_declared h d) fun m hm => gives_pure (h.pushMember hm)
  | set d => exact gives_pure h

theorem gives_read (h : Sound ⟨c, s⟩) (d : Definition) :
    (Scope.read c s d).Gives fun s' => Sound ⟨c, s'⟩ := by
  cases d with
  | member d => exact gives_bind (gives_formula h _) fun f hf => gives_pure (h.pushFormula hf)
  | set d =>
    refine gives_bind (gives_evalSet h _) fun tuples htuples => ?_
    split
    · exact gives_fail _
    · exact gives_pure (h.pushSet htuples)

theorem gives_foldlM_mem {σ α : Type} {P : σ → Prop} {f : σ → α → Noted σ} {as : List α}
    (hf : ∀ a ∈ as, ∀ s, P s → (f s a).Gives P) {s : σ} (hs : P s) : (as.foldlM f s).Gives P := by
  induction as generalizing s with
  | nil => exact gives_pure hs
  | cons a as ih =>
    rw [List.foldlM_cons]
    refine gives_bind (hf a List.mem_cons_self s hs) fun s' hs' => ?_
    exact ih (fun b hb => hf b (List.mem_cons_of_mem a hb)) hs'

theorem gives_foldlM {σ α : Type} {P : σ → Prop} {f : σ → α → Noted σ}
    (hf : ∀ s a, P s → (f s a).Gives P) (as : List α) {s : σ} (hs : P s) :
    (as.foldlM f s).Gives P :=
  gives_foldlM_mem (fun a _ s => hf s a) hs

/-- What holds of the results for all elements so far holds of that for all. -/
theorem gives_foldlM_prefix {α β : Type} {P : List α → β → Prop} {f : β → α → Noted β} {b : β}
    (h : P [] b) (hf : ∀ before b a, P before b → (f b a).Gives (P (before ++ [a])))
    (as : List α) : (as.foldlM f b).Gives (P as) := by
  induction as using List.reverseRecOn with
  | nil => exact gives_pure h
  | append_singleton as a ih =>
    rw [List.foldlM_append]
    refine gives_bind ih fun b' hb' => ?_
    rw [List.foldlM_cons]
    exact gives_bind (hf as b' a hb') fun b'' hb'' => gives_pure hb''

/-- Whatever the definitions of a query are, a scope that has been read from them fits the cube. -/
theorem sound_ofDefinitions {layout : CubeLayout} {catalog : Catalog}
    (hb : Cube.Built layout catalog c) {definitions : List Definition}
    (hs : (Scope.ofDefinitions c definitions).result = .ok s) : Sound ⟨c, s⟩ := by
  have hgives : (Scope.ofDefinitions c definitions).Gives fun s => Sound ⟨c, s⟩ := by
    refine gives_bind (P := fun s => Sound ⟨c, s⟩) ?_ fun declared hdeclared => ?_
    · exact gives_foldlM (fun _ d h => gives_declare h d) definitions (.empty hb)
    · exact gives_foldlM (fun _ d h => gives_read h d) definitions hdeclared
  exact hgives s hs

end Growth

end Context

end CubeQuery
