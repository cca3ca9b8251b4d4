import CubeQuery.Proofs.Query.MirroredAdditions
import Mathlib.Data.List.Forall2

/-!
Names in scopes that differ in the order of their calculated members. A name denotes the same
object, at another place if it is a calculated member, and the sets that belong to it mirror each
other. Only where all calculated members of a facet are listed does their order show.
-/

namespace CubeQuery

open CubeQuery.Language Context Noted

/-! ### Two steps beside each other -/

/-- If both steps succeed, their results are related. -/
def Noted.Relates {α β : Type} (R : α → β → Prop) (x : Noted α) (y : Noted β) : Prop :=
  ∀ a b, x.result = .ok a → y.result = .ok b → R a b

namespace Noted

variable {α β γ δ : Type} {R : α → β → Prop} {S : γ → δ → Prop} {x : Noted α} {y : Noted β}

theorem relates_pure {a : α} {b : β} (h : R a b) : (pure a : Noted α).Relates R (pure b) := by
  rintro _ _ ⟨⟩ ⟨⟩
  exact h

theorem relates_fail_left (e : Error) : (fail e : Noted α).Relates R y :=
  fun _ _ h => nomatch h

theorem relates_fail_right (e : Error) : x.Relates R (fail e : Noted β) :=
  fun _ _ _ h => nomatch h

theorem relates_true : x.Relates (fun _ _ => True) y :=
  fun _ _ _ _ => trivial

theorem relates_refl : x.Relates Eq x :=
  fun _ _ h h' => Except.ok.inj (h.symm.trans h')

theorem relates_bind {f : α → Noted γ} {g : β → Noted δ} (hxy : x.Relates R y)
    (hfg : ∀ a b, R a b → (f a).Relates S (g b)) : (x >>= f).Relates S (y >>= g) := by
  intro d d' hd hd'
  obtain ⟨a, ha, hd⟩ := result_bind_eq_ok.1 hd
  obtain ⟨b, hb, hd'⟩ := result_bind_eq_ok.1 hd'
  exact hfg a b (hxy a b ha hb) d d' hd hd'

theorem relates_sequence {xs : List (Noted α)} {ys : List (Noted β)}
    (h : List.Forall₂ (Relates R) xs ys) :
    (sequence xs).Relates (List.Forall₂ R) (sequence ys) := by
  induction h with
  | nil => exact relates_pure .nil
  | cons hfirst _ ih =>
    exact relates_bind hfirst fun a b hab =>
      relates_bind ih fun as bs habs => relates_pure (.cons hab habs)

end Noted

/-! ### Names -/

/-- The object, with its place renamed if it is a calculated member. -/
def Referent.renamed (σ : Equiv.Perm ℕ) : Referent → Referent
  | .element e => .element (e.renamed σ)
  | r => r

variable {σ : Equiv.Perm ℕ} {c : Cube} {s s' : Scope} {a a' set set' : TupleSet} {t u : Tuple}
  {e : Element} {f : Facet}

theorem Mirrors.of_eq (h : a' = a.map (List.map (Element.renamed σ))) : Mirrors σ a a' :=
  h ▸ mirrors_renamed a

namespace Renames

theorem findSet?_eq_none (hr : Renames σ s s') (p : Path) :
    s.findSet? p = none ∧ s'.findSet? p = none := by
  rw [Scope.findSet?, Scope.findSet?, hr.sets, hr.sets']
  exact ⟨rfl, rfl⟩

/-- An object of the cube is found without a look at the definitions, and is no calculated
member. -/
theorem relates_resolve (hr : Renames σ s s') (hg : Cube.Graph c) (hn : Cube.Named c) (p : Path) :
    (resolve ⟨c, s⟩ p).Relates (fun r r' => r' = r.renamed σ) (resolve ⟨c, s'⟩ p) := by
  obtain ⟨hset, hset'⟩ := hr.findSet?_eq_none p
  rw [resolve, resolve, hr.found, hset, hset']
  cases s.findMember? p with
  | some i => exact relates_pure rfl
  | none =>
    intro r r' hres hres'
    obtain rfl := Except.ok.inj (hres'.symm.trans hres)
    have hhas : HasReferent ⟨c, .empty⟩ r' := gives_resolveInCube hg hn p r' hres
    cases r' with
    | element e =>
      cases e with
      | calculated i => exact absurd hhas (Nat.not_lt_zero i)
      | member _ => rfl
      | measure _ => rfl
    | _ => rfl

/-! ### Sets that belong to names -/

theorem levelMembers (l : LevelId) : levelMembers ⟨c, s'⟩ l =
    (levelMembers ⟨c, s⟩ l).map (List.map (Element.renamed σ)) := by
  rw [Context.levelMembers, Context.levelMembers, List.map_map]
  rfl

theorem hierarchyMembers (h : HierarchyId) : hierarchyMembers ⟨c, s'⟩ h =
    (hierarchyMembers ⟨c, s⟩ h).map (List.map (Element.renamed σ)) := by
  rw [Context.hierarchyMembers, Context.hierarchyMembers, List.map_flatMap]
  exact List.flatMap_congr fun l _ => levelMembers l

theorem measureMembers : measureMembers ⟨c, s'⟩ =
    (measureMembers ⟨c, s⟩).map (List.map (Element.renamed σ)) := by
  rw [Context.measureMembers, Context.measureMembers, List.map_map]
  rfl

theorem tuples_eq_nil (hr : Renames σ s s') (i : ℕ) : s.tuples i = [] ∧ s'.tuples i = [] := by
  rw [Scope.tuples, Scope.tuples, hr.sets, hr.sets']
  exact ⟨rfl, rfl⟩

theorem referredSet (hr : Renames σ s s') (r : Referent) : referredSet ⟨c, s'⟩ (r.renamed σ) =
    (referredSet ⟨c, s⟩ r).map (List.map (Element.renamed σ)) := by
  cases r with
  | dimension d =>
    show ((c.dimension d).hierarchies.head?.map _).getD [] = _
    rw [Context.referredSet]
    cases (c.dimension d).hierarchies.head? <;> rfl
  | hierarchy h => rfl
  | level l => exact levelMembers l
  | element e => rfl
  | measures => rfl
  | namedSet i =>
    show s'.tuples i = (s.tuples i).map _
    rw [(hr.tuples_eq_nil i).1, (hr.tuples_eq_nil i).2]
    rfl

theorem mem_calculatedOn (hr : Renames σ s s') :
    e.renamed σ ∈ calculatedOn ⟨c, s'⟩ f ↔ e ∈ calculatedOn ⟨c, s⟩ f := by
  rw [Context.mem_calculatedOn, Context.mem_calculatedOn]
  cases e with
  | calculated i =>
    constructor
    · rintro ⟨_, hi, hfacet, heq⟩
      obtain rfl := Element.calculated.inj heq
      exact ⟨i, hr.lt_size_iff.1 hi, (congrArg _ (hr.member i)).symm.trans hfacet, rfl⟩
    · rintro ⟨_, hi, hfacet, heq⟩
      obtain rfl := Element.calculated.inj heq
      exact ⟨σ i, hr.lt_size_iff.2 hi, (congrArg _ (hr.member i)).trans hfacet, rfl⟩
  | member _ => exact iff_of_false nofun nofun
  | measure _ => exact iff_of_false nofun nofun

/-- Here alone the order of definitions shows. -/
theorem calculatedIf (hr : Renames σ s s') (property : Property) (f : Facet) :
    Mirrors σ (calculatedIf ⟨c, s⟩ property f) (calculatedIf ⟨c, s'⟩ property f) := by
  unfold Context.calculatedIf
  split
  · have hsingle {e e' : Element} (h : [e] = [e']) : e = e' := (List.cons.inj h).1
    refine .of_apart ((nodup_calculatedOn f).map fun _ _ => hsingle)
      ((nodup_calculatedOn f).map fun _ _ => hsingle) (fun t => ?_) fun t ht u hu hlineup => ?_
    · rw [List.mem_map, List.mem_map]
      constructor
      · rintro ⟨e', he', heq⟩
        obtain ⟨e, rfl, rfl⟩ := List.map_eq_singleton_iff.1 heq.symm
        exact ⟨e, hr.mem_calculatedOn.1 he', rfl⟩
      · rintro ⟨e, he, rfl⟩
        exact ⟨e.renamed σ, hr.mem_calculatedOn.2 he, rfl⟩
    · obtain ⟨e, he, rfl⟩ := List.mem_map.1 ht
      obtain ⟨e', he', rfl⟩ := List.mem_map.1 hu
      obtain ⟨i, -, -, rfl⟩ := Context.mem_calculatedOn.1 he
      obtain ⟨j, -, -, rfl⟩ := Context.mem_calculatedOn.1 he'
      have hindex : some i = some j := (List.cons.inj hlineup).1
      rw [Option.some.inj hindex]
  · exact mirrors_renamed []

theorem hierarchyWith (hr : Renames σ s s') (property : Property) (h : HierarchyId) :
    Mirrors σ (hierarchyWith ⟨c, s⟩ h property) (hierarchyWith ⟨c, s'⟩ h property) := by
  exact (Mirrors.of_eq (hierarchyMembers h)).append (hr.calculatedIf property _)

theorem levelWith (hr : Renames σ s s') (property : Property) (l : LevelId) :
    Mirrors σ (levelWith ⟨c, s⟩ l property) (levelWith ⟨c, s'⟩ l property) := by
  refine (Mirrors.of_eq (levelMembers l)).append ((hr.calculatedIf property _).filter fun t _ => ?_)
  cases t with
  | nil => rfl
  | cons e t => exact congrArg (· == (c.level l).ordinal) (hr.depth e)

theorem measuresWith (hr : Renames σ s s') (property : Property) :
    Mirrors σ (Context.measureMembers ⟨c, s⟩ ++ Context.calculatedIf ⟨c, s⟩ property .measures)
      (Context.measureMembers ⟨c, s'⟩ ++ Context.calculatedIf ⟨c, s'⟩ property .measures) :=
  (Mirrors.of_eq measureMembers).append (hr.calculatedIf property _)

/-- The children of a member are stored, whatever the member. -/
theorem childSet (e : Element) : (Context.childrenOf ⟨c, s'⟩ (e.renamed σ)).map (fun x => [x]) =
    ((Context.childrenOf ⟨c, s⟩ e).map fun x => [x]).map (List.map (Element.renamed σ)) := by
  rw [childrenOf (s := s), List.map_map]
  refine List.map_congr_left fun x hx => ?_
  obtain ⟨-, child, -, rfl, -⟩ := mem_childrenOf hx
  rfl

/-- So is the member above. -/
theorem parentSet (hr : Renames σ s s') (e : Element) :
    (Context.parentOf? ⟨c, s'⟩ (e.renamed σ)).toList.map (fun p => [p]) =
      ((Context.parentOf? ⟨c, s⟩ e).toList.map fun p => [p]).map
        (List.map (Element.renamed σ)) := by
  rw [hr.parentOf?]
  cases hp : Context.parentOf? ⟨c, s⟩ e with
  | none => rfl
  | some p =>
    have hstored : p.renamed σ = p := by
      cases e with
      | measure _ => cases hp
      | _ =>
        obtain ⟨_, -, rfl⟩ := Option.map_eq_some_iff.1 hp
        rfl
    show [[p]] = [[p.renamed σ]]
    rw [hstored]

theorem propertySet? (hr : Renames σ s s') {property : Property} {r : Referent}
    (h : propertySet? ⟨c, s⟩ property r = some a)
    (h' : propertySet? ⟨c, s'⟩ property (r.renamed σ) = some a') : Mirrors σ a a' := by
  have hset' := propertySet_of_eq_some h'
  clear h'
  generalize hr' : r.renamed σ = r' at hset'
  cases propertySet_of_eq_some h with
  | children hp =>
    cases hset' with
    | children =>
      cases hr'
      exact .of_eq (childSet _)
    | parent hp' => rcases hp with rfl | rfl <;> cases hp'
    | _ => cases hr'
  | parent hp =>
    cases hset' with
    | children hp' => rcases hp' with rfl | rfl <;> cases hp
    | parent =>
      cases hr'
      exact .of_eq (hr.parentSet _)
    | _ => cases hr'
  | measures =>
    cases hset' <;> cases hr'
    exact hr.measuresWith _
  | hierarchy =>
    cases hset' <;> cases hr'
    exact hr.hierarchyWith _ _
  | dimension hfirst =>
    cases hset' with
    | dimension hfirst' =>
      cases hr'
      obtain rfl := Option.some.inj (hfirst.symm.trans hfirst')
      exact hr.hierarchyWith _ _
    | _ => cases hr'
  | level =>
    cases hset' <;> cases hr'
    exact hr.levelWith _ _
  | @namedSet i =>
    cases hset' <;> cases hr'
    rw [(hr.tuples_eq_nil i).1, (hr.tuples_eq_nil i).2]
    exact mirrors_renamed []

end Renames

end CubeQuery
