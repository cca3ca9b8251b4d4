import CubeQuery.Proofs.Assembly.Build
import CubeQuery.Proofs.Cube.Hierarchy
import CubeQuery.Query.Resolution

/-!
Whatever a name denotes is an object of the cube or of the definitions. Objects are looked up by
number without a check, so this is what keeps every look-up from reading a blank object.
-/

namespace CubeQuery

open CubeQuery.Language

/-! ### Results of steps that may fail -/

/-- If the step succeeds, its result has the property. -/
def Noted.Gives {α : Type} (x : Noted α) (P : α → Prop) : Prop :=
  ∀ a, x.result = .ok a → P a

namespace Noted

variable {α β : Type} {x : Noted α} {f : α → Noted β} {P : α → Prop} {Q : β → Prop}

theorem gives_pure {a : α} (ha : P a) : (pure a : Noted α).Gives P := by
  rintro _ ⟨⟩
  exact ha

theorem gives_fail (e : Error) : (fail e : Noted α).Gives P :=
  fun _ h => nomatch h

theorem gives_bind (hx : x.Gives P) (hf : ∀ a, P a → (f a).Gives Q) : (x >>= f).Gives Q := by
  intro b hb
  rw [result_bind] at hb
  cases hr : x.result with
  | error e =>
    rw [hr] at hb
    cases hb
  | ok a =>
    rw [hr] at hb
    exact hf a (hx a hr) b hb

theorem result_bind_eq_ok {b : β} :
    (x >>= f).result = .ok b ↔ ∃ a, x.result = .ok a ∧ (f a).result = .ok b := by
  rw [result_bind, bind_eq_ok_iff]

theorem gives_true : x.Gives fun _ => True :=
  fun _ _ => trivial

end Noted

open Noted

/-! ### Referents -/

namespace Context

/-- The element is one of the cube or of the definitions. -/
def Has (ctx : Context) : Element → Prop
  | .member id => ctx.cube.Has (.member id)
  | .measure id => ctx.cube.Has (.measure id)
  | .calculated i => i < ctx.scope.members.size

def HasReferent (ctx : Context) : Referent → Prop
  | .dimension id => ctx.cube.Has (.dimension id)
  | .hierarchy id => ctx.cube.Has (.hierarchy id)
  | .level id => ctx.cube.Has (.level id)
  | .element e => ctx.Has e
  | .measures => True
  | .namedSet i => i < ctx.scope.sets.size

end Context

namespace Cube

variable {c : Cube}

theorem dimensionByName?_has {name : String} {d : DimensionId}
    (h : c.dimensionByName? name = some d) : c.Has (.dimension d) := by
  obtain ⟨i, hi, rfl⟩ := Option.map_eq_some_iff.1 h
  obtain ⟨hlt, -⟩ := List.findIdx?_eq_some_iff_getElem.1 hi
  simpa [Has] using hlt

theorem measureByName?_has {name : String} {m : MeasureId} (h : c.measureByName? name = some m) :
    c.Has (.measure m) := by
  obtain ⟨i, hi, rfl⟩ := Option.map_eq_some_iff.1 h
  obtain ⟨hlt, -⟩ := List.findIdx?_eq_some_iff_getElem.1 hi
  simpa [Has] using hlt

theorem find?_has (hn : Named c) {name : String} {e : Entity} (h : c.find? name = some e) :
    c.Has e := by
  rcases Option.or_eq_some_iff.1 h with hexact | ⟨-, hfolded⟩
  · exact ((hn.names_iff name e).1 hexact).1
  · exact (hn.folded _ e hfolded).1

theorem hierarchyIds_has {h : HierarchyId} (hh : h ∈ c.hierarchyIds) : c.Has (.hierarchy h) := by
  obtain ⟨i, hi, rfl⟩ := List.mem_map.1 hh
  exact List.mem_range.1 hi

theorem matchCaption?_mem {ids : List MemberId} {caption : String} {m : MemberId}
    (h : c.matchCaption? ids caption = some m) : m ∈ ids := by
  rcases Option.or_eq_some_iff.1 h with hexact | ⟨-, hfolded⟩
  · exact List.mem_of_find?_eq_some hexact
  · exact List.mem_of_find?_eq_some hfolded

theorem walk?_has (hg : Graph c) {m found : MemberId} (captions : List String)
    (hm : c.Has (.member m)) (h : c.walk? m captions = some found) : c.Has (.member found) := by
  induction captions generalizing m with
  | nil =>
    obtain rfl := Option.some.inj h
    exact hm
  | cons caption rest ih =>
    obtain ⟨child, hchild, hrest⟩ := Option.bind_eq_some_iff.1 h
    exact ih ((hg.mem_memberChildren hm).1 (matchCaption?_mem hchild)).1 hrest

theorem walkFromAll?_has (hg : Graph c) {all found : MemberId} {captions : List String}
    (hall : c.Has (.member all)) (h : c.walkFromAll? all captions = some found) :
    c.Has (.member found) := by
  cases captions with
  | nil =>
    obtain rfl := Option.some.inj h
    exact hall
  | cons first rest =>
    rw [walkFromAll?] at h
    split at h
    · exact walk?_has hg _ hall h
    · exact walk?_has hg _ hall h

end Cube

namespace Context

open CubeQuery.Cube

variable {ctx : Context}

theorem hasReferent_ofEntity {e : Entity} (he : ctx.cube.Has e) :
    ctx.HasReferent (.ofEntity e) := by
  cases e <;> exact he

theorem resolveBelow?_has (hg : Graph ctx.cube) {h : HierarchyId} (hh : ctx.cube.Has (.hierarchy h))
    {captions : List String} {r : Referent} (hr : ctx.cube.resolveBelow? h captions = some r) :
    ctx.HasReferent r := by
  have hall := (hg.allMember hh).1
  cases captions with
  | nil => cases hr
  | cons first rest =>
    rw [resolveBelow?] at hr
    dsimp only at hr
    split at hr
    · rename_i level hfound
      obtain ⟨i, hi⟩ := List.mem_iff_getElem?.1 (List.mem_of_find?_eq_some hfound)
      have hlevel := ((hg.levels_at h hh level i).1 hi).1
      split at hr
      · obtain rfl := Option.some.inj hr
        exact hlevel
      · obtain ⟨m, hm, rfl⟩ := Option.map_eq_some_iff.1 hr
        rcases Option.or_eq_some_iff.1 hm with hwalk | ⟨-, honLevel⟩
        · exact walkFromAll?_has hg hall hwalk
        · split at honLevel
          · have hmem := matchCaption?_mem honLevel
            exact (hg.depth_eq hlevel (Array.mem_toList_iff.1 hmem)).1
          · cases honLevel
    · obtain ⟨m, hm, rfl⟩ := Option.map_eq_some_iff.1 hr
      exact walkFromAll?_has hg hall hm

theorem dimension_hierarchy_has (hg : Graph ctx.cube) {d : DimensionId} {h : HierarchyId}
    (hd : ctx.cube.Has (.dimension d)) (hh : h ∈ (ctx.cube.dimension d).hierarchies) :
    ctx.cube.Has (.hierarchy h) := by
  rw [hg.dimension_hierarchies d hd, List.mem_singleton] at hh
  subst hh
  show d.index < ctx.cube.hierarchies.size
  rw [← hg.dimensions_size]
  exact hd

theorem resolveInDimension?_has (hg : Graph ctx.cube) {d : DimensionId}
    (hd : ctx.cube.Has (.dimension d)) {captions : List String} {r : Referent}
    (hr : ctx.cube.resolveInDimension? d captions = some r) : ctx.HasReferent r := by
  cases captions with
  | nil =>
    obtain rfl := Option.some.inj hr
    exact hd
  | cons first rest =>
    rcases Option.or_eq_some_iff.1 hr with hthrough | ⟨-, hbelow⟩
    · obtain ⟨h, hfound, hrest⟩ := Option.bind_eq_some_iff.1 hthrough
      have hh := dimension_hierarchy_has hg hd (List.mem_of_find?_eq_some hfound)
      split at hrest
      · obtain rfl := Option.some.inj hrest
        exact hh
      · exact resolveBelow?_has hg hh hrest
    · obtain ⟨h, hmem, hrest⟩ := List.exists_of_findSome?_eq_some hbelow
      exact resolveBelow?_has hg (dimension_hierarchy_has hg hd hmem) hrest

theorem resolveMeasure?_has {captions : List String} {r : Referent}
    (hr : ctx.cube.resolveMeasure? captions = some r) : ctx.HasReferent r := by
  match captions with
  | [] =>
    obtain rfl := Option.some.inj hr
    trivial
  | [name] =>
    obtain ⟨m, hm, rfl⟩ := Option.map_eq_some_iff.1 hr
    exact measureByName?_has hm
  | _ :: _ :: _ => cases hr

theorem gives_resolveShortened (hg : Graph ctx.cube) (path : Path) :
    (ctx.resolveShortened path).Gives ctx.HasReferent := by
  have hfound : ∀ r ∈ ctx.cube.hierarchyIds.filterMap
      fun h => ctx.cube.resolveBelow? h path.segments, ctx.HasReferent r := by
    intro r hr
    obtain ⟨h, hmem, hbelow⟩ := List.mem_filterMap.1 hr
    exact resolveBelow?_has hg (hierarchyIds_has hmem) hbelow
  unfold resolveShortened
  split
  · exact gives_fail _
  · rename_i found heq
    exact gives_pure (hfound found (by rw [heq]; exact List.mem_cons_self))
  · rename_i found rest _ heq
    refine gives_bind gives_true fun _ _ => gives_pure (hfound found ?_)
    rw [heq]
    exact List.mem_cons_self

theorem gives_resolveInCube (hg : Graph ctx.cube) (hn : Named ctx.cube) (path : Path) :
    (ctx.resolveInCube path).Gives ctx.HasReferent := by
  unfold resolveInCube
  split
  · exact gives_fail _
  · dsimp only
    split
    · split
      · rename_i r hr
        exact gives_pure (resolveMeasure?_has hr)
      · exact gives_fail _
    · split
      · rename_i entity hentity
        exact gives_pure (hasReferent_ofEntity (find?_has hn hentity))
      · split
        · rename_i d hd
          split
          · rename_i r hr
            exact gives_pure (resolveInDimension?_has hg (dimensionByName?_has hd) hr)
          · exact gives_fail _
        · exact gives_resolveShortened hg path

theorem gives_resolve (hg : Graph ctx.cube) (hn : Named ctx.cube) (path : Path) :
    (ctx.resolve path).Gives ctx.HasReferent := by
  unfold resolve
  split
  · rename_i i hi
    obtain ⟨hlt, -⟩ := List.findIdx?_eq_some_iff_getElem.1 hi
    exact gives_pure (show i < ctx.scope.members.size by simpa using hlt)
  · rename_i i _ hi
    obtain ⟨hlt, -⟩ := List.findIdx?_eq_some_iff_getElem.1 hi
    exact gives_pure (show i < ctx.scope.sets.size by simpa using hlt)
  · exact gives_resolveInCube hg hn path

end Context

end CubeQuery
