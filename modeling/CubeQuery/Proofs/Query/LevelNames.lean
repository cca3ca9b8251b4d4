import CubeQuery.Proofs.Query.Resolving

/-!
Names with a level in front. The captions after the level are followed from the top level down, so
that it is their number which says on what level the member stands. Only a single caption that leads
nowhere from the top is looked for on the level itself.
-/

namespace CubeQuery

open CubeQuery.Language Text

/-- The first that has something to offer decides the search. -/
theorem findSome?_of_find? {α β : Type} {f : α → Option β} {xs : List α} {a : α}
    (h : xs.find? (fun a => (f a).isSome) = some a) : xs.findSome? f = f a := by
  obtain ⟨hsome, before, after, rfl, hbefore⟩ := List.find?_eq_some_iff_append.1 h
  have hskipped : before.findSome? f = none :=
    List.findSome?_eq_none_iff.2 fun x hx => by simpa using hbefore x hx
  rw [List.findSome?_append, hskipped, Option.none_or, List.findSome?_cons_of_isSome hsome]

namespace Cube

variable {c : Cube} {h : HierarchyId} {l : LevelId} {m : MemberId} {name : String}
  {captions : List String} {p : Path}

/-- The level of a hierarchy that a name is looked up as. -/
def levelNamed? (c : Cube) (h : HierarchyId) (name : String) : Option LevelId :=
  (c.hierarchy h).levels.find? fun l => sameName (c.level l).name name

/-- The segments of a path are captions below `name`, which is looked up among the levels of `h`. -/
inductive LevelPath (c : Cube) (p : Path) (h : HierarchyId) (name : String)
    (captions : List String) : Prop
  /-- The dimension and the hierarchy come first. -/
  | full {dimension hierarchy : String}
      (segments : p.segments = dimension :: hierarchy :: name :: captions)
      (inDimension : c.dimensionByName? dimension = some ⟨h.index⟩)
      (inHierarchy : sameName (c.hierarchyName h) hierarchy = true)
  /-- The dimension comes first, and a name of the hierarchy has not been read in `name`. -/
  | inDimension {dimension : String} (segments : p.segments = dimension :: name :: captions)
      (noUniqueName : c.find? p.render = none)
      (inDimension : c.dimensionByName? dimension = some ⟨h.index⟩)
      (noHierarchy : sameName (c.hierarchyName h) name = true → c.resolveBelow? h captions = none)
  /-- Nothing comes before the level, and `h` is the first hierarchy in which this denotes
  anything. -/
  | shortened (segments : p.segments = name :: captions)
      (noUniqueName : c.find? p.render = none)
      (noDimension : c.dimensionByName? name = none)
      (first : c.hierarchyIds.find? (fun h => (c.resolveBelow? h p.segments).isSome) = some h)

/-- How captions below a level denote a member: from the top level down, whatever the level, or as
the caption of a member of the level. -/
inductive BelowLevel (c : Cube) (l : LevelId) (captions : List String) (m : MemberId) : Prop
  | path (captions : c.CaptionPath m captions)
  | caption {caption : String} (single : captions = [caption]) (level : m ∈ (c.level l).members)
      (same : lowercase (c.member m).caption = lowercase caption)

/-! ### Below one hierarchy -/

theorem belowLevel_of_resolveBelow? (hc : Coherent c) (hh : c.Has (.hierarchy h))
    (hl : c.levelNamed? h name = some l) (hne : captions ≠ [])
    (hr : c.resolveBelow? h (name :: captions) = some (.element (.member m))) :
    c.BelowLevel l captions m := by
  rw [levelNamed?] at hl
  rw [resolveBelow?] at hr
  dsimp only at hr
  rw [hl] at hr
  dsimp only at hr
  rw [if_neg hne] at hr
  obtain ⟨found, hfound, heq⟩ := Option.map_eq_some_iff.1 hr
  obtain rfl : found = m := by simpa using heq
  rcases Option.or_eq_some_iff.1 hfound with hwalk | ⟨-, honLevel⟩
  · exact .path (captionPath_of_walkFromAll? hc hh hwalk).2.2
  · split at honLevel
    · rename_i caption
      refine .caption rfl (Array.mem_toList_iff.1 (matchCaption?_mem honLevel)) ?_
      exact lowercase_eq_of_sameName (sameName_of_matchCaption? honLevel)
    · cases honLevel

theorem captionPath_of_resolveBelow? (hc : Coherent c) (hh : c.Has (.hierarchy h))
    (hl : c.levelNamed? h name = none)
    (hr : c.resolveBelow? h (name :: captions) = some (.element (.member m))) :
    c.CaptionPath m (name :: captions) := by
  rw [levelNamed?] at hl
  rw [resolveBelow?] at hr
  dsimp only at hr
  rw [hl] at hr
  obtain ⟨found, hwalk, heq⟩ := Option.map_eq_some_iff.1 hr
  obtain rfl : found = m := by simpa using heq
  exact (captionPath_of_walkFromAll? hc hh hwalk).2.2

/-- A path that begins with some name can do so because of the All member only. -/
theorem CaptionPath.cons (h : c.CaptionPath m (name :: captions)) :
    (name :: captions).map lowercase = (c.member m).captions.map lowercase ∨
      captions.map lowercase = (c.member m).captions.map lowercase := by
  rcases h with hpath | hall
  · exact .inl hpath
  · exact .inr (List.cons.inj hall).2

/-- When the name of the hierarchy is read as a level or a caption, so is that of the level as a
caption, unless it is the one of the All member. -/
theorem captions_of_resolveBelow? (hc : Coherent c) (hh : c.Has (.hierarchy h)) {hierarchy : String}
    (hne : captions ≠ [])
    (hr : c.resolveBelow? h (hierarchy :: name :: captions) = some (.element (.member m))) :
    c.CaptionPath m captions ∨
      ∃ above, (above ++ name :: captions).map lowercase = (c.member m).captions.map lowercase := by
  cases hl : c.levelNamed? h hierarchy with
  | some l =>
    cases belowLevel_of_resolveBelow? hc hh hl (by simp) hr with
    | path hpath =>
      rcases hpath.cons with hname | hcaptions
      · exact .inr ⟨[], hname⟩
      · exact .inl (.inl hcaptions)
    | caption hsingle => exact absurd (List.cons.inj hsingle).2 hne
  | none =>
    rcases (captionPath_of_resolveBelow? hc hh hl hr).cons with hhierarchy | hname
    · exact .inr ⟨[hierarchy], hhierarchy⟩
    · exact .inr ⟨[], hname⟩

/-! ### Below one dimension -/

theorem hierarchy_has_of_dimensionByName? (hc : Coherent c)
    (hd : c.dimensionByName? name = some ⟨h.index⟩) : c.Has (.hierarchy h) := by
  have hhas := dimensionByName?_has hd
  show h.index < c.hierarchies.size
  rw [← hc.graph.dimensions_size]
  exact hhas

theorem resolveInDimension?_eq (hc : Coherent c) (hh : c.Has (.hierarchy h)) {first : String}
    (rest : List String) (hne : rest ≠ []) :
    c.resolveInDimension? ⟨h.index⟩ (first :: rest) =
      (if sameName (c.hierarchyName h) first then c.resolveBelow? h rest else none).or
        (c.resolveBelow? h (first :: rest)) := by
  have hd : c.Has (.dimension ⟨h.index⟩) := by
    show h.index < c.dimensions.size
    rw [hc.graph.dimensions_size]
    exact hh
  rw [resolveInDimension?, hc.graph.dimension_hierarchies _ hd, List.findSome?_singleton,
    List.find?_singleton]
  simp only [if_neg hne]
  split <;> rfl

/-- Three segments come before the captions of a member in its unique name, so that a longer path
which is found there names the member by its captions. -/
theorem captions_of_find? (hc : Coherent c) {first second third : String} (hne : captions ≠ [])
    (hfound : c.find? (bracketedPath (first :: second :: third :: captions)) = some (.member m)) :
    captions.map lowercase = (c.member m).captions.map lowercase := by
  have htitle := title_of_find? hc (by simp) hfound
  rw [title] at htitle
  split at htitle
  · have hlength := congrArg List.length htitle
    simp [hne] at hlength
  · simp only [List.cons_append, List.nil_append, List.map_cons, List.cons.injEq] at htitle
    exact htitle.2.2.2.symm

end Cube

/-! ### The three forms of a name -/

namespace Context

variable {c : Cube} {h : HierarchyId} {l : LevelId} {m : MemberId} {name : String}
  {captions : List String} {p : Path}

theorem belowLevel_of_full (hc : c.Coherent) {dimension hierarchy : String}
    (hsegments : p.segments = dimension :: hierarchy :: name :: captions)
    (hdimension : c.dimensionByName? dimension = some ⟨h.index⟩)
    (hhierarchy : sameName (c.hierarchyName h) hierarchy = true)
    (hl : c.levelNamed? h name = some l) (hne : captions ≠ [])
    (hfound : FoundAs ⟨c, .empty⟩ p (.element (.member m))) :
    c.BelowLevel l captions m ∨ c.resolveBelow? h (name :: captions) = none ∧
      ∃ above, (above ++ name :: captions).map lowercase =
        (c.member m).captions.map lowercase := by
  have hh := Cube.hierarchy_has_of_dimensionByName? hc hdimension
  cases hfound with
  | measure _ _ hfound => exact absurd hfound resolveMeasure?_ne_member
  | uniqueName hfound hobject =>
    obtain rfl := ofEntity_eq_member hobject
    rw [Path.render, hsegments] at hfound
    exact .inl (.path (.inl (Cube.captions_of_find? hc hne hfound)))
  | inDimension hother _ hd hfound =>
    obtain ⟨rfl, rfl⟩ := List.cons.inj (hother.symm.trans hsegments)
    obtain rfl := Option.some.inj (hd.symm.trans hdimension)
    rw [Cube.resolveInDimension?_eq hc hh _ (List.cons_ne_nil _ _), if_pos hhierarchy] at hfound
    rcases Option.or_eq_some_iff.1 hfound with hbelow | ⟨hnone, hbelow⟩
    · exact .inl (Cube.belowLevel_of_resolveBelow? hc hh hl hne hbelow)
    · exact (Cube.captions_of_resolveBelow? hc hh hne hbelow).imp .path fun habove =>
        ⟨hnone, habove⟩
  | shortened hother _ hnone _ =>
    obtain ⟨rfl, -⟩ := List.cons.inj (hother.symm.trans hsegments)
    exact absurd (hdimension.symm.trans hnone) (Option.some_ne_none _)

theorem belowLevel_of_inDimension (hc : c.Coherent) {dimension : String}
    (hsegments : p.segments = dimension :: name :: captions) (hunique : c.find? p.render = none)
    (hdimension : c.dimensionByName? dimension = some ⟨h.index⟩)
    (hhierarchy : sameName (c.hierarchyName h) name = true → c.resolveBelow? h captions = none)
    (hl : c.levelNamed? h name = some l) (hne : captions ≠ [])
    (hfound : FoundAs ⟨c, .empty⟩ p (.element (.member m))) : c.BelowLevel l captions m := by
  have hh := Cube.hierarchy_has_of_dimensionByName? hc hdimension
  cases hfound with
  | measure _ _ hfound => exact absurd hfound resolveMeasure?_ne_member
  | uniqueName hfound _ => exact absurd (hfound.symm.trans hunique) (Option.some_ne_none _)
  | inDimension hother _ hd hfound =>
    obtain ⟨rfl, rfl⟩ := List.cons.inj (hother.symm.trans hsegments)
    obtain rfl := Option.some.inj (hd.symm.trans hdimension)
    rw [Cube.resolveInDimension?_eq hc hh _ hne, ite_eq_right_iff.2 hhierarchy,
      Option.none_or] at hfound
    exact Cube.belowLevel_of_resolveBelow? hc hh hl hne hfound
  | shortened hother _ hnone _ =>
    obtain ⟨rfl, -⟩ := List.cons.inj (hother.symm.trans hsegments)
    exact absurd (hdimension.symm.trans hnone) (Option.some_ne_none _)

theorem belowLevel_of_shortened (hc : c.Coherent) (hsegments : p.segments = name :: captions)
    (hunique : c.find? p.render = none) (hdimension : c.dimensionByName? name = none)
    (hfirst : c.hierarchyIds.find? (fun h => (c.resolveBelow? h p.segments).isSome) = some h)
    (hl : c.levelNamed? h name = some l) (hne : captions ≠ [])
    (hfound : FoundAs ⟨c, .empty⟩ p (.element (.member m))) : c.BelowLevel l captions m := by
  cases hfound with
  | measure _ _ hfound => exact absurd hfound resolveMeasure?_ne_member
  | uniqueName hfound _ => exact absurd (hfound.symm.trans hunique) (Option.some_ne_none _)
  | inDimension hother _ hd _ =>
    obtain ⟨rfl, -⟩ := List.cons.inj (hother.symm.trans hsegments)
    exact absurd (hd.symm.trans hdimension) (Option.some_ne_none _)
  | shortened _ _ _ hfound =>
    have hh : c.Has (.hierarchy h) := by
      obtain ⟨i, hi, rfl⟩ := List.mem_map.1 (List.mem_of_find?_eq_some hfirst)
      exact List.mem_range.1 hi
    have hbelow := (findSome?_of_find? hfirst).symm.trans hfound
    rw [hsegments] at hbelow
    exact Cube.belowLevel_of_resolveBelow? hc hh hl hne hbelow

end Context

/-! ### The All member below another level -/

namespace Sample

/-- The All member stands on its own level, but its caption may follow any level. -/
def allBelowCity : Path := ⟨["Shop", "City", "All Shop"], 0⟩

theorem resolve_allBelowCity :
    Context.resolve ⟨cube, .empty⟩ allBelowCity = pure (.element (.member ⟨0⟩)) :=
  resolve_inDimension rfl (by decide) (by decide)

theorem levelPath_allBelowCity : cube.LevelPath allBelowCity ⟨0⟩ "City" ["All Shop"] := by
  have hfree : cube.find? allBelowCity.render = none := named.find?_eq_none (by decide)
  refine .inDimension rfl hfree (by decide) fun hsame => ?_
  have hother : sameName (cube.hierarchyName ⟨0⟩) "City" = false := by decide
  rw [hother] at hsame
  cases hsame

theorem levelNamed?_city : cube.levelNamed? ⟨0⟩ "City" = some ⟨1⟩ := by
  decide

end Sample

namespace Context

/-- A name with a level in front denotes a member by its captions from the top level down, whatever
the level; or, with a single caption, a member of the level; or nothing is found below the level,
and its name is that of one of the members above. -/
theorem resolve_below_level {layout : CubeLayout} {catalog : Catalog} {c : Cube}
    (hbuild : Cube.build layout catalog = .ok c) {p : Path} {h : HierarchyId} {name : String}
    {captions : List String} {l : LevelId} {m : MemberId} (hpath : c.LevelPath p h name captions)
    (hl : c.levelNamed? h name = some l) (hne : captions ≠ [])
    (hm : (resolve ⟨c, .empty⟩ p).result = .ok (.element (.member m))) :
    c.depth m = (c.member m).captions.length ∧
      (c.BelowLevel l captions m ∨ c.resolveBelow? h (name :: captions) = none ∧
        ∃ above, (above ++ name :: captions).map lowercase =
          (c.member m).captions.map lowercase) := by
  have hc := (Cube.findable_of_build hbuild).coherent
  have hhas : c.Has (.member m) := gives_resolve hc.graph hc.named p _ hm
  refine ⟨hc.depth_eq_length hhas, ?_⟩
  rw [resolve_empty] at hm
  have hfound := foundAs_of_resolveInCube hm
  cases hpath with
  | full hsegments hdimension hhierarchy =>
    exact belowLevel_of_full hc hsegments hdimension hhierarchy hl hne hfound
  | inDimension hsegments hunique hdimension hhierarchy =>
    exact .inl (belowLevel_of_inDimension hc hsegments hunique hdimension hhierarchy hl hne hfound)
  | shortened hsegments hunique hdimension hfirst =>
    exact .inl (belowLevel_of_shortened hc hsegments hunique hdimension hfirst hl hne hfound)

theorem resolve_below_level_city : Sample.cube.BelowLevel ⟨1⟩ ["All Shop"] ⟨0⟩ ∧
    Sample.cube.depth ⟨0⟩ = (Sample.cube.member ⟨0⟩).captions.length := by
  have hm : (resolve ⟨Sample.cube, .empty⟩ Sample.allBelowCity).result =
      .ok (.element (.member ⟨0⟩)) := by
    rw [Sample.resolve_allBelowCity]
    rfl
  obtain ⟨hdepth, hbelow | ⟨hnone, -⟩⟩ := resolve_below_level Sample.build_eq_cube
    Sample.levelPath_allBelowCity Sample.levelNamed?_city (List.cons_ne_nil _ _) hm
  · exact ⟨hbelow, hdepth⟩
  · have hsome : (Sample.cube.resolveBelow? ⟨0⟩ ["City", "All Shop"]).isSome = true := by
      decide
    rw [hnone] at hsome
    cases hsome

/-- The level in front does not say on which level a member stands. -/
theorem resolve_off_level : Cube.build Sample.layout Sample.catalog = .ok Sample.cube ∧
    Sample.cube.LevelPath Sample.allBelowCity ⟨0⟩ "City" ["All Shop"] ∧
    Sample.cube.levelNamed? ⟨0⟩ "City" = some ⟨1⟩ ∧
    (resolve ⟨Sample.cube, .empty⟩ Sample.allBelowCity).result = .ok (.element (.member ⟨0⟩)) ∧
    (Sample.cube.member ⟨0⟩).level ≠ ⟨1⟩ ∧ ⟨0⟩ ∉ (Sample.cube.level ⟨1⟩).members := by
  refine ⟨Sample.build_eq_cube, Sample.levelPath_allBelowCity, Sample.levelNamed?_city, ?_, ?_, ?_⟩
  · rw [Sample.resolve_allBelowCity]
    rfl
  · decide
  · decide +kernel

end Context

end CubeQuery
