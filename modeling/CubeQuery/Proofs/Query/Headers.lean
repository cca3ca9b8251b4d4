import CubeQuery.Proofs.Query.Answer
import CubeQuery.Proofs.Query.Declared
import CubeQuery.Proofs.Query.Naming

/-!
What the headers of an answer say about the place of a member. A client that nests members relies on
the level, the level number and the parent that each header gives. They agree with the cube and with
each other, but for one case: a calculated member below the last level is numbered as if there were
one more level, and shown on the last.
-/

namespace CubeQuery

open CubeQuery.Language

/-- The members that an answer shows, those of the slicer first. -/
def Cellset.headers (cellset : Cellset) : List AxisMember :=
  (cellset.slicer :: cellset.axes).flatMap fun axis => axis.tuples.flatten

/-- The place that a header gives is on this level of this hierarchy. -/
structure AxisMember.PlacedOn (c : Cube) (h : HierarchyId) (l : LevelId) (a : AxisMember) :
    Prop where
  hierarchy_has : c.Has (.hierarchy h)
  hierarchy : (c.hierarchy h).uniqueName = a.hierarchyUniqueName
  level_mem : l ∈ (c.hierarchy h).levels
  level : (c.level l).uniqueName = a.levelUniqueName
  /-- The level has the number that is given, or is the last one if there is no such level. -/
  ordinal : (c.level l).ordinal = min a.levelNumber ((c.hierarchy h).levels.length - 1)
  bound : a.levelNumber ≤ (c.hierarchy h).levels.length
  top : a.parentUniqueName? = none ↔ a.levelNumber = 0
  parent : ∀ u, a.parentUniqueName? = some u → ∃ p, c.Has (.member p) ∧
    (c.member p).hierarchy = h ∧ (c.member p).uniqueName = u ∧ a.levelNumber = c.depth p + 1

namespace Context

variable {ctx : Context} {options : QueryOptions} {statement : Statement} {plan : Plan}
  {set : TupleSet} {e : Element}

/-! ### Where headers come from -/

theorem mem_tuplesAt {positions : List Nat} {t : Tuple} (ht : t ∈ tuplesAt set positions)
    (he : e ∈ t) : t ∈ set := by
  obtain ⟨p, -, rfl⟩ := List.mem_map.1 ht
  exact getD_mem_of_mem he

theorem exists_of_mem_axis {name : String} {properties : List String} {shown : TupleSet}
    {a : AxisMember} (ha : a ∈ (ctx.axis options name properties set shown).tuples.flatten) :
    ∃ t ∈ shown, ∃ e ∈ t, ctx.axisMember options e = a := by
  obtain ⟨row, hrow, ha⟩ := List.mem_flatten.1 ha
  obtain ⟨t, ht, rfl⟩ := List.mem_map.1 hrow
  obtain ⟨e, he, rfl⟩ := List.mem_map.1 ha
  exact ⟨t, ht, e, he, rfl⟩

theorem Plans.slicer_has (h : ctx.Plans statement plan) (hs : ctx.Sound) :
    ctx.HasSet (plan.slicer?.getD []) := by
  have hslicer := h.slicer
  cases hset : plan.slicer? with
  | none => exact hasSet_nil
  | some set =>
    rw [hset, Option.map_some, Option.map_eq_some_iff] at hslicer
    obtain ⟨e, -, he⟩ := hslicer
    exact gives_evalSet hs e set he

/-- What is shown is a member of the cube or of the definitions. -/
theorem exists_of_mem_headers (hs : ctx.Sound) (hplan : ctx.Plans statement plan)
    {kept : List (List Nat)} {cells : List Cell} {a : AxisMember}
    (ha : a ∈ (ctx.cellset options statement plan kept cells).headers) :
    ∃ e, ctx.Has e ∧ ctx.axisMember options e = a := by
  obtain ⟨axis, haxis, ha⟩ := List.mem_flatMap.1 ha
  rcases List.mem_cons.1 haxis with rfl | haxis
  · obtain ⟨t, ht, e, he, rfl⟩ := exists_of_mem_axis ha
    exact ⟨e, hplan.slicer_has hs t ht e he, rfl⟩
  · obtain ⟨⟨clause, set, positions⟩, hmem, rfl⟩ := List.mem_map.1 haxis
    obtain ⟨t, ht, e, he, rfl⟩ := exists_of_mem_axis ha
    have hset : set ∈ plan.sets := (List.of_mem_zip (List.of_mem_zip hmem).2).1
    exact ⟨e, hplan.gives (gives_evalSet hs) set hset t (mem_tuplesAt ht he) e he, rfl⟩

/-! ### Where members stand -/

theorem placedOn_member (hg : Cube.Graph ctx.cube) {m : MemberId} (hm : ctx.cube.Has (.member m)) :
    AxisMember.PlacedOn ctx.cube (ctx.cube.member m).hierarchy (ctx.cube.member m).level
      (ctx.axisMember options (.member m)) := by
  obtain ⟨hlevel, hsame⟩ := hg.member_level m hm
  have hat := (hg.levels_at _ (hg.hierarchy_has hm) _ (ctx.cube.depth m)).2 ⟨hlevel, hsame, rfl⟩
  have hdepth := hg.depth_lt hm
  refine ⟨hg.hierarchy_has hm, rfl, List.mem_of_getElem? hat, rfl, ?_, ?_, ?_, ?_⟩
  · show ctx.cube.depth m = min (ctx.cube.depth m) _
    omega
  · exact Nat.le_of_lt hdepth
  · show Option.map _ (Option.map _ _) = none ↔ ctx.cube.depth m = 0
    rw [Option.map_eq_none_iff, Option.map_eq_none_iff]
    exact hg.parent?_eq_none_iff hm
  · intro u hu
    obtain ⟨e, he, rfl⟩ := Option.map_eq_some_iff.1 hu
    obtain ⟨p, hp, rfl⟩ := Option.map_eq_some_iff.1 he
    obtain ⟨hhas, hhierarchy, hbelow⟩ := hg.parent m p hm hp
    exact ⟨p, hhas, hhierarchy, rfl, hbelow⟩

/-- Of the place of a calculated member, only the level is not settled by its parent. -/
theorem placedOn_of_parent (hg : Cube.Graph ctx.cube) {i : Nat} {p : MemberId} {l : LevelId}
    (hparent : (ctx.scope.member i).parent? = some p)
    (hplace : ctx.HasPlace (ctx.scope.member i).facet (some p))
    (hlevel : l ∈ (ctx.cube.hierarchy (ctx.cube.member p).hierarchy).levels)
    (hname : (ctx.cube.level l).uniqueName = ctx.levelName (.calculated i))
    (hordinal : (ctx.cube.level l).ordinal = min (ctx.cube.depth p + 1)
      ((ctx.cube.hierarchy (ctx.cube.member p).hierarchy).levels.length - 1)) :
    AxisMember.PlacedOn ctx.cube (ctx.cube.member p).hierarchy l
      (ctx.axisMember options (.calculated i)) := by
  obtain ⟨hp, hfacet⟩ := hplace
  have hnumber : (ctx.axisMember options (.calculated i)).levelNumber = ctx.cube.depth p + 1 := by
    simp only [axisMember, depth, hparent]
  refine ⟨hg.hierarchy_has hp, ?_, hlevel, hname, ?_, ?_, ?_, ?_⟩
  · simp only [axisMember, facetOf, hfacet, facetName]
  · rw [hnumber, hordinal]
  · rw [hnumber]
    exact hg.depth_lt hp
  · rw [hnumber]
    simp [axisMember, parentOf?, hparent]
  · intro u hu
    refine ⟨p, hp, rfl, ?_, hnumber⟩
    simpa [axisMember, parentOf?, hparent, uniqueName] using hu

/-- A calculated member is one level below its parent, as far as there is one. -/
theorem exists_placedOn_calculated (hg : Cube.Graph ctx.cube) {i : Nat} {p : MemberId}
    (hparent : (ctx.scope.member i).parent? = some p)
    (hplace : ctx.HasPlace (ctx.scope.member i).facet (some p)) :
    ∃ l, AxisMember.PlacedOn ctx.cube (ctx.cube.member p).hierarchy l
      (ctx.axisMember options (.calculated i)) := by
  have hh := hg.hierarchy_has hplace.1
  have hdepth := hg.depth_lt hplace.1
  cases hbelow : ctx.cube.levelBelow? p with
  | some l =>
    obtain ⟨-, -, hordinal⟩ := (hg.levels_at _ hh l _).1 hbelow
    obtain ⟨hlt, -⟩ := List.getElem?_eq_some_iff.1 hbelow
    have hname : (ctx.cube.level l).uniqueName = ctx.levelName (.calculated i) := by
      simp only [levelName, hparent, hbelow, Option.getD_some]
    exact ⟨l, placedOn_of_parent hg hparent hplace (List.mem_of_getElem? hbelow) hname (by omega)⟩
  | none =>
    -- The parent stands on the last level, which the member is shown on too.
    have hlast := List.getElem?_eq_none_iff.1 hbelow
    have hlevel := (@placedOn_member ctx options hg p hplace.1).level_mem
    have hname : (ctx.cube.level (ctx.cube.member p).level).uniqueName =
        ctx.levelName (.calculated i) := by
      simp only [levelName, hparent, hbelow, Option.getD_none]
    refine ⟨_, placedOn_of_parent hg hparent hplace hlevel hname ?_⟩
    show ctx.cube.depth p = _
    omega

end Context

/-! ### A member below the last level -/

namespace Sample

/-- A member below Rome, where the cube has no level. -/
def corner : MemberDefinition where
  path := ⟨["Shop", "Shop", "City", "Rome", "Corner"], 0⟩
  expr := .number 1.0
  format? := none
  solveOrder := 0

def cornerMember : CalculatedMember :=
  ⟨"Corner", "[Shop].[Shop].[City].[Rome].[Corner]", .hierarchy ⟨0⟩, some ⟨1⟩, none, 0⟩

def cornerContext : Context := ⟨cube, ⟨#[cornerMember], #[.number 1.0], #[]⟩⟩

def cornerReport : Statement :=
  { definitions := [.member corner]
    axes := [⟨0, false, .path corner.path, []⟩]
    cube := "Sample"
    slicer? := none
    cellProperties := [] }

def cornerPlan : Plan := ⟨[[[.calculated 0]]], none, []⟩

def cornerCell : GridCell := ⟨[(.hierarchy ⟨0⟩, .one (.calculated 0))], ⟨.number 1.0, false⟩⟩

theorem declared_corner : (Context.declared ⟨cube, .empty⟩ corner).result = .ok cornerMember := by
  have hrender : corner.path.render = "[Shop].[Shop].[City].[Rome].[Corner]" := by decide
  have hhas : cube.Has (.member ⟨1⟩) := show 1 < cube.members.size by decide
  have hresolve : Context.resolve ⟨cube, .empty⟩ ⟨["Shop", "Shop", "City", "Rome"], 0⟩ =
      pure (.element (.member ⟨1⟩)) :=
    resolve_uniqueName rfl (by decide) hhas rfl rfl
  have hfree : Context.nameTaken ⟨cube, .empty⟩ corner.path "Corner" (.hierarchy ⟨0⟩) = false :=
    Context.nameTaken_eq_false named rfl (by decide) (by decide)
  have hsegments : corner.path.segments = ["Shop", "Shop", "City", "Rome"] ++ ["Corner"] := rfl
  exact Context.declared_eq_ok hsegments (List.cons_ne_nil _ _) hrender hresolve rfl hfree

theorem ofDefinitions_corner :
    (Scope.ofDefinitions cube [.member corner]).result = .ok cornerContext.scope := by
  rw [Scope.ofDefinitions, Noted.result_bind, Context.foldlM_declare_member declared_corner]
  rfl

theorem plan_corner : (cornerContext.plan cornerReport).result = .ok cornerPlan := by
  have hfound : cornerContext.scope.findMember? corner.path = some 0 := by decide
  refine Context.plan_unsliced rfl ?_
  rw [cornerReport, Context.axisSets, Noted.result_bind, Context.evalSet_calculated hfound]
  rfl

def cornerCellset : Cellset :=
  cornerContext.cellset {} cornerReport cornerPlan [[0]] [cornerContext.cell {} 0 cornerCell]

theorem execute_corner : (cube.execute cornerReport {}).result = .ok cornerCellset := by
  have hgrid : cornerContext.grid cornerPlan = .ok [cornerCell] :=
    Context.grid_eq_ok_iff.2 (.cons ⟨rfl, Context.freshCell_number (i := 0) rfl rfl⟩ .nil)
  have hname : Text.sameName cornerReport.cube cube.name = true := by decide
  exact Cube.execute_eq_ok_iff.2
    ⟨hname, _, _, _, ofDefinitions_corner, plan_corner, hgrid, _, rfl, rfl⟩

theorem headers_corner :
    cornerCellset.headers = [cornerContext.axisMember {} (.calculated 0)] := by
  rfl

end Sample

/-! ### Headers of an answer -/

namespace Context

/-- Headers agree with the cube. The level is the one with the given number, which is the depth of
the parent and one more; a calculated member below the last level is shown on that level. -/
theorem headers_placed {layout : CubeLayout} {catalog : Catalog} {c : Cube}
    (hbuild : Cube.build layout catalog = .ok c) {statement : Statement}
    {options : QueryOptions} {cellset : Cellset}
    (h : (c.execute statement options).result = .ok cellset) {a : AxisMember}
    (ha : a ∈ cellset.headers) (hmeasures : a.hierarchyUniqueName ≠ "[Measures]") :
    ∃ h l, a.PlacedOn c h l ∧
      ((∃ m, c.Has (.member m) ∧ (c.member m).uniqueName = a.uniqueName) →
        (c.level l).ordinal = a.levelNumber) := by
  have hb := Cube.built_of_build hbuild
  obtain ⟨-, s, plan, grid, hscope, hplan, -, cells, -, rfl⟩ := Cube.execute_eq_ok_iff.1 h
  have hs := sound_ofDefinitions hb hscope
  obtain ⟨e, he, rfl⟩ := exists_of_mem_headers hs (plan_eq_ok_iff.1 hplan) ha
  cases e with
  | member m =>
    refine ⟨_, _, placedOn_member hb.graph he, fun _ => rfl⟩
  | measure m => exact absurd rfl hmeasures
  | calculated i =>
    have hplace := hs.fits.members _ (member_mem he)
    cases hparent : (s.member i).parent? with
    | none =>
      rw [hparent] at hplace
      refine absurd ?_ hmeasures
      simp only [axisMember, facetOf, show (s.member i).facet = .measures from hplace, facetName]
    | some p =>
      rw [hparent] at hplace
      obtain ⟨l, hplaced⟩ := exists_placedOn_calculated hb.graph hparent hplace
      refine ⟨_, l, hplaced, fun hknown => ?_⟩
      -- No member of the cube has the name of a calculated one.
      have hfresh := (ownNames_ofDefinitions hscope).fresh i he
      obtain ⟨m, hm, hname⟩ := hknown
      have hname := (hb.named.names_iff (s.member i).uniqueName (.member m)).2 ⟨hm, hname⟩
      rw [hfresh] at hname
      cases hname

theorem headers_placed_corner : ∃ h l, Cube.build Sample.layout Sample.catalog = .ok Sample.cube ∧
    AxisMember.PlacedOn Sample.cube h l (Sample.cornerContext.axisMember {} (.calculated 0)) := by
  have ha : Sample.cornerContext.axisMember {} (.calculated 0) ∈ Sample.cornerCellset.headers := by
    rw [Sample.headers_corner]
    exact List.mem_singleton_self _
  have hmeasures : (Sample.cornerContext.axisMember {} (.calculated 0)).hierarchyUniqueName ≠
      "[Measures]" := by
    decide
  obtain ⟨h, l, hplaced, -⟩ :=
    headers_placed Sample.build_eq_cube Sample.execute_corner ha hmeasures
  exact ⟨h, l, Sample.build_eq_cube, hplaced⟩

/-- No level has both the name and the number that are given for a member below the last level. -/
theorem header_off_level : ∃ cellset, Cube.build Sample.layout Sample.catalog = .ok Sample.cube ∧
    (Sample.cube.execute Sample.cornerReport {}).result = .ok cellset ∧
    ∃ a ∈ cellset.headers, a.hierarchyUniqueName = "[Shop].[Shop]" ∧ a.levelNumber = 2 ∧
      ¬ ∃ l, Sample.cube.Has (.level l) ∧ (Sample.cube.level l).uniqueName = a.levelUniqueName ∧
        (Sample.cube.level l).ordinal = a.levelNumber := by
  refine ⟨_, Sample.build_eq_cube, Sample.execute_corner,
    Sample.cornerContext.axisMember {} (.calculated 0), ?_, by decide,
    by decide, ?_⟩
  · rw [Sample.headers_corner]
    exact List.mem_singleton_self _
  · have hlow : ∀ i < 2, (Sample.cube.level ⟨i⟩).ordinal ≠
        (Sample.cornerContext.axisMember {} (.calculated 0)).levelNumber := by
      decide
    rintro ⟨⟨i⟩, hl, -, hordinal⟩
    exact hlow i hl hordinal

end Context

end CubeQuery
