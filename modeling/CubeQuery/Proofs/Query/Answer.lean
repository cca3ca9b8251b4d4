import CubeQuery.Proofs.Query.Place
import CubeQuery.Proofs.Query.Positions
import CubeQuery.Query.Cellset

/-!
What a query goes through on the way to its answer. Its axes and its slicer are evaluated, then the
cells one after another; whatever the cells before it have left behind, a cell has the value of its
own coordinate.
-/

namespace CubeQuery

open CubeQuery.Language Noted

/-! ### From a statement to its cellset -/

theorem Cube.execute_eq_ok_iff {c : Cube} {statement : Statement} {options : QueryOptions}
    {cellset : Cellset} : (c.execute statement options).result = .ok cellset ↔
      Text.sameName statement.cube c.name = true ∧ ∃ s plan grid,
        (Scope.ofDefinitions c statement.definitions).result = .ok s ∧
        (Context.plan ⟨c, s⟩ statement).result = .ok plan ∧ Context.grid ⟨c, s⟩ plan = .ok grid ∧
        ∃ cells, Context.cells ⟨c, s⟩ options plan.sizes (keptOf statement.axes plan.sizes grid)
          grid.toArray = .ok cells ∧ cellset = Context.cellset ⟨c, s⟩ options statement plan
            (keptOf statement.axes plan.sizes grid) cells := by
  unfold Cube.execute
  split
  · rename_i hname
    simp only [hname, true_and, result_bind_eq_ok, Context.answer, result_ofResult, result_pure,
      Except.ok.injEq]
    constructor
    · rintro ⟨s, hs, plan, hplan, grid, hgrid, cells, hcells, rfl⟩
      exact ⟨s, plan, grid, hs, hplan, hgrid, cells, hcells, rfl⟩
    · rintro ⟨s, plan, grid, hs, hplan, hgrid, cells, hcells, rfl⟩
      exact ⟨s, hs, plan, hplan, grid, hgrid, cells, hcells, rfl⟩
  · rename_i hname
    simp [hname]

theorem keptCell_eq_ok_iff {sizes : List Nat} {kept : List (List Nat)} {grid : Array GridCell}
    {n : Nat} {cell : GridCell} : keptCell sizes kept grid n = .ok cell ↔
      ∃ positions, positions? (kept.map List.length) n = some positions ∧
        grid[ordinalOf sizes (originals kept positions)]? = some cell := by
  rw [keptCell, ← Option.bind_eq_some_iff, ← Option.bind_eq_bind]
  split <;> simp [*]

theorem Context.cells_eq_ok_iff {ctx : Context} {options : QueryOptions} {sizes : List Nat}
    {kept : List (List Nat)} {grid : Array GridCell} {shown : List Cell} :
    ctx.cells options sizes kept grid = .ok shown ↔ List.Forall₂ (fun n cell =>
      ∃ content, keptCell sizes kept grid n = .ok content ∧ ctx.cell options n content = cell)
      (List.range (cellCount (kept.map List.length))) shown := by
  have hcell (n : Nat) (cell : Cell) : (do
      return ctx.cell options n (← keptCell sizes kept grid n) : Except Error Cell) = .ok cell ↔
      ∃ content, keptCell sizes kept grid n = .ok content ∧ ctx.cell options n content = cell := by
    rw [bind_eq_ok_iff]
    simp [pure, Except.pure]
  rw [cells, mapM_eq_ok_iff]
  simp only [hcell]

/-- The cells that a statement asks for all have numbers of their own. -/
def Cube.CountsCells (c : Cube) (statement : Statement) : Prop :=
  ∀ s plan, (Scope.ofDefinitions c statement.definitions).result = .ok s →
    (Context.plan ⟨c, s⟩ statement).result = .ok plan → Unwrapped plan.sizes

namespace Context

variable {ctx : Context} {statement : Statement} {plan : Plan} {positions : List Nat}

/-! ### Axes and slicer -/

/-- The facets of the tuples of a set, as its first tuple has them. -/
def signature (ctx : Context) (set : TupleSet) : List Facet :=
  ctx.facets (set.head?.getD [])

theorem facets_eq_signature {set : TupleSet} {t : Tuple} (h : ctx.Uniform set) (ht : t ∈ set) :
    ctx.facets t = ctx.signature set := by
  obtain ⟨fs, -, hspans⟩ := h
  cases set with
  | nil => cases ht
  | cons first rest => exact (hspans t ht).trans (hspans first List.mem_cons_self).symm

/-- What has been evaluated is what the statement says, and the axes have no facet in common. -/
structure Plans (ctx : Context) (statement : Statement) (plan : Plan) : Prop where
  sets : List.Forall₂ (fun clause set => (ctx.evalSet clause.set).result = .ok set)
    statement.axes plan.sets
  slicer : statement.slicer?.map (fun e => (ctx.evalSet e).result) = plan.slicer?.map .ok
  base : ctx.slicerCoordinate (plan.slicer?.getD []) = .ok plan.base
  apart : (plan.sets.flatMap ctx.signature).Nodup

/-- By induction on the axes: each is free of the facets of those before it. -/
theorem axisSets_eq_ok_iff {used : List Facet} {axes : List AxisClause} {sets : List TupleSet} :
    (ctx.axisSets used axes).result = .ok sets ↔
      List.Forall₂ (fun clause set => (ctx.evalSet clause.set).result = .ok set) axes sets ∧
      (sets.flatMap ctx.signature).Nodup ∧ ∀ f ∈ sets.flatMap ctx.signature, f ∉ used := by
  induction axes generalizing used sets with
  | nil =>
    rw [axisSets, result_pure, Except.ok.injEq, List.forall₂_nil_left_iff, eq_comm]
    refine (and_iff_left_of_imp ?_).symm
    rintro rfl
    simp
  | cons clause rest ih =>
    rw [axisSets, result_bind_eq_ok]
    constructor
    · rintro ⟨set, hset, h⟩
      dsimp only at h
      split at h
      · cases h
      · rename_i hnone
        obtain ⟨hnodup, hfree⟩ := repeatedFacet?_eq_none.1 hnone
        rw [result_bind_eq_ok] at h
        obtain ⟨others, hothers, h⟩ := h
        obtain rfl := Except.ok.inj h
        obtain ⟨hsets, hnodups, hfrees⟩ := ih.1 hothers
        rw [List.flatMap_cons, List.nodup_append]
        refine ⟨.cons hset hsets, ⟨hnodup, hnodups, fun f hf g hg heq => ?_⟩, fun f hf hused => ?_⟩
        · exact hfrees g hg (List.mem_append_left _ (heq ▸ hf))
        · rcases List.mem_append.1 hf with hf | hf
          · exact hfree f hf hused
          · exact hfrees f hf (List.mem_append_right _ hused)
    · rintro ⟨hsets, hnodup, hfree⟩
      cases hsets with
      | @cons _ set _ others hset hothers =>
        -- The facets of the first axis are used up for the others.
        rw [List.flatMap_cons] at hnodup hfree
        obtain ⟨hfirst, hrest, hapart⟩ := List.nodup_append.1 hnodup
        have hnone : repeatedFacet? used (ctx.facets (set.head?.getD [])) = none :=
          repeatedFacet?_eq_none.2 ⟨hfirst, fun f hf => hfree f (List.mem_append_left _ hf)⟩
        refine ⟨set, hset, ?_⟩
        dsimp only
        rw [hnone]
        refine result_bind_eq_ok.2 ⟨others, ih.2 ⟨hothers, hrest, fun f hf hused => ?_⟩, rfl⟩
        rcases List.mem_append.1 hused with hused | hused
        · exact hapart f hused f hf rfl
        · exact hfree f (List.mem_append_right _ hf) hused

theorem plan_eq_ok_iff : (ctx.plan statement).result = .ok plan ↔ ctx.Plans statement plan := by
  simp only [Context.plan, result_bind_eq_ok, result_ofResult, result_pure, Except.ok.injEq]
  constructor
  · rintro ⟨sets, hsets, slicer?, hslicer, base, hbase, rfl⟩
    obtain ⟨hevaluated, hapart, -⟩ := axisSets_eq_ok_iff.1 hsets
    refine ⟨hevaluated, ?_, hbase, hapart⟩
    cases he : statement.slicer? with
    | none =>
      rw [he] at hslicer
      obtain rfl := Except.ok.inj hslicer
      rfl
    | some e =>
      rw [he, evalSlicer, result_bind_eq_ok] at hslicer
      obtain ⟨set, hset, hsome⟩ := hslicer
      obtain rfl := Except.ok.inj hsome
      rw [Option.map_some, Option.map_some, hset]
  · rintro ⟨hsets, hslicer, hbase, hapart⟩
    refine ⟨plan.sets, axisSets_eq_ok_iff.2 ⟨hsets, hapart, by simp⟩, plan.slicer?, ?_, plan.base,
      hbase, rfl⟩
    cases he : statement.slicer? with
    | none =>
      rw [he, Option.map_none, eq_comm, Option.map_eq_none_iff] at hslicer
      rw [hslicer]
      rfl
    | some e =>
      rw [he, Option.map_some, eq_comm, Option.map_eq_some_iff] at hslicer
      obtain ⟨set, hset, heq⟩ := hslicer
      rw [hset]
      exact result_bind_eq_ok.2 ⟨set, heq.symm, rfl⟩

/-- Nothing is shared by the cells of a statement without a slicer. -/
theorem plan_unsliced {sets : List TupleSet} (hslicer : statement.slicer? = none)
    (hsets : (ctx.axisSets [] statement.axes).result = .ok sets) :
    (ctx.plan statement).result = .ok ⟨sets, none, []⟩ := by
  have hbase : ctx.slicerCoordinate [] = .ok [] := by
    simp [slicerCoordinate, facetsOf, pure, Except.pure]
  simp only [Context.plan, result_bind_eq_ok, hslicer]
  exact ⟨sets, hsets, none, rfl, [], hbase, rfl⟩

/-- What holds of every set that is evaluated holds of the sets of the axes. -/
theorem Plans.gives {P : TupleSet → Prop} (h : ctx.Plans statement plan)
    (hP : ∀ e, (ctx.evalSet e).Gives P) : ∀ set ∈ plan.sets, P set := by
  intro set hset
  obtain ⟨clause, -, heval⟩ := exists_of_forall₂ h.sets hset
  exact hP _ _ heval

/-- A position behind the end has no tuple, so it has no element either. -/
theorem getD_mem_of_mem {set : TupleSet} {p : Nat} {e : Element} (he : e ∈ set.getD p []) :
    set.getD p [] ∈ set := by
  rw [List.getD_eq_getElem?_getD] at he ⊢
  cases hp : set[p]? with
  | none =>
    rw [hp] at he
    cases he
  | some t => exact List.mem_of_getElem? hp

theorem mem_membersAt {e : Element} (h : e ∈ plan.membersAt positions) :
    ∃ set ∈ plan.sets, ∃ t ∈ set, e ∈ t := by
  obtain ⟨t, ht, he⟩ := List.mem_flatten.1 h
  obtain ⟨i, hi⟩ := List.mem_iff_getElem?.1 ht
  obtain ⟨set, p, hset, -, rfl⟩ := List.getElem?_zipWith_eq_some.1 hi
  exact ⟨set, List.mem_of_getElem? hset, set.getD p [], getD_mem_of_mem he, he⟩

/-- The members at some positions lie on different facets, as no axis shares a facet with
another. -/
theorem facets_membersAt (hsets : ∀ set ∈ plan.sets, ctx.Uniform set)
    (h : Within plan.sizes positions) :
    ctx.facets (plan.membersAt positions) = plan.sets.flatMap ctx.signature := by
  obtain ⟨sets, slicer?, base⟩ := plan
  unfold Plan.membersAt
  dsimp only [Plan.sizes] at h hsets ⊢
  induction sets generalizing positions with
  | nil => simp [facets]
  | cons set sets ih =>
    cases h with
    | @cons p _ positions _ hp hrest =>
      have ih := ih (fun s hs => hsets s (List.mem_cons_of_mem set hs)) hrest
      have hmem : set.getD p [] ∈ set := by
        rw [List.getD_eq_getElem _ _ hp]
        exact List.getElem_mem hp
      rw [List.zipWith_cons_cons, List.flatten_cons, facets_append, ih, List.flatMap_cons,
        facets_eq_signature (hsets set List.mem_cons_self) hmem]

/-! ### Cells -/

/-- What the cell at some positions contains, whatever cells there are beside it. -/
def contentAt (ctx : Context) (plan : Plan) (positions : List Nat) : Except Error CellValue :=
  if plan.selectsNothing then .ok ⟨.null, true⟩
  else ctx.freshCell (ctx.place plan.base (plan.membersAt positions))

theorem recalls_mapM {α β : Type} {f : α → Recall β} {g : α → Except Error β}
    (h : ∀ a, ctx.Recalls (f a) (g a)) (as : List α) :
    ctx.Recalls (as.mapM f) (as.mapM g) := by
  induction as with
  | nil => exact recalls_pure []
  | cons a as ih =>
    rw [List.mapM_cons, List.mapM_cons]
    exact recalls_bind (h a) fun b _ => recalls_bind ih fun bs _ => recalls_pure _

theorem recalls_gridCell (plan : Plan) (positions : List Nat) :
    ctx.Recalls (ctx.gridCell plan positions)
      (return ⟨ctx.place plan.base (plan.membersAt positions),
        ← ctx.contentAt plan positions⟩) := by
  rw [gridCell, contentAt]
  split
  · exact recalls_pure _
  · rw [freshCell_eq]
    exact recalls_bind (recalls_evalCell _) fun _ _ => recalls_pure _

/-- Whether a cell of the grid is the one at some positions. -/
def IsCell (ctx : Context) (plan : Plan) (positions : List Nat) (cell : GridCell) : Prop :=
  cell.coordinate = ctx.place plan.base (plan.membersAt positions) ∧
    ctx.contentAt plan positions = .ok cell.content

theorem grid_eq_ok_iff {grid : List GridCell} : ctx.grid plan = .ok grid ↔
    List.Forall₂ (ctx.IsCell plan) (allPositions plan.sizes) grid := by
  have hgrid := (recalls_mapM (@recalls_gridCell ctx plan) (allPositions plan.sizes)
    .empty .empty).1
  rw [Context.grid, hgrid, mapM_eq_ok_iff]
  refine iff_of_eq (congrArg (List.Forall₂ · _ _) ?_)
  funext positions cell
  rw [bind_eq_ok_iff, IsCell, eq_iff_iff]
  constructor
  · rintro ⟨content, hcontent, hcell⟩
    obtain rfl := Except.ok.inj hcell
    exact ⟨rfl, hcontent⟩
  · rintro ⟨hcoordinate, hcontent⟩
    exact ⟨cell.content, hcontent, by rw [← hcoordinate]; rfl⟩

/-- The cells of the grid stand at their numbers. -/
theorem getElem?_grid {grid : List GridCell} (hgrid : ctx.grid plan = .ok grid)
    (hunwrapped : Unwrapped plan.sizes) (h : Within plan.sizes positions) :
    ∃ cell, grid[ordinalOf plan.sizes positions]? = some cell ∧ ctx.IsCell plan positions cell := by
  have hcells := grid_eq_ok_iff.1 hgrid
  have hat := hunwrapped.getElem?_allPositions h
  obtain ⟨hlt, heq⟩ := List.getElem?_eq_some_iff.1 hat
  have hlt' := hcells.length_eq ▸ hlt
  refine ⟨_, List.getElem?_eq_getElem hlt', ?_⟩
  have hcell := (List.forall₂_iff_get.1 hcells).2 _ hlt hlt'
  rwa [List.get_eq_getElem, heq] at hcell

theorem exists_contentAt {grid : List GridCell} (hgrid : ctx.grid plan = .ok grid)
    (hunwrapped : Unwrapped plan.sizes) (h : Within plan.sizes positions) :
    ∃ content, ctx.contentAt plan positions = .ok content := by
  obtain ⟨cell, -, his⟩ := getElem?_grid hgrid hunwrapped h
  exact ⟨cell.content, his.2⟩

theorem exists_grid (h : ∀ positions, Within plan.sizes positions →
    ∃ content, ctx.contentAt plan positions = .ok content) : ∃ grid, ctx.grid plan = .ok grid := by
  have : Nonempty CellValue := ⟨⟨.null, true⟩⟩
  choose! content hcontent using h
  refine ⟨(allPositions plan.sizes).map fun positions =>
    ⟨ctx.place plan.base (plan.membersAt positions), content positions⟩, ?_⟩
  rw [grid_eq_ok_iff, List.forall₂_map_right_iff, List.forall₂_same]
  exact fun positions hmem => ⟨rfl, hcontent positions (within_of_mem_allPositions hmem)⟩

end Context

end CubeQuery
