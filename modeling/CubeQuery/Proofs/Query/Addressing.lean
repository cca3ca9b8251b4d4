import CubeQuery.Proofs.Query.Meaning
import CubeQuery.Proofs.Query.Reports

/-!
Under which headers a cell stands. The cells of a cellset are found by one position for each of its
axes, and each is the cell of the tuples that the axes show there, whatever has been left out.
-/

namespace CubeQuery

open CubeQuery.Language

/-! ### The cells of a query that succeeds -/

namespace Context

variable {ctx : Context} {options : QueryOptions} {statement : Statement} {plan : Plan}
  {kept : List (List Nat)} {grid : List GridCell} {cellset : Cellset} {positions : List Nat}

/-- No cell is skipped, since every number leads to positions that are kept and these to a cell of
the grid. -/
theorem cells_eq_ok (hgrid : ctx.grid plan = .ok grid) (hunwrapped : Unwrapped plan.sizes)
    (hkept : Picks plan.sizes kept) :
    ∃ content : Nat → GridCell,
      ctx.cells options plan.sizes kept grid.toArray =
        .ok ((List.range (cellCount (kept.map List.length))).map
          fun n => ctx.cell options n (content n)) ∧
      ∀ positions, Within (kept.map List.length) positions →
        ctx.IsCell (plan.keeping kept) positions
          (content (ordinalOf (kept.map List.length) positions)) := by
  let content (n : Nat) : GridCell :=
    (grid[ordinalOf plan.sizes
      (originals kept ((positions? (kept.map List.length) n).getD []))]?).getD ⟨[], ⟨.null, true⟩⟩
  refine ⟨content, ?_, fun positions hpositions => ?_⟩
  · rw [cells_eq_ok_iff, List.forall₂_map_right_iff, List.forall₂_same]
    intro n hn
    obtain ⟨positions, hpositions, hwithin, -⟩ := exists_positions (List.mem_range.1 hn)
    obtain ⟨cell, hcell, -⟩ := getElem?_grid hgrid hunwrapped (within_originals hkept hwithin)
    have hshown : cell = content n := by simp [content, hpositions, hcell]
    exact ⟨cell, keptCell_eq_ok_iff.2 ⟨positions, hpositions, by simpa using hcell⟩, hshown ▸ rfl⟩
  · obtain ⟨cell, hcell, his⟩ :=
      getElem?_grid hgrid hunwrapped (within_originals hkept hpositions)
    have hordinal := (hkept.unwrapped hunwrapped).positions?_ordinalOf hpositions
    rw [isCell_keeping hkept hpositions]
    simpa [content, hordinal, hcell] using his

theorem IsCell.unique {a b : GridCell} (ha : ctx.IsCell plan positions a)
    (hb : ctx.IsCell plan positions b) : a = b := by
  obtain ⟨coordinate, content⟩ := a
  obtain ⟨other, content'⟩ := b
  obtain rfl : coordinate = other := ha.1.trans hb.1.symm
  obtain rfl : content = content' := Except.ok.inj (ha.2.symm.trans hb.2)
  rfl

/-- A cellset answers a statement: it shows the positions that are kept, and its cells are those of
the tuples at these positions. -/
structure Answers (ctx : Context) (options : QueryOptions) (statement : Statement) (plan : Plan)
    (kept : List (List Nat)) (cellset : Cellset) : Prop where
  plans : ctx.Plans statement plan
  unwrapped : Unwrapped plan.sizes
  keeps : ctx.Keeps statement.axes plan kept
  shows : cellset = ctx.cellset options statement plan kept cellset.cells.toList
  cells : ∃ content : Nat → GridCell,
    cellset.cells = ((List.range (cellCount (plan.keeping kept).sizes)).map
      fun n => ctx.cell options n (content n)).toArray ∧
    ∀ positions, Within (plan.keeping kept).sizes positions →
      ctx.IsCell (plan.keeping kept) positions
        (content (ordinalOf (plan.keeping kept).sizes positions))

/-- Once there is a grid whose cells have numbers of their own, a statement succeeds. -/
theorem exists_answer {c : Cube} {s : Scope}
    (hname : Text.sameName statement.cube c.name = true)
    (hs : (Scope.ofDefinitions c statement.definitions).result = .ok s)
    (hplan : (Context.plan ⟨c, s⟩ statement).result = .ok plan) (hunwrapped : Unwrapped plan.sizes)
    (hgrid : Context.grid ⟨c, s⟩ plan = .ok grid) :
    ∃ cellset, (c.execute statement options).result = .ok cellset ∧
      Answers ⟨c, s⟩ options statement plan (keptOf statement.axes plan.sizes grid) cellset := by
  have hplans := plan_eq_ok_iff.1 hplan
  have hlength : statement.axes.length = plan.sizes.length := by
    simpa [Plan.sizes] using hplans.sets.length_eq
  have hkeeps := keeps_keptOf hgrid hunwrapped hlength
  obtain ⟨content, hcells, hcontent⟩ := cells_eq_ok hgrid hunwrapped hkeeps.picks
  refine ⟨_, Cube.execute_eq_ok_iff.2 ⟨hname, s, plan, grid, hs, hplan, hgrid, _, hcells, rfl⟩,
    hplans, hunwrapped, hkeeps, rfl, ?_⟩
  rw [sizes_keeping hkeeps.picks]
  exact ⟨content, rfl, hcontent⟩

theorem exists_answers {c : Cube} (h : (c.execute statement options).result = .ok cellset)
    (hcounts : c.CountsCells statement) :
    Text.sameName statement.cube c.name = true ∧ ∃ s plan grid,
      (Scope.ofDefinitions c statement.definitions).result = .ok s ∧
      Context.grid ⟨c, s⟩ plan = .ok grid ∧
      Answers ⟨c, s⟩ options statement plan (keptOf statement.axes plan.sizes grid) cellset := by
  obtain ⟨hname, s, plan, grid, hs, hplan, hgrid, -⟩ := Cube.execute_eq_ok_iff.1 h
  obtain ⟨answer, hanswer, hanswers⟩ :=
    exists_answer hname hs hplan (hcounts s plan hs hplan) hgrid
  obtain rfl : cellset = answer := Except.ok.inj (h.symm.trans hanswer)
  exact ⟨hname, s, plan, grid, hs, hgrid, hanswers⟩

end Context

/-! ### Cells under their headers -/

/-- Cells and lists of one position for each axis stand for each other. -/
structure Cellset.Addressed (cellset : Cellset) : Prop where
  size : cellset.cells.size = cellset.sizes.prod
  ordinal : ∀ k (hk : k < cellset.cells.size), cellset.cells[k].ordinal = k
  found : ∀ positions, (cellset.cellAt? positions).isSome ↔ Within cellset.sizes positions
  injective : ∀ positions others cell, cellset.cellAt? positions = some cell →
    cellset.cellAt? others = some cell → positions = others
  onto : ∀ cell ∈ cellset.cells, ∃ positions, cellset.cellAt? positions = some cell
  /-- No axis without positions is divided by. -/
  divisible : ∀ n < cellset.sizes.prod, (positions? cellset.sizes n).isSome

namespace Context.Answers

variable {ctx : Context} {options : QueryOptions} {statement : Statement} {plan : Plan}
  {kept : List (List Nat)} {cellset : Cellset} {positions : List Nat}

theorem length_axes (h : ctx.Answers options statement plan kept cellset) :
    statement.axes.length = plan.sets.length ∧ kept.length = plan.sets.length :=
  ⟨h.plans.sets.length_eq, by simpa [Plan.sizes] using h.keeps.picks.length_eq⟩

theorem tuples (h : ctx.Answers options statement plan kept cellset) :
    cellset.axes.map (·.tuples) =
      (plan.keeping kept).sets.map fun set => set.map fun t => t.map (ctx.axisMember options) := by
  obtain ⟨haxes, hkept⟩ := h.length_axes
  rw [h.shows]
  refine List.ext_getElem ?_ fun i _ _ => ?_
  · simp [Plan.keeping, Context.cellset, haxes, hkept]
  · simp [Plan.keeping, Context.cellset, axis]

theorem sizes (h : ctx.Answers options statement plan kept cellset) :
    cellset.sizes = (plan.keeping kept).sizes := by
  have hlengths := congrArg (List.map List.length) h.tuples
  simpa [Cellset.sizes, Plan.sizes, Function.comp_def] using hlengths

theorem unwrapped_sizes (h : ctx.Answers options statement plan kept cellset) :
    Unwrapped cellset.sizes := by
  rw [h.sizes, sizes_keeping h.keeps.picks]
  exact h.keeps.picks.unwrapped h.unwrapped

/-- The cell at some positions is that of the tuples that are shown there. -/
theorem cellAt?_eq_some (h : ctx.Answers options statement plan kept cellset) {cell : Cell} :
    cellset.cellAt? positions = some cell ↔ Within cellset.sizes positions ∧
      ∃ content, ctx.IsCell (plan.keeping kept) positions content ∧
        cell = ctx.cell options (ordinalOf cellset.sizes positions) content := by
  obtain ⟨content, hcells, hcontent⟩ := h.cells
  rw [← h.sizes] at hcells hcontent
  have hget (hwithin : Within cellset.sizes positions) :
      cellset.cells[ordinalOf cellset.sizes positions]? = some (ctx.cell options
        (ordinalOf cellset.sizes positions) (content (ordinalOf cellset.sizes positions))) := by
    simp [hcells, h.unwrapped_sizes.ordinalOf_lt hwithin]
  rw [Cellset.cellAt?, Option.bind_eq_bind, Option.bind_eq_some_iff]
  constructor
  · rintro ⟨n, hn, hcell⟩
    obtain ⟨hwithin, rfl⟩ := ordinal?_eq_some_iff.1 hn
    rw [hget hwithin] at hcell
    exact ⟨hwithin, _, hcontent positions hwithin, (Option.some.inj hcell).symm⟩
  · rintro ⟨hwithin, other, his, rfl⟩
    refine ⟨_, ordinal?_eq_some_iff.2 ⟨hwithin, rfl⟩, ?_⟩
    rw [hget hwithin, (hcontent positions hwithin).unique his]

theorem addressed (h : ctx.Answers options statement plan kept cellset) : cellset.Addressed := by
  obtain ⟨content, hcells, hcontent⟩ := h.cells
  rw [← h.sizes] at hcells hcontent
  have hsize : cellset.cells.size = cellset.sizes.prod := by
    simp [hcells, h.unwrapped_sizes.cellCount_eq]
  refine ⟨hsize, fun k hk => by simp [hcells, cell], fun positions => ?_, ?_, ?_, fun n hn => ?_⟩
  · rw [Option.isSome_iff_exists]
    constructor
    · rintro ⟨cell, hcell⟩
      exact (h.cellAt?_eq_some.1 hcell).1
    · exact fun hwithin => ⟨_, h.cellAt?_eq_some.2 ⟨hwithin, _, hcontent positions hwithin, rfl⟩⟩
  · intro positions others cell hcell hcell'
    obtain ⟨hwithin, first, -, rfl⟩ := h.cellAt?_eq_some.1 hcell
    obtain ⟨hwithin', second, -, heq⟩ := h.cellAt?_eq_some.1 hcell'
    have hordinals := congrArg Cell.ordinal heq
    have hpositions := h.unwrapped_sizes.positions?_ordinalOf hwithin
    rw [show ordinalOf _ positions = ordinalOf _ others from hordinals,
      h.unwrapped_sizes.positions?_ordinalOf hwithin'] at hpositions
    exact (Option.some.inj hpositions).symm
  · intro cell hcell
    rw [hcells, List.mem_toArray, List.mem_map] at hcell
    obtain ⟨n, hn, rfl⟩ := hcell
    obtain ⟨positions, -, hwithin, rfl⟩ := exists_positions (List.mem_range.1 hn)
    exact ⟨positions, h.cellAt?_eq_some.2 ⟨hwithin, _, hcontent positions hwithin, rfl⟩⟩
  · exact isSome_positions hn

end Context.Answers

namespace Context

/-- A coordinate has members on different facets in place of what the facets contributed before, and
nothing else is changed. -/
structure Overrides (ctx : Context) (base : Coordinate) (t : Tuple) (coordinate : Coordinate) :
    Prop where
  apart : (ctx.facets t).Nodup
  ascending : coordinate.Ascending
  choice : ∀ f, coordinate.choice? f =
    ((t.find? fun e => ctx.facetOf e = f).map .one).or (base.choice? f)

variable {layout : CubeLayout} {catalog : Catalog} {c : Cube} {s : Scope} {options : QueryOptions}
  {statement : Statement} {plan : Plan} {kept : List (List Nat)} {cellset : Cellset}
  {positions : List Nat}

theorem Plans.uniform (hb : Cube.Built layout catalog c)
    (hs : (Scope.ofDefinitions c statement.definitions).result = .ok s)
    (h : Plans ⟨c, s⟩ statement plan) : ∀ set ∈ plan.sets, Uniform ⟨c, s⟩ set :=
  h.gives fun e =>
    gives_uniform_evalSet (sound_ofDefinitions hb hs) (uniform_ofDefinitions hb hs) e

theorem Answers.overrides (hb : Cube.Built layout catalog c)
    (hs : (Scope.ofDefinitions c statement.definitions).result = .ok s)
    (h : Answers ⟨c, s⟩ options statement plan kept cellset)
    (hwithin : Within cellset.sizes positions) :
    let members := (plan.keeping kept).membersAt positions
    Overrides ⟨c, s⟩ plan.base members (place ⟨c, s⟩ plan.base members) := by
  intro members
  rw [h.sizes, sizes_keeping h.keeps.picks] at hwithin
  have hfacets := facets_membersAt (h.plans.uniform hb hs)
    (within_originals h.keeps.picks hwithin)
  rw [← membersAt_keeping h.keeps.picks hwithin] at hfacets
  have hapart : (facets ⟨c, s⟩ members).Nodup := hfacets ▸ h.plans.apart
  exact ⟨hapart, ascending_place (ascending_slicerCoordinate h.plans.base), choice?_place hapart⟩

/-- Every cell stands under the tuples that it is the value of, as long as the cells have numbers of
their own. Its coordinate is what the slicer contributes, with the members of these tuples in place
of it; a slicer without tuples leaves no values. -/
theorem cell_under_headers (hbuild : Cube.build layout catalog = .ok c)
    (h : (c.execute statement options).result = .ok cellset) (hcounts : c.CountsCells statement) :
    cellset.Addressed ∧ ∃ s plan kept,
      (Scope.ofDefinitions c statement.definitions).result = .ok s ∧
      Plans ⟨c, s⟩ statement plan ∧ Keeps ⟨c, s⟩ statement.axes plan kept ∧
      (∀ n < plan.sizes.prod, (positions? plan.sizes n).isSome) ∧
      cellset.axes.map (·.tuples) =
        (plan.keeping kept).sets.map
          (fun set => set.map fun t => t.map (axisMember ⟨c, s⟩ options)) ∧
      ∀ positions cell, cellset.cellAt? positions = some cell →
        if plan.slicer? = some [] then cell.value? = none
        else ∃ coordinate content,
          Overrides ⟨c, s⟩ plan.base ((plan.keeping kept).membersAt positions) coordinate ∧
          freshCell ⟨c, s⟩ coordinate = .ok content ∧ cell.value? = content.value.number? := by
  have hb := Cube.built_of_build hbuild
  obtain ⟨-, s, plan, grid, hs, -, hanswers⟩ := exists_answers h hcounts
  generalize keptOf statement.axes plan.sizes grid = kept at hanswers
  refine ⟨hanswers.addressed, s, plan, kept, hs, hanswers.plans, hanswers.keeps, fun n hn => ?_,
    hanswers.tuples, fun positions cell hcell => ?_⟩
  · exact isSome_positions hn
  · obtain ⟨hwithin, content, ⟨hcoordinate, hcontent⟩, rfl⟩ := hanswers.cellAt?_eq_some.1 hcell
    have hselects : (plan.keeping kept).selectsNothing = decide (plan.slicer? = some []) :=
      beq_eq_decide _ _
    rw [contentAt, hselects] at hcontent
    split
    · rename_i hempty
      rw [decide_eq_true hempty, if_pos rfl] at hcontent
      show content.content.value.number? = none
      rw [← Except.ok.inj hcontent]
      rfl
    · rename_i hsome
      rw [decide_eq_false hsome, if_neg (by decide)] at hcontent
      exact ⟨_, content.content, hanswers.overrides hb hs hwithin, hcontent, rfl⟩

/-- The stored measure is left out, and the cells of the numbers stand under their headers. -/
theorem cell_under_headers_summary : ∃ cellset,
    Cube.build Games.layout Games.catalog = .ok Games.cube ∧
      (Games.cube.execute (Games.summary true) {}).result = .ok cellset ∧
      Games.cube.CountsCells (Games.summary true) ∧ cellset.Addressed ∧
      cellset.sizes = [2, 2, 1] ∧
      (cellset.cellAt? [0, 1, 0]).map (·.value?) = some (some 1.0) ∧
      (cellset.cellAt? [1, 0, 0]).map (·.value?) = some (some 2.0) := by
  have hcounts := Games.countsCells_summary true
  have hexecute := Games.execute_summary true
  exact ⟨_, Games.build_eq_cube, hexecute, hcounts,
    (cell_under_headers Games.build_eq_cube hexecute hcounts).1, by decide,
    by decide, by decide⟩

/-- There are no cells where there are as many of them as numbers, also none at positions that the
axes show. -/
theorem cells_uncounted : ∃ cellset, Cube.build Games.layout Games.catalog = .ok Games.cube ∧
    (Games.cube.execute (Games.overfull false) {}).result = .ok cellset ∧
    cellset.sizes = [2 ^ 22, 2 ^ 21, 2 ^ 21] ∧ cellset.sizes.prod ≠ cellset.cells.size ∧
    Within cellset.sizes [0, 0, 0] ∧ cellset.cellAt? [0, 0, 0] = none := by
  have hsizes := Games.sizes_overfullCellset false
  refine ⟨_, Games.build_eq_cube, Games.execute_overfull false, hsizes, ?_, ?_, ?_⟩
  · rw [hsizes]
    decide
  · rw [hsizes]
    exact .cons (by decide) (.cons (by decide) (.cons (by decide) .nil))
  · rw [Cellset.cellAt?]
    simp [Games.overfullCellset, cellset]

end Context

end CubeQuery
