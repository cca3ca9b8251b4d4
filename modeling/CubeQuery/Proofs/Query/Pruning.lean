import CubeQuery.Proofs.Query.Addressing

/-!
What leaving out empty positions does to a query. The answer is cut out of the one that has all
positions: no cell that is not empty is lost, and an axis keeps no position without such a cell.
-/

namespace CubeQuery

open CubeQuery.Language

/-- The statement with other axes that leave out empty positions. -/
def Language.Statement.leavingOut (statement : Statement) (flags : Nat → Bool) : Statement :=
  { statement with
    axes := statement.axes.mapIdx fun i clause => { clause with nonEmpty := flags i } }

namespace Context

variable {ctx : Context} {options : QueryOptions} {statement : Statement} {plan : Plan}
  {kept : List (List Nat)} {grid : List GridCell} {positions : List Nat} {axes : List AxisClause}
  {flags : Nat → Bool}

/-! ### The same plan -/

theorem axisSets_congr {others : List AxisClause} (used : List Facet)
    (h : others.map (·.set) = axes.map (·.set)) :
    ctx.axisSets used others = ctx.axisSets used axes := by
  induction axes generalizing used others with
  | nil =>
    obtain rfl := List.map_eq_nil_iff.1 h
    rfl
  | cons clause axes ih =>
    obtain ⟨other, others, rfl, hset, hrest⟩ := List.map_eq_cons_iff.1 h
    simp only [axisSets, hset, ih _ hrest]

theorem plan_leavingOut (flags : Nat → Bool) :
    ctx.plan (statement.leavingOut flags) = ctx.plan statement := by
  unfold plan
  rw [@axisSets_congr ctx statement.axes]
  · rfl
  · exact List.ext_getElem (by simp [Statement.leavingOut]) fun i _ _ => by
      simp [Statement.leavingOut]

/-! ### What is kept -/

namespace Keeps

/-- Every cell that is not empty stands at positions that are kept. -/
theorem survives (h : ctx.Keeps axes plan kept) (haxes : axes.length = plan.sets.length)
    (hwithin : Within plan.sizes positions) {content : CellValue}
    (hcontent : ctx.contentAt plan positions = .ok content) (hempty : content.empty = false) :
    List.Forall₂ (· ∈ ·) positions kept := by
  have hlength : positions.length = plan.sets.length := by
    simpa [Plan.sizes] using hwithin.length_eq
  refine List.forall₂_iff_get.2 ⟨hlength.trans h.length_eq.symm, fun i hi hi' => ?_⟩
  have hset : i < plan.sets.length := hlength ▸ hi
  refine (h.mem (List.getElem?_eq_getElem (haxes ▸ hset)) (List.getElem?_eq_getElem hset)
    (List.getElem?_eq_getElem hi') _).2 ⟨?_, fun _ => ?_⟩
  · have hat := (List.forall₂_iff_get.1 hwithin).2 i hi (by simpa [Plan.sizes] using hset)
    simpa [Plan.sizes] using hat
  · exact ⟨positions, content, hwithin, List.getElem?_eq_getElem hi, hcontent, hempty⟩

/-- A position that an axis keeps for a cell still has this cell once all axes are shortened. -/
theorem filled_keeping (h : ctx.Keeps axes plan kept) (haxes : axes.length = plan.sets.length)
    {i p : Nat} {ps : List Nat} (hps : kept[i]? = some ps) (hp : p < ps.length)
    (hfilled : ctx.Filled plan i (ps.getD p 0)) : ctx.Filled (plan.keeping kept) i p := by
  obtain ⟨positions, content, hwithin, hposition, hcontent, hempty⟩ := hfilled
  obtain ⟨others, hothers, rfl⟩ := exists_originals (h.survives haxes hwithin hcontent hempty)
  rw [← contentAt_keeping h.picks hothers] at hcontent
  refine ⟨others, content, (sizes_keeping h.picks).symm ▸ hothers, ?_, hcontent, hempty⟩
  have hi' : i < others.length := by
    simpa [hothers.length_eq] using (List.getElem?_eq_some_iff.1 hps).1
  have hsame := (getElem?_originals hps (List.getElem?_eq_getElem hi')).symm.trans hposition
  obtain ⟨hi, rfl⟩ := List.getElem?_eq_some_iff.1 hps
  have hq : others[i] < kept[i].length := by
    simpa using (List.forall₂_iff_get.1 hothers).2 i hi' (by simpa using hi)
  rw [Option.some.injEq, List.getD_eq_getElem _ _ hq, List.getD_eq_getElem _ _ hp] at hsame
  have hnodup : kept[i].Nodup := (h.picks.pairwise hps).imp fun hlt => Nat.ne_of_lt hlt
  rw [List.getElem?_eq_getElem hi', hnodup.getElem_inj_iff.1 hsame]

end Keeps

/-! ### The answer with and without empty positions -/

/-- An answer is cut out of the one that has all positions. -/
structure Prunes (ctx : Context) (options : QueryOptions) (flags : Nat → Bool) (plan : Plan)
    (kept : List (List Nat)) (whole pruned : Cellset) : Prop where
  tuples : whole.axes.map (·.tuples) =
    plan.sets.map fun set => set.map fun t => t.map (ctx.axisMember options)
  content : ∀ positions, Within whole.sizes positions → ∃ content cell,
    ctx.contentAt plan positions = .ok content ∧ whole.cellAt? positions = some cell ∧
      cell.value? = content.value.number?
  /-- Apart from the tuples that are left out, and the cells, nothing changes. -/
  frame : pruned = { whole with axes := pruned.axes, cells := pruned.cells }
  length : kept.length = whole.axes.length
  axes : pruned.axes = whole.axes.zipWith
    (fun axis ps => { axis with tuples := ps.map (axis.tuples.getD · []) }) kept
  unflagged : ∀ i ps n, kept[i]? = some ps → whole.sizes[i]? = some n → flags i = false →
    ps = List.range n
  flagged : ∀ i ps n, kept[i]? = some ps → whole.sizes[i]? = some n → flags i = true →
    ps.Pairwise (· < ·) ∧ ∀ p, p ∈ ps ↔ p < n ∧ ctx.Filled plan i p
  cells : ∀ positions, Within pruned.sizes positions → ∃ cell,
    whole.cellAt? (originals kept positions) = some cell ∧
      pruned.cellAt? positions = some { cell with ordinal := ordinalOf pruned.sizes positions }
  lossless : ∀ positions content, Within whole.sizes positions →
    ctx.contentAt plan positions = .ok content → content.empty = false →
      ∃ others, Within pruned.sizes others ∧ originals kept others = positions
  tight : ∀ i ps, kept[i]? = some ps → flags i = true → ∀ p < ps.length,
    ∃ positions content, Within pruned.sizes positions ∧ positions[i]? = some p ∧
      ctx.contentAt plan (originals kept positions) = .ok content ∧ content.empty = false

theorem clause_leavingOut {i : Nat} {clause : AxisClause}
    (h : (statement.leavingOut flags).axes[i]? = some clause) : clause.nonEmpty = flags i := by
  obtain ⟨hi, rfl⟩ := List.getElem?_eq_some_iff.1 h
  simp [Statement.leavingOut]

theorem length_leavingOut (hplans : ctx.Plans statement plan) :
    (statement.leavingOut flags).axes.length = plan.sets.length := by
  rw [← hplans.sets.length_eq]
  simp [Statement.leavingOut]

/-- Without flags all positions are kept. -/
theorem Answers.kept_eq_ranges
    (h : ctx.Answers options (statement.leavingOut fun _ => false) plan kept whole) :
    kept = plan.sizes.map List.range := by
  refine h.keeps.eq_ranges h.plans.sets.length_eq fun i clause set hclause _ hflag => ?_
  rw [clause_leavingOut hclause] at hflag
  cases hflag

theorem axis_tuplesAt (name : String) (properties : List String) (set : TupleSet) (ps : List Nat) :
    ctx.axis options name properties set (tuplesAt set ps) =
      { ctx.axis options name properties set set with
        tuples := ps.map ((ctx.axis options name properties set set).tuples.getD · []) } := by
  have htuples : (tuplesAt set ps).map (fun t => t.map (ctx.axisMember options)) =
      ps.map ((set.map fun t => t.map (ctx.axisMember options)).getD · []) := by
    rw [tuplesAt, List.map_map]
    exact List.map_congr_left fun p _ =>
      (List.getD_map set [] fun t : Tuple => t.map (ctx.axisMember options)).symm
  rw [axis, htuples]
  rfl

/-- The cell at positions that are kept is the one that stands there when all are. -/
theorem cellAt?_pruned {other : Statement} {whole pruned : Cellset}
    (hwhole : ctx.Answers options other plan (plan.sizes.map List.range) whole)
    (hpruned : ctx.Answers options statement plan kept pruned)
    (hwithin : Within pruned.sizes positions) :
    ∃ cell, whole.cellAt? (originals kept positions) = some cell ∧
      pruned.cellAt? positions =
        some { cell with ordinal := ordinalOf pruned.sizes positions } := by
  have hshown : Within (kept.map List.length) positions := by
    rwa [← sizes_keeping hpruned.keeps.picks, ← hpruned.sizes]
  obtain ⟨cell, hcell⟩ := Option.isSome_iff_exists.1 ((hpruned.addressed.found positions).2 hwithin)
  obtain ⟨-, content, his, rfl⟩ := hpruned.cellAt?_eq_some.1 hcell
  refine ⟨_, hwhole.cellAt?_eq_some.2 ⟨?_, content, ?_, rfl⟩, hcell⟩
  · rw [hwhole.sizes, keeping_range]
    exact within_originals hpruned.keeps.picks hshown
  · rw [keeping_range]
    exact (isCell_keeping hpruned.keeps.picks hshown).1 his

theorem Answers.prunes {whole pruned : Cellset}
    (hwhole : ctx.Answers options (statement.leavingOut fun _ => false) plan
      (plan.sizes.map List.range) whole)
    (hpruned : ctx.Answers options (statement.leavingOut flags) plan kept pruned) :
    ctx.Prunes options flags plan kept whole pruned := by
  have haxes := hpruned.plans.sets.length_eq
  have hkeeps := hpruned.keeps
  have hsizes := hwhole.sizes
  rw [keeping_range] at hsizes
  have hshown := hpruned.sizes
  rw [sizes_keeping hkeeps.picks] at hshown
  have hat {i : Nat} {ps : List Nat} (hps : kept[i]? = some ps) :
      ∃ clause set, (statement.leavingOut flags).axes[i]? = some clause ∧
        clause.nonEmpty = flags i ∧ plan.sets[i]? = some set := by
    have hi : i < plan.sets.length := hkeeps.length_eq ▸ (List.getElem?_eq_some_iff.1 hps).1
    have hclause := List.getElem?_eq_getElem (haxes ▸ hi)
    exact ⟨_, _, hclause, clause_leavingOut hclause, List.getElem?_eq_getElem hi⟩
  constructor
  case tuples =>
    have htuples := hwhole.tuples
    rwa [keeping_range] at htuples
  case content =>
    intro positions hwithin
    have hfound := (hwhole.addressed.found positions).2 hwithin
    obtain ⟨cell, hcell⟩ := Option.isSome_iff_exists.1 hfound
    obtain ⟨-, content, his, rfl⟩ := hwhole.cellAt?_eq_some.1 hcell
    rw [keeping_range] at his
    exact ⟨_, _, his.2, hcell, rfl⟩
  case frame =>
    rw [hpruned.shows, hwhole.shows]
    rfl
  case length =>
    have hlength := congrArg List.length hsizes
    rw [Cellset.sizes, Plan.sizes, List.length_map, List.length_map] at hlength
    rw [hkeeps.length_eq, hlength]
  case axes =>
    rw [hwhole.shows, hpruned.shows]
    refine List.ext_getElem (by simp [cellset, Statement.leavingOut, Plan.sizes])
      fun i _ _ => ?_
    simp only [cellset, Statement.leavingOut, Plan.sizes, List.getElem_map, List.getElem_zip,
      List.getElem_mapIdx, List.getElem_zipWith, tuplesAt_range]
    exact axis_tuplesAt _ _ _ _
  case unflagged =>
    intro i ps n hps hn hflag
    obtain ⟨clause, set, hclause, hnonEmpty, hset⟩ := hat hps
    rw [hsizes, Plan.sizes, List.getElem?_map, hset] at hn
    obtain rfl := Option.some.inj hn
    refine hkeeps.eq_range hclause hset hps fun h => ?_
    rw [hnonEmpty, hflag] at h
    cases h
  case flagged =>
    intro i ps n hps hn hflag
    obtain ⟨clause, set, hclause, hnonEmpty, hset⟩ := hat hps
    rw [hsizes, Plan.sizes, List.getElem?_map, hset] at hn
    obtain rfl := Option.some.inj hn
    refine ⟨hkeeps.picks.pairwise hps, fun p => ?_⟩
    rw [hkeeps.mem hclause hset hps, hnonEmpty, hflag]
    simp
  case cells =>
    intro positions hwithin
    exact cellAt?_pruned hwhole hpruned hwithin
  case lossless =>
    intro positions content hwithin hcontent hempty
    rw [hsizes] at hwithin
    rw [hshown]
    exact exists_originals (hkeeps.survives haxes hwithin hcontent hempty)
  case tight =>
    intro i ps hps hflag p hp
    obtain ⟨clause, set, hclause, hnonEmpty, hset⟩ := hat hps
    have hfilled := ((hkeeps.mem hclause hset hps _).1 (List.getElem_mem hp)).2
      (hnonEmpty.trans hflag)
    rw [← List.getD_eq_getElem _ 0 hp] at hfilled
    obtain ⟨positions, content, hwithin, hposition, hcontent, hempty⟩ :=
      hkeeps.filled_keeping haxes hps hp hfilled
    rw [sizes_keeping hkeeps.picks] at hwithin
    rw [contentAt_keeping hkeeps.picks hwithin] at hcontent
    exact ⟨positions, content, hshown ▸ hwithin, hposition, hcontent, hempty⟩

/-- What has been shortened is not shortened again. -/
theorem Keeps.settled (h : ctx.Keeps axes plan kept) (haxes : axes.length = plan.sets.length)
    (hunwrapped : Unwrapped plan.sizes) (hgrid : ctx.grid plan = .ok grid) :
    ∃ grid, ctx.grid (plan.keeping kept) = .ok grid ∧
      keptOf axes (plan.keeping kept).sizes grid = (plan.keeping kept).sizes.map List.range := by
  have hlength : axes.length = (plan.keeping kept).sets.length := by
    simp [Plan.keeping, h.length_eq, haxes]
  have hexists : ∃ grid, ctx.grid (plan.keeping kept) = .ok grid := by
    refine exists_grid fun positions hwithin => ?_
    rw [sizes_keeping h.picks] at hwithin
    rw [contentAt_keeping h.picks hwithin]
    exact exists_contentAt hgrid hunwrapped (within_originals h.picks hwithin)
  obtain ⟨shown, hshown⟩ := hexists
  have hfits : Unwrapped (plan.keeping kept).sizes :=
    (sizes_keeping h.picks).symm ▸ h.picks.unwrapped hunwrapped
  have hkeeps := keeps_keptOf hshown hfits (by simpa [Plan.sizes] using hlength)
  refine ⟨shown, hshown, hkeeps.eq_ranges hlength fun i clause set hclause hset hflag p hp => ?_⟩
  obtain ⟨all, ps, hall, hps, rfl⟩ := List.getElem?_zipWith_eq_some.1 hset
  have hp' : p < ps.length := by simpa [tuplesAt] using hp
  have hfilled := ((h.mem hclause hall hps _).1 (List.getElem_mem hp')).2 hflag
  rw [← List.getD_eq_getElem _ 0 hp'] at hfilled
  exact h.filled_keeping haxes hps hp' hfilled

/-- Leaving out empty positions loses nothing and leaves nothing to leave out, as long as the cells
have numbers of their own. Whatever axes a statement flags, it succeeds if it does with the flags it
has; its answer is cut out of the one without flags, and the cells of the tuples that are left ask
for all of them. -/
theorem leavingOut_prunes {c : Cube} {cellset : Cellset}
    (h : (c.execute statement options).result = .ok cellset) (hcounts : c.CountsCells statement)
    (flags : Nat → Bool) : ∃ whole pruned s plan kept,
      (c.execute (statement.leavingOut fun _ => false) options).result = .ok whole ∧
      (c.execute (statement.leavingOut flags) options).result = .ok pruned ∧
      (Scope.ofDefinitions c statement.definitions).result = .ok s ∧
      Plans ⟨c, s⟩ statement plan ∧ Prunes ⟨c, s⟩ options flags plan kept whole pruned ∧
      ∃ grid, Context.grid ⟨c, s⟩ (plan.keeping kept) = .ok grid ∧
        keptOf (statement.leavingOut flags).axes (plan.keeping kept).sizes grid =
          (plan.keeping kept).sizes.map List.range := by
  obtain ⟨hname, s, plan, grid, hs, hgrid, ⟨hplans, hunwrapped, -⟩⟩ := exists_answers h hcounts
  have hexists (flags : Nat → Bool) : ∃ cellset,
      (c.execute (statement.leavingOut flags) options).result = .ok cellset ∧
      Answers ⟨c, s⟩ options (statement.leavingOut flags) plan
        (keptOf (statement.leavingOut flags).axes plan.sizes grid) cellset :=
    exists_answer hname hs (by rw [plan_leavingOut, plan_eq_ok_iff.2 hplans]) hunwrapped hgrid
  obtain ⟨whole, hexecute, hwhole⟩ := hexists fun _ => false
  obtain ⟨pruned, hexecute', hpruned⟩ := hexists flags
  rw [hwhole.kept_eq_ranges] at hwhole
  exact ⟨whole, pruned, s, plan, _, hexecute, hexecute', hs, hplans, hwhole.prunes hpruned,
    hpruned.keeps.settled (length_leavingOut hplans) hunwrapped hgrid⟩

/-- Of the three measures only the stored one, which has no values, is left out. -/
theorem leavingOut_prunes_summary : ∃ whole pruned s plan kept,
    Games.cube.CountsCells (Games.summary true) ∧
      (Games.cube.execute ((Games.summary true).leavingOut fun _ => false) {}).result = .ok whole ∧
      (Games.cube.execute ((Games.summary true).leavingOut fun _ => true) {}).result =
        .ok pruned ∧
      Prunes ⟨Games.cube, s⟩ {} (fun _ => true) plan kept whole pruned ∧
      whole.sizes = [3, 2, 1] ∧ pruned.sizes = [2, 2, 1] := by
  have hcounts := Games.countsCells_summary true
  obtain ⟨whole, pruned, s, plan, kept, hwhole, hpruned, -, -, hprunes, -⟩ :=
    leavingOut_prunes (Games.execute_summary true) hcounts fun _ => true
  refine ⟨whole, pruned, s, plan, kept, hcounts, hwhole, hpruned, hprunes, ?_, ?_⟩
  · obtain rfl := Except.ok.inj ((Games.execute_summary false).symm.trans hwhole)
    decide
  · obtain rfl := Except.ok.inj ((Games.execute_summary true).symm.trans hpruned)
    decide

/-- All tuples are left out where no number is left for any cell, although the cells of the tuples
are not empty. -/
theorem filled_left_out : ∃ whole pruned,
    Cube.build Games.layout Games.catalog = .ok Games.cube ∧
      (Games.cube.execute ((Games.overfull true).leavingOut fun _ => false) {}).result =
        .ok whole ∧
      (Games.cube.execute (Games.overfull true) {}).result = .ok pruned ∧
      (Games.context.plan (Games.overfull true)).result = .ok Games.overfullPlan ∧
      whole.sizes = [2 ^ 22, 2 ^ 21, 2 ^ 21] ∧ Games.context.Filled Games.overfullPlan 0 0 ∧
      pruned.sizes = [0, 0, 0] :=
  ⟨_, _, Games.build_eq_cube, Games.execute_overfull false, Games.execute_overfull true,
    Games.plan_report (Games.lists_replicate _ _ _), Games.sizes_overfullCellset false,
    Games.filled_overfull, Games.sizes_overfullCellset true⟩

end Context

end CubeQuery
