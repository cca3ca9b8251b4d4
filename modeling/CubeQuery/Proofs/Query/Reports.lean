import CubeQuery.Proofs.Query.Kept
import CubeQuery.Proofs.Query.SetForms
import CubeQuery.Proofs.Query.Transparency

/-!
Statements whose axes list single elements by name. Such an axis has these elements, in order and
with all repetitions, so that there are grids of any size.
-/

namespace CubeQuery

open CubeQuery.Language Noted

namespace Context

variable {ctx : Context} {es : List Element} {f : Facet}

/-! ### Listed elements -/

/-- The tuples of single elements. -/
def singles (es : List Element) : TupleSet :=
  es.map fun e => [e]

/-- A name denotes an element. -/
def Denotes (ctx : Context) (p : Path) (e : Element) : Prop :=
  (ctx.evalSet (.path p)).result = .ok [[e]]

theorem sameFacets_singles (h : ∀ e ∈ es, ctx.facetOf e = f) : ctx.SameFacets (singles es) := by
  intro t ht u hu
  obtain ⟨e, he, rfl⟩ := List.mem_map.1 ht
  obtain ⟨e', he', rfl⟩ := List.mem_map.1 hu
  rw [facets, List.map_singleton, facets, List.map_singleton, h e he, h e' he']

theorem evalSet_listed {name : Element → Path} (hname : ∀ e ∈ es, ctx.Denotes (name e) e)
    (hfacet : ∀ e ∈ es, ctx.facetOf e = f) :
    (ctx.evalSet (.set (es.map fun e => .path (name e)))).result = .ok (singles es) := by
  have hflatten : (es.map fun e => [[e]]).flatten = singles es :=
    (List.map_eq_flatMap ..).symm
  refine evalSet_set.2 ⟨es.map fun e => [[e]], ?_, ?_, hflatten.symm⟩
  · rw [Evaluates, List.forall₂_map_left_iff, List.forall₂_map_right_iff, List.forall₂_same]
    exact hname
  · rw [hflatten]
    exact sameFacets_singles hfacet

theorem signature_singles (h : ∀ e ∈ es, ctx.facetOf e = f) :
    (ctx.signature (singles es)).Sublist [f] := by
  cases es with
  | nil => exact List.nil_sublist _
  | cons e es =>
    rw [← h e List.mem_cons_self]
    exact List.Sublist.refl _

/-! ### Grids of any size -/

variable {options : QueryOptions} {statement : Statement} {plan : Plan} {kept : List (List Nat)}
  {cells : List Cell} {grid : List GridCell}

/-- Where nothing is left out, the axes show all tuples. -/
theorem tuples_cellset (haxes : statement.axes.length = plan.sets.length) :
    (ctx.cellset options statement plan (plan.sizes.map List.range) cells).axes.map (·.tuples) =
      plan.sets.map fun set => set.map fun t => t.map (ctx.axisMember options) := by
  refine List.ext_getElem (by simp [cellset, haxes, Plan.sizes]) fun i _ _ => ?_
  simp [cellset, axis, Plan.sizes, tuplesAt_range]

theorem sizes_cellset (haxes : statement.axes.length = plan.sets.length)
    (hkept : kept.length = plan.sets.length) :
    (ctx.cellset options statement plan kept cells).sizes = kept.map List.length := by
  refine List.ext_getElem (by simp [Cellset.sizes, cellset, haxes, hkept]) fun i _ _ => ?_
  simp [Cellset.sizes, cellset, axis, tuplesAt]

theorem originals_range {sizes positions : List Nat} (h : Within sizes positions) :
    originals (sizes.map List.range) positions = positions := by
  induction h with
  | nil => rfl
  | cons hp _ ih =>
    rw [List.map_cons, originals, List.zipWith_cons_cons, ← originals, ih,
      List.getD_eq_getElem _ _ (by simpa using hp), List.getElem_range]

/-- Where nothing is left out the cells are those of the grid, also if there are more cells than
numbers. -/
theorem cells_unflagged (hgrid : ctx.grid plan = .ok grid) :
    ctx.cells options plan.sizes (plan.sizes.map List.range) grid.toArray =
      .ok (grid.mapIdx (ctx.cell options)) := by
  have hsizes : (plan.sizes.map List.range).map List.length = plan.sizes := by
    simp [Function.comp_def]
  have hlength : grid.length = cellCount plan.sizes := by
    rw [← (grid_eq_ok_iff.1 hgrid).length_eq, length_allPositions]
  rw [cells_eq_ok_iff, hsizes, ← hlength]
  refine List.forall₂_iff_get.2 ⟨by simp, fun n hn hn' => ?_⟩
  rw [List.length_range] at hn
  obtain ⟨positions, hpositions, hwithin, hordinal⟩ := exists_positions (hlength ▸ hn)
  have hcell : keptCell plan.sizes (plan.sizes.map List.range) grid.toArray n = .ok grid[n] := by
    refine keptCell_eq_ok_iff.2 ⟨positions, by rw [hsizes, hpositions], ?_⟩
    rw [originals_range hwithin, hordinal]
    simp [hn]
  exact ⟨grid[n], by simpa using hcell, by simp⟩

end Context

/-! ### Reports on games -/

namespace Games

open Context

theorem named : Cube.Named cube :=
  (Cube.built_of_build build_eq_cube).named

/-- A measure that has the same number everywhere. -/
def constant (name : String) (x : Float) : MemberDefinition :=
  ⟨⟨["Measures", name], 0⟩, .number x, none, 0⟩

def definitions : List Definition :=
  [.member (constant "One" 1.0), .member (constant "Two" 2.0)]

def oneMember : CalculatedMember := ⟨"One", "[Measures].[One]", .measures, none, none, 0⟩

def twoMember : CalculatedMember := ⟨"Two", "[Measures].[Two]", .measures, none, none, 0⟩

def context : Context := ⟨cube, ⟨#[oneMember, twoMember], #[.number 1.0, .number 2.0], #[]⟩⟩

theorem declared_one : (declared ⟨cube, .empty⟩ (constant "One" 1.0)).result = .ok oneMember := by
  have hrender : (constant "One" 1.0).path.render = "[Measures].[One]" := by decide
  have hfree : nameTaken ⟨cube, .empty⟩ (constant "One" 1.0).path "One" .measures = false :=
    nameTaken_eq_false named rfl (by decide) (by decide)
  exact declared_measure rfl hrender rfl rfl hfree

theorem declared_two : (declared ⟨cube, ⟨#[oneMember], #[], #[]⟩⟩ (constant "Two" 2.0)).result =
    .ok twoMember := by
  have hrender : (constant "Two" 2.0).path.render = "[Measures].[Two]" := by decide
  have hfree : nameTaken ⟨cube, ⟨#[oneMember], #[], #[]⟩⟩ (constant "Two" 2.0).path "Two"
      .measures = false :=
    nameTaken_eq_false named (by decide) (by decide) (by decide)
  exact declared_measure rfl hrender (by decide) rfl hfree

theorem ofDefinitions_numbers :
    (Scope.ofDefinitions cube definitions).result = .ok context.scope :=
  ofDefinitions_eq_ok
    ((foldlM_declare_member declared_one).trans (foldlM_declare_member declared_two)) rfl

/-- The elements that an axis may list: the stored measure and the two numbers, a home team with all
others, or all away teams. -/
def listed : Facet → List Element
  | .measures => [.measure ⟨0⟩, .calculated 0, .calculated 1]
  | .hierarchy ⟨0⟩ => [.member ⟨0⟩, .member ⟨1⟩]
  | _ => [.member ⟨3⟩]

def name : Element → Path
  | .calculated 0 => ⟨["Measures", "One"], 0⟩
  | .calculated _ => ⟨["Measures", "Two"], 0⟩
  | .measure _ => ⟨["Measures", "Goals"], 0⟩
  | .member ⟨0⟩ => ⟨["Home", "Home", "All Home"], 0⟩
  | .member ⟨1⟩ => ⟨["Home", "Home", "Region", "North"], 0⟩
  | .member _ => ⟨["Away", "Away", "All Away"], 0⟩

variable {f : Facet} {e : Element}

theorem facetOf_listed (hf : f ∈ [.measures, .hierarchy ⟨0⟩, .hierarchy ⟨1⟩]) (he : e ∈ listed f) :
    context.facetOf e = f := by
  have hall : ∀ f ∈ [Facet.measures, .hierarchy ⟨0⟩, .hierarchy ⟨1⟩], ∀ e ∈ listed f,
      context.facetOf e = f := by
    decide
  exact hall f hf e he

theorem denotes_member {m : MemberId} {first : String} {rest : List String}
    (hsegments : (name (.member m)).segments = first :: rest)
    (hmeasures : Text.sameName first "Measures" = false)
    (hname : (name (.member m)).render = cube.uniqueName (.member m)) (hm : cube.Has (.member m))
    (hfree : context.scope.findMember? (name (.member m)) = none) :
    context.Denotes (name (.member m)) (.member m) := by
  have hresolve : context.resolve (name (.member m)) = pure (.element (.member m)) :=
    resolve_uniqueName named hsegments hmeasures hname hm hfree rfl
  rw [Denotes, evalSet, hresolve]
  rfl

theorem denotes_listed (hf : f ∈ [.measures, .hierarchy ⟨0⟩, .hierarchy ⟨1⟩]) (he : e ∈ listed f) :
    context.Denotes (name e) e := by
  have hsize : cube.members.size = 6 := by decide
  have hmember (i : Nat) (hi : i < 6) : cube.Has (.member ⟨i⟩) :=
    show i < cube.members.size from hsize ▸ hi
  simp only [List.mem_cons, List.not_mem_nil, or_false] at hf
  rcases hf with rfl | rfl | rfl
  · simp only [listed, List.mem_cons, List.not_mem_nil, or_false] at he
    rcases he with rfl | rfl | rfl
    · exact evalSet_measure rfl (by decide) rfl (by decide)
    · exact evalSet_calculated (by decide)
    · exact evalSet_calculated (by decide)
  · simp only [listed, List.mem_cons, List.not_mem_nil, or_false] at he
    rcases he with rfl | rfl
    · exact denotes_member rfl (by decide) (by decide) (hmember 0 (by decide))
        (by decide)
    · exact denotes_member rfl (by decide) (by decide) (hmember 1 (by decide))
        (by decide)
  · obtain rfl := List.mem_singleton.1 he
    exact denotes_member rfl (by decide) (by decide) (hmember 3 (by decide))
      (by decide)

/-- Asks for measures by home teams and away teams. -/
def report (nonEmpty : Bool) (measures homes aways : List Element) : Statement :=
  { definitions
    axes :=
      [⟨0, nonEmpty, .set (measures.map fun e => .path (name e)), []⟩,
        ⟨1, nonEmpty, .set (homes.map fun e => .path (name e)), []⟩,
        ⟨2, nonEmpty, .set (aways.map fun e => .path (name e)), []⟩]
    cube := "Games"
    slicer? := none
    cellProperties := [] }

def reportPlan (measures homes aways : List Element) : Plan :=
  ⟨[singles measures, singles homes, singles aways], none, []⟩

/-- The axes list what they may. -/
structure Lists (measures homes aways : List Element) : Prop where
  measures : ∀ e ∈ measures, e ∈ listed .measures
  homes : ∀ e ∈ homes, e ∈ listed (.hierarchy ⟨0⟩)
  aways : ∀ e ∈ aways, e ∈ listed (.hierarchy ⟨1⟩)

variable {nonEmpty : Bool} {measures homes aways : List Element}

theorem plan_report (h : Lists measures homes aways) :
    (context.plan (report nonEmpty measures homes aways)).result =
      .ok (reportPlan measures homes aways) := by
  have hmeasures (e : Element) (he : e ∈ measures) := facetOf_listed (by simp) (h.measures e he)
  have hhomes (e : Element) (he : e ∈ homes) := facetOf_listed (by simp) (h.homes e he)
  have haways (e : Element) (he : e ∈ aways) := facetOf_listed (by simp) (h.aways e he)
  refine plan_unsliced rfl (axisSets_eq_ok_iff.2 ⟨.cons ?_ (.cons ?_ (.cons ?_ .nil)), ?_, by simp⟩)
  · exact evalSet_listed (fun e he => denotes_listed (by simp) (h.measures e he)) hmeasures
  · exact evalSet_listed (fun e he => denotes_listed (by simp) (h.homes e he)) hhomes
  · exact evalSet_listed (fun e he => denotes_listed (by simp) (h.aways e he)) haways
  · have hsublist :
        ([singles measures, singles homes, singles aways].flatMap context.signature).Sublist
          ([.measures] ++ ([.hierarchy ⟨0⟩] ++ ([.hierarchy ⟨1⟩] ++ []))) :=
      (signature_singles hmeasures).append ((signature_singles hhomes).append
        ((signature_singles haways).append (List.Sublist.refl _)))
    exact List.Nodup.sublist hsublist (by decide)

/-! ### Cells of reports -/

/-- What every cell of a measure contains: there are no games, and numbers do not depend on any. -/
def content : Element → CellValue
  | .calculated 0 => ⟨.number 1.0, false⟩
  | .calculated _ => ⟨.number 2.0, false⟩
  | _ => ⟨.null, true⟩

/-- The cell of a measure, a home team and an away team. -/
def gridCell (measure home away : Element) : GridCell :=
  ⟨[(.measures, .one measure), (.hierarchy ⟨0⟩, .one home), (.hierarchy ⟨1⟩, .one away)],
    content measure⟩

variable {measure home away : Element}

theorem freshCell_gridCell (hmeasure : measure ∈ listed .measures)
    (hhome : home ∈ listed (.hierarchy ⟨0⟩)) (haway : away ∈ listed (.hierarchy ⟨1⟩)) :
    context.freshCell (gridCell measure home away).coordinate = .ok (content measure) := by
  obtain rfl := List.mem_singleton.1 haway
  simp only [listed, List.mem_cons, List.not_mem_nil, or_false] at hmeasure hhome
  rcases hmeasure with rfl | rfl | rfl
  · rw [freshCell_eq]
    rcases hhome with rfl | rfl <;> rfl
  · rcases hhome with rfl | rfl <;> exact freshCell_number (i := 0) rfl rfl
  · rcases hhome with rfl | rfl <;> exact freshCell_number (i := 1) rfl rfl

theorem membersAt_report {p q r : Nat} (hp : p < measures.length) (hq : q < homes.length)
    (hr : r < aways.length) : (reportPlan measures homes aways).membersAt [p, q, r] =
      [measures[p], homes[q], aways[r]] := by
  simp [reportPlan, Plan.membersAt, singles, hp, hq, hr]

theorem isCell_report (h : Lists measures homes aways) {p q r : Nat} (hp : p < measures.length)
    (hq : q < homes.length) (hr : r < aways.length) :
    context.IsCell (reportPlan measures homes aways) [p, q, r]
      (gridCell measures[p] homes[q] aways[r]) := by
  have hmeasure := h.measures _ (List.getElem_mem hp)
  have hhome := h.homes _ (List.getElem_mem hq)
  have haway := h.aways _ (List.getElem_mem hr)
  have hplace : context.place [] [measures[p], homes[q], aways[r]] =
      (gridCell measures[p] homes[q] aways[r]).coordinate := by
    simp [place, facetOf_listed _ hmeasure, facetOf_listed _ hhome, facetOf_listed _ haway,
      Coordinate.put, gridCell, Facet.rank]
  constructor
  · rw [membersAt_report hp hq hr]
    exact hplace.symm
  · rw [contentAt, membersAt_report hp hq hr]
    show context.freshCell (context.place [] _) = _
    rw [hplace]
    exact freshCell_gridCell hmeasure hhome haway

theorem sizes_reportPlan : (reportPlan measures homes aways).sizes =
    [measures.length, homes.length, aways.length] := by
  simp [Plan.sizes, reportPlan, singles]

theorem exists_grid_report (h : Lists measures homes aways) :
    ∃ grid, context.grid (reportPlan measures homes aways) = .ok grid := by
  refine exists_grid fun positions hwithin => ?_
  rw [sizes_reportPlan] at hwithin
  obtain _ | ⟨hp, _ | ⟨hq, _ | ⟨hr, ⟨⟩⟩⟩⟩ := hwithin
  exact ⟨_, (isCell_report h hp hq hr).2⟩

theorem execute_report {grid : List GridCell} {kept : List (List Nat)} {cells : List Cell}
    (h : Lists measures homes aways)
    (hgrid : context.grid (reportPlan measures homes aways) = .ok grid)
    (hkept : keptOf (report nonEmpty measures homes aways).axes
      (reportPlan measures homes aways).sizes grid = kept)
    (hcells : context.cells {} (reportPlan measures homes aways).sizes kept grid.toArray =
      .ok cells) :
    (cube.execute (report nonEmpty measures homes aways) {}).result =
      .ok (context.cellset {} (report nonEmpty measures homes aways)
        (reportPlan measures homes aways) kept cells) := by
  have hname : Text.sameName "Games" cube.name = true := by decide
  exact Cube.execute_eq_ok_iff.2 ⟨hname, context.scope, _, grid, ofDefinitions_numbers,
    plan_report h, hgrid, cells, hkept ▸ hcells, hkept ▸ rfl⟩

/-- The answer to a report that shows all cells of its grid. -/
def unflagged (measures homes aways : List Element) (grid : List GridCell) : Cellset :=
  let plan := reportPlan measures homes aways
  context.cellset {} (report false measures homes aways) plan (plan.sizes.map List.range)
    (grid.mapIdx (context.cell {}))

/-- However many tuples its axes list, a report without flags succeeds. -/
theorem execute_unflagged {grid : List GridCell} (h : Lists measures homes aways)
    (hgrid : context.grid (reportPlan measures homes aways) = .ok grid) :
    (cube.execute (report false measures homes aways) {}).result =
      .ok (unflagged measures homes aways grid) :=
  execute_report h hgrid
    (keptOf_unflagged (by simp [report]) (by simp [report, sizes_reportPlan]))
    (cells_unflagged hgrid)

theorem sizes_unflagged {grid : List GridCell} : (unflagged measures homes aways grid).sizes =
    [measures.length, homes.length, aways.length] := by
  rw [unflagged, sizes_cellset rfl (by simp [Plan.sizes]), sizes_reportPlan]
  simp

theorem countsCells_report (h : Lists measures homes aways)
    (hunwrapped : Unwrapped [measures.length, homes.length, aways.length]) :
    cube.CountsCells (report nonEmpty measures homes aways) := by
  intro s plan hs hplan
  obtain rfl : context.scope = s := Except.ok.inj (ofDefinitions_numbers.symm.trans hs)
  obtain rfl : reportPlan measures homes aways = plan :=
    Except.ok.inj ((plan_report h).symm.trans hplan)
  rwa [sizes_reportPlan]

/-! ### A report with tuples to leave out -/

/-- Asks for the stored measure, which has no values, and the two numbers, in the north and
altogether. -/
def summary (nonEmpty : Bool) : Statement :=
  report nonEmpty (listed .measures) (listed (.hierarchy ⟨0⟩)) (listed (.hierarchy ⟨1⟩))

def summaryPlan : Plan :=
  reportPlan (listed .measures) (listed (.hierarchy ⟨0⟩)) (listed (.hierarchy ⟨1⟩))

def summaryGrid : List GridCell :=
  (listed (.hierarchy ⟨0⟩)).flatMap fun home =>
    (listed .measures).map fun measure => gridCell measure home (.member ⟨3⟩)

theorem lists_summary :
    Lists (listed .measures) (listed (.hierarchy ⟨0⟩)) (listed (.hierarchy ⟨1⟩)) :=
  ⟨fun _ => id, fun _ => id, fun _ => id⟩

theorem grid_summary : context.grid summaryPlan = .ok summaryGrid := by
  have hpositions : allPositions summaryPlan.sizes =
      [[0, 0, 0], [1, 0, 0], [2, 0, 0], [0, 1, 0], [1, 1, 0], [2, 1, 0]] := by
    decide
  rw [grid_eq_ok_iff, hpositions]
  refine .cons ?_ (.cons ?_ (.cons ?_ (.cons ?_ (.cons ?_ (.cons ?_ .nil)))))
  all_goals exact isCell_report lists_summary (by decide) (by decide) (by decide)

/-- With the flags, only the cells of the two numbers are shown. -/
def summaryCells (nonEmpty : Bool) : List Cell :=
  (summaryGrid.filter fun cell => !nonEmpty || !cell.content.empty).mapIdx (context.cell {})

def summaryCellset (nonEmpty : Bool) : Cellset :=
  context.cellset {} (summary nonEmpty) summaryPlan
    (keptOf (summary nonEmpty).axes summaryPlan.sizes summaryGrid) (summaryCells nonEmpty)

theorem execute_summary (nonEmpty : Bool) :
    (cube.execute (summary nonEmpty) {}).result = .ok (summaryCellset nonEmpty) := by
  refine execute_report lists_summary grid_summary rfl ?_
  cases nonEmpty <;> rfl

theorem countsCells_summary (nonEmpty : Bool) : cube.CountsCells (summary nonEmpty) :=
  countsCells_report lists_summary (by decide)

/-! ### A report with as many cells as there are numbers -/

/-- Asks for the same cell again and again. -/
def overfull (nonEmpty : Bool) : Statement :=
  report nonEmpty (.replicate (2 ^ 22) (.calculated 0)) (.replicate (2 ^ 21) (.member ⟨0⟩))
    (.replicate (2 ^ 21) (.member ⟨3⟩))

def overfullPlan : Plan :=
  reportPlan (.replicate (2 ^ 22) (.calculated 0)) (.replicate (2 ^ 21) (.member ⟨0⟩))
    (.replicate (2 ^ 21) (.member ⟨3⟩))

theorem mem_listed_of_mem_replicate {n : Nat} {copy : Element} (he : e ∈ listed f)
    (hcopy : copy ∈ List.replicate n e) : copy ∈ listed f :=
  List.eq_of_mem_replicate hcopy ▸ he

theorem lists_replicate (l m n : Nat) : Lists (.replicate l (.calculated 0))
    (.replicate m (.member ⟨0⟩)) (.replicate n (.member ⟨3⟩)) :=
  ⟨fun _ => mem_listed_of_mem_replicate (by decide),
    fun _ => mem_listed_of_mem_replicate (by decide),
    fun _ => mem_listed_of_mem_replicate (by decide)⟩

theorem sizes_overfullPlan : overfullPlan.sizes = [2 ^ 22, 2 ^ 21, 2 ^ 21] := by
  rw [overfullPlan, sizes_reportPlan, List.length_replicate, List.length_replicate,
    List.length_replicate]

theorem within_overfull : Within overfullPlan.sizes [0, 0, 0] := by
  rw [sizes_overfullPlan]
  exact .cons (by decide) (.cons (by decide) (.cons (by decide) .nil))

theorem isCell_replicate {l m n : Nat} (hl : 0 < l) (hm : 0 < m) (hn : 0 < n) :
    context.IsCell (reportPlan (.replicate l (.calculated 0)) (.replicate m (.member ⟨0⟩))
      (.replicate n (.member ⟨3⟩))) [0, 0, 0]
      (gridCell (.calculated 0) (.member ⟨0⟩) (.member ⟨3⟩)) := by
  have hcell := isCell_report (lists_replicate l m n) (p := 0) (q := 0) (r := 0) (by simpa using hl)
    (by simpa using hm) (by simpa using hn)
  rwa [List.getElem_replicate, List.getElem_replicate, List.getElem_replicate] at hcell

theorem filled_overfull : context.Filled overfullPlan 0 0 := by
  have hcell := isCell_replicate (Nat.two_pow_pos 22) (Nat.two_pow_pos 21) (Nat.two_pow_pos 21)
  exact ⟨[0, 0, 0], _, within_overfull, rfl, hcell.2, rfl⟩

/-- No number is left for any cell. -/
theorem grid_overfull : context.grid overfullPlan = .ok [] := by
  have hpositions : allPositions overfullPlan.sizes = [] := by
    rw [List.eq_nil_iff_length_eq_zero, length_allPositions, sizes_overfullPlan]
    decide
  rw [grid_eq_ok_iff, hpositions]
  exact .nil

/-- Without flags all tuples are kept. With flags none is, as there are no cells to keep it. -/
def overfullKept (nonEmpty : Bool) : List (List Nat) :=
  [2 ^ 22, 2 ^ 21, 2 ^ 21].map fun size => if nonEmpty then [] else List.range size

theorem length_overfullKept (nonEmpty : Bool) : (overfullKept nonEmpty).map List.length =
    if nonEmpty then [0, 0, 0] else [2 ^ 22, 2 ^ 21, 2 ^ 21] := by
  cases nonEmpty <;> simp [overfullKept]

def overfullCellset (nonEmpty : Bool) : Cellset :=
  context.cellset {} (overfull nonEmpty) overfullPlan (overfullKept nonEmpty) []

theorem execute_overfull (nonEmpty : Bool) :
    (cube.execute (overfull nonEmpty) {}).result = .ok (overfullCellset nonEmpty) := by
  have hkept : keptOf (overfull nonEmpty).axes overfullPlan.sizes [] = overfullKept nonEmpty := by
    rw [keptOf_nil, sizes_overfullPlan]
    rfl
  have hcells : context.cells {} overfullPlan.sizes (overfullKept nonEmpty) #[] = .ok [] := by
    have hcount : cellCount ((overfullKept nonEmpty).map List.length) = 0 := by
      rw [length_overfullKept]
      cases nonEmpty <;> decide
    rw [cells_eq_ok_iff, hcount]
    exact .nil
  exact execute_report (lists_replicate _ _ _) grid_overfull hkept hcells

theorem sizes_overfullCellset (nonEmpty : Bool) : (overfullCellset nonEmpty).sizes =
    if nonEmpty then [0, 0, 0] else [2 ^ 22, 2 ^ 21, 2 ^ 21] := by
  rw [overfullCellset, sizes_cellset rfl rfl, length_overfullKept]

end Games

end CubeQuery
