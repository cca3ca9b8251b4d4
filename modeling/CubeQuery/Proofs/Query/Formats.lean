import CubeQuery.Proofs.Query.Answer
import CubeQuery.Proofs.Query.Declared
import CubeQuery.Proofs.Query.Derivation

/-!
Which format a cell takes. The calculated member that decides its value comes first, then the stored
measure that the cell names, or the default measure if it names none; after these, the default. The
formats of other calculated members are not looked at.
-/

namespace CubeQuery

open CubeQuery.Language

/-- What is the default whatever the default is has not been set. -/
theorem getD_defaultFormat_iff {format? : Option String} :
    (∀ options : QueryOptions, format?.getD options.defaultFormat = options.defaultFormat) ↔
      format? = none := by
  constructor
  · intro h
    cases format? with
    | none => rfl
    | some format =>
      have hempty : format = "" := h { defaultFormat := "" }
      have hother : format = "Standard" := h {}
      exact absurd (hempty.symm.trans hother) (by decide)
  · rintro rfl options
    rfl

namespace Context

variable {ctx : Context} {coordinate : Coordinate}

/-- The default is used whatever it is. -/
def FallsBack (ctx : Context) (coordinate : Coordinate) : Prop :=
  ∀ options, ctx.cellFormat options coordinate = options.defaultFormat

theorem formatMeasure?_eq_some_iff {m : MeasureId} : ctx.formatMeasure? coordinate = some m ↔
    coordinate.choice? .measures = some (.one (.measure m)) ∨
      coordinate.choice? .measures = none ∧ ctx.cube.defaultMeasure = m := by
  unfold formatMeasure?
  split
  · rename_i hnone
    simp [hnone]
  · rename_i id hsome
    simp [hsome]
  · rename_i choice hne hsome
    simp only [hsome, reduceCtorEq, Option.some.injEq, false_and, or_false, false_iff]
    exact fun heq => hne m heq

theorem fallsBack_iff (hasc : coordinate.Ascending) : ctx.FallsBack coordinate ↔
    (∀ i, ctx.Leads coordinate i → (ctx.scope.member i).format? = none) ∧
      ∀ m, ctx.formatMeasure? coordinate = some m → (ctx.cube.measure m).format? = none := by
  rw [FallsBack]
  simp only [cellFormat]
  rw [getD_defaultFormat_iff, Option.or_eq_none_iff, Option.bind_eq_none_iff,
    Option.bind_eq_none_iff]
  simp only [leadingCalculated?_eq_some_iff hasc]

/-- A calculated member that is not the leading one has no say, so that its format may be hidden by
one that has none. -/
theorem FallsBack.hidden (h : ctx.FallsBack coordinate) (hasc : coordinate.Ascending) {f : Facet}
    {i : Nat} (hi : (f, .one (.calculated i)) ∈ coordinate)
    (hformat : (ctx.scope.member i).format? ≠ none) :
    ∃ j, j ≠ i ∧ ctx.Leads coordinate j ∧ (ctx.scope.member j).format? = none ∧
      (ctx.scope.member i).solveOrder ≤ (ctx.scope.member j).solveOrder := by
  cases hleading : ctx.leadingCalculated? coordinate with
  | none => exact absurd hi ((leadingCalculated?_eq_none_iff hasc).1 hleading f i)
  | some j =>
    have hleads := (leadingCalculated?_eq_some_iff hasc).1 hleading
    have hnone := ((fallsBack_iff hasc).1 h).1 j hleads
    refine ⟨j, ?_, hleads, hnone, ?_⟩
    · rintro rfl
      exact hformat hnone
    · obtain ⟨_, -, hmost⟩ := hleads
      have hle := hmost f i hi
      omega

/-! ### The measure of a cell -/

theorem slicerChoice_measures {es : List Element} {choice : Choice}
    (h : ctx.slicerChoice .measures es = .ok choice) : ∃ e, choice = .one e := by
  unfold slicerChoice at h
  split at h
  · exact ⟨_, (Except.ok.inj h).symm⟩
  · rw [if_pos rfl] at h
    cases h

theorem one_of_mem_slicerCoordinate {set : TupleSet} {base : Coordinate} {choice : Choice}
    (h : ctx.slicerCoordinate set = .ok base) (hslot : (.measures, choice) ∈ base) :
    ∃ e, choice = .one e := by
  obtain ⟨_, -, rfl, hchoice⟩ := exists_of_forall₂ (forall₂_slicerCoordinate h) hslot
  exact slicerChoice_measures hchoice

/-- Tuples put single members into a coordinate. -/
theorem one_of_mem_place {base : Coordinate} {t : Tuple} {f : Facet} {choice : Choice}
    (hbase : (f, choice) ∈ base → ∃ e, choice = .one e)
    (hslot : (f, choice) ∈ ctx.place base t) : ∃ e, choice = .one e := by
  induction t generalizing base with
  | nil => exact hbase hslot
  | cons e rest ih =>
    refine ih (fun hmem => ?_) hslot
    rcases Coordinate.mem_put hmem with heq | hold
    · exact ⟨e, (Prod.mk.inj heq).2⟩
    · exact hbase hold

end Context

/-! ### A format that is hidden -/

namespace Sample

/-- A measure that is shown in percent. -/
def share : MemberDefinition where
  path := ⟨["Measures", "Share"], 0⟩
  expr := .number 0.5
  format? := some "Percent"
  solveOrder := 0

/-- A shop that decides over the measure and sets no format. -/
def rest : MemberDefinition where
  path := ⟨["Shop", "Shop", "Rest"], 0⟩
  expr := .number 0.25
  format? := none
  solveOrder := 1

def shareMember : CalculatedMember :=
  ⟨"Share", "[Measures].[Share]", .measures, none, some "Percent", 0⟩

def restMember : CalculatedMember :=
  ⟨"Rest", "[Shop].[Shop].[Rest]", .hierarchy ⟨0⟩, some ⟨0⟩, none, 1⟩

def restContext : Context :=
  ⟨cube, ⟨#[shareMember, restMember], #[.number 0.5, .number 0.25], #[]⟩⟩

def restReport : Statement :=
  { definitions := [.member share, .member rest]
    axes := [⟨0, false, .path share.path, []⟩, ⟨1, false, .path rest.path, []⟩]
    cube := "Sample"
    slicer? := none
    cellProperties := [] }

def restPlan : Plan := ⟨[[[.calculated 0]], [[.calculated 1]]], none, []⟩

def restCoordinate : Coordinate :=
  [(.measures, .one (.calculated 0)), (.hierarchy ⟨0⟩, .one (.calculated 1))]

def restCell : GridCell := ⟨restCoordinate, ⟨.number 0.25, false⟩⟩

theorem declared_share :
    (Context.declared ⟨cube, .empty⟩ share).result = .ok shareMember := by
  have hrender : share.path.render = "[Measures].[Share]" := by decide
  have hfree : Context.nameTaken ⟨cube, .empty⟩ share.path "Share" .measures = false :=
    Context.nameTaken_eq_false named rfl (by decide) (by decide)
  exact Context.declared_measure rfl hrender rfl rfl hfree

theorem declared_rest :
    (Context.declared ⟨cube, ⟨#[shareMember], #[], #[]⟩⟩ rest).result = .ok restMember := by
  have hrender : rest.path.render = "[Shop].[Shop].[Rest]" := by decide
  have hhas : cube.Has (.hierarchy ⟨0⟩) := show 0 < cube.hierarchies.size by decide
  have hresolve : Context.resolve ⟨cube, ⟨#[shareMember], #[], #[]⟩⟩ ⟨["Shop", "Shop"], 0⟩ =
      pure (.hierarchy ⟨0⟩) :=
    resolve_uniqueName rfl (by decide) hhas (by decide) rfl
  have hfree : Context.nameTaken ⟨cube, ⟨#[shareMember], #[], #[]⟩⟩ rest.path "Rest"
      (.hierarchy ⟨0⟩) = false :=
    Context.nameTaken_eq_false named (by decide) (by decide) (by decide)
  have hsegments : rest.path.segments = ["Shop", "Shop"] ++ ["Rest"] := rfl
  exact Context.declared_eq_ok hsegments (List.cons_ne_nil _ _) hrender hresolve rfl hfree

theorem ofDefinitions_rest : (Scope.ofDefinitions cube restReport.definitions).result =
    .ok restContext.scope :=
  Context.ofDefinitions_eq_ok
    ((Context.foldlM_declare_member declared_share).trans
      (Context.foldlM_declare_member declared_rest))
    rfl

theorem plan_rest : (restContext.plan restReport).result = .ok restPlan := by
  have hshare : restContext.scope.findMember? share.path = some 0 := by decide
  have hrest : restContext.scope.findMember? rest.path = some 1 := by decide
  refine Context.plan_unsliced rfl ?_
  rw [restReport, Context.axisSets, Noted.result_bind, Context.evalSet_calculated hshare]
  show (restContext.axisSets [.measures] [⟨1, false, .path rest.path, []⟩] >>=
    fun sets => pure ([[.calculated 0]] :: sets)).result = _
  rw [Noted.result_bind, Context.axisSets, Noted.result_bind, Context.evalSet_calculated hrest]
  rfl

theorem execute_rest : (cube.execute restReport {}).result =
    .ok (restContext.cellset {} restReport restPlan [[0], [0]]
      [restContext.cell {} 0 restCell]) := by
  have hgrid : restContext.grid restPlan = .ok [restCell] :=
    Context.grid_eq_ok_iff.2 (.cons ⟨rfl, Context.freshCell_number (i := 1) rfl rfl⟩ .nil)
  have hname : Text.sameName restReport.cube cube.name = true := by decide
  exact Cube.execute_eq_ok_iff.2
    ⟨hname, _, _, _, ofDefinitions_rest, plan_rest, hgrid, _, rfl, rfl⟩

end Sample

/-! ### Formats of an answer -/

namespace Context

variable {ctx : Context}

/-- The default format is used if the leading calculated member has no format and neither has the
stored measure of the cell, which is the default measure if the cell names none. Any other
calculated member whose format is left out then gives way to a leading one without a format. -/
theorem format_fallsBack {statement : Statement} {plan : Plan}
    (hplan : (ctx.plan statement).result = .ok plan) (positions : List Nat) :
    let coordinate := ctx.place plan.base (plan.membersAt positions)
    (ctx.FallsBack coordinate ↔
      (∀ i, ctx.Leads coordinate i → (ctx.scope.member i).format? = none) ∧
      (∀ m, coordinate.choice? .measures = some (.one (.measure m)) →
        (ctx.cube.measure m).format? = none) ∧
      (coordinate.choice? .measures = none →
        (ctx.cube.measure ctx.cube.defaultMeasure).format? = none)) ∧
    (∀ es, coordinate.choice? .measures ≠ some (.any es)) ∧
    (ctx.FallsBack coordinate → ∀ f i, (f, .one (.calculated i)) ∈ coordinate →
      (ctx.scope.member i).format? ≠ none → ∃ j, j ≠ i ∧ ctx.Leads coordinate j ∧
        (ctx.scope.member j).format? = none ∧
        (ctx.scope.member i).solveOrder ≤ (ctx.scope.member j).solveOrder) := by
  intro coordinate
  have hbase := (plan_eq_ok_iff.1 hplan).base
  have hasc : coordinate.Ascending := ascending_place (ascending_slicerCoordinate hbase)
  refine ⟨?_, fun es hany => ?_, fun h f i hi hformat => h.hidden hasc hi hformat⟩
  · rw [fallsBack_iff hasc]
    refine and_congr_right fun _ => ?_
    simp only [formatMeasure?_eq_some_iff]
    constructor
    · exact fun h => ⟨fun m hm => h m (.inl hm), fun hnone => h _ (.inr ⟨hnone, rfl⟩)⟩
    · rintro ⟨hstored, hdefault⟩ m (hone | ⟨hnone, rfl⟩)
      · exact hstored m hone
      · exact hdefault hnone
  · have hslot := hasc.choice?_eq_some.1 hany
    obtain ⟨e, he⟩ := one_of_mem_place (one_of_mem_slicerCoordinate hbase) hslot
    cases he

theorem format_fallsBack_rest :
    (Sample.restContext.plan Sample.restReport).result = .ok Sample.restPlan ∧
      ∃ j, j ≠ 0 ∧ Sample.restContext.Leads Sample.restCoordinate j ∧
        (Sample.restContext.scope.member j).format? = none := by
  obtain ⟨-, -, hhidden⟩ := format_fallsBack Sample.plan_rest [0, 0]
  obtain ⟨j, hne, hleads, hnone, -⟩ :=
    hhidden (fun _ => rfl) .measures 0 (List.mem_cons_self) (Option.some_ne_none _)
  exact ⟨Sample.plan_rest, j, hne, hleads, hnone⟩

/-- The cell falls back to the default, although its measure has a format. -/
theorem percent_hidden :
    Cube.build Sample.layout Sample.catalog = .ok Sample.cube ∧
    (Scope.ofDefinitions Sample.cube Sample.restReport.definitions).result =
      .ok Sample.restContext.scope ∧
    (Sample.restContext.plan Sample.restReport).result = .ok Sample.restPlan ∧
    Sample.restContext.place Sample.restPlan.base (Sample.restPlan.membersAt [0, 0]) =
      Sample.restCoordinate ∧
    Sample.restContext.FallsBack Sample.restCoordinate ∧
    (.measures, .one (.calculated 0)) ∈ Sample.restCoordinate ∧
    (Sample.restContext.scope.member 0).format? = some "Percent" ∧
    ∃ cellset, (Sample.cube.execute Sample.restReport {}).result = .ok cellset ∧
      (cellset.cellAt? [0, 0]).map (·.format) = some "Standard" :=
  ⟨Sample.build_eq_cube, Sample.ofDefinitions_rest, Sample.plan_rest, rfl, fun _ => rfl,
    List.mem_cons_self, rfl, _, Sample.execute_rest, by decide⟩

end Context

end CubeQuery
