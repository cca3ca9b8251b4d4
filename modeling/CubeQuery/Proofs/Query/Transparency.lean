import CubeQuery.Proofs.Query.Declared
import CubeQuery.Proofs.Query.Rows

/-!
Cells of one query share what is remembered. Each of them has the value that it has on its own,
whatever was evaluated before it and whether or not that failed, and it is the value that plain
filters give.
-/

namespace CubeQuery

open CubeQuery.Language

/-! ### Coordinates that formulas lead to -/

theorem Coordinate.mem_put {facet : Facet} {choice : Choice} {coordinate : Coordinate}
    {slot : Facet × Choice} (h : slot ∈ coordinate.put facet choice) :
    slot = (facet, choice) ∨ slot ∈ coordinate := by
  induction coordinate with
  | nil => exact .inl (List.mem_singleton.1 h)
  | cons first rest ih =>
    rw [put] at h
    split at h
    · exact List.mem_cons.1 h
    · split at h
      · rcases List.mem_cons.1 h with heq | hrest
        · exact .inl heq
        · exact .inr (List.mem_cons_of_mem _ hrest)
      · rcases List.mem_cons.1 h with heq | hrest
        · exact .inr (heq ▸ List.mem_cons_self)
        · exact (ih hrest).imp_right (List.mem_cons_of_mem _)

namespace Context

variable {ctx : Context} {layout : CubeLayout} {catalog : Catalog}

theorem HasCoordinate.put {coordinate : Coordinate} (h : ctx.HasCoordinate coordinate)
    {e : Element} (he : ctx.Has e) (facet : Facet) :
    ctx.HasCoordinate (coordinate.put facet (.one e)) := by
  intro slot hslot
  rcases Coordinate.mem_put hslot with rfl | hold
  · intro x hx
    obtain rfl := List.mem_singleton.1 hx
    exact he
  · exact h slot hold

theorem HasCoordinate.place {coordinate : Coordinate} {t : Tuple}
    (h : ctx.HasCoordinate coordinate) (ht : ctx.HasAll t) :
    ctx.HasCoordinate (ctx.place coordinate t) := by
  induction t generalizing coordinate with
  | nil => exact h
  | cons e rest ih =>
    have hrest : ctx.HasAll rest := fun x hx => ht x (List.mem_cons_of_mem e hx)
    exact ih (h.put (ht e List.mem_cons_self) _) hrest

/-! ### The same rows, the same values -/

section SameRows

variable {rowsOf rowsOf' : Coordinate → List Nat}

theorem formulaValue_congr {valueAt valueAt' : Coordinate → Except Error CellValue}
    (hsame : ∀ coordinate, ctx.HasCoordinate coordinate → valueAt coordinate = valueAt' coordinate)
    {coordinate : Coordinate} (hhas : ctx.HasCoordinate coordinate) (measure : String)
    {f : Formula} (hf : ctx.HasFormula f) :
    ctx.formulaValue valueAt coordinate measure f =
      ctx.formulaValue valueAt' coordinate measure f := by
  induction f with
  | number x => rfl
  | text s => rfl
  | tuple t => rw [formulaValue, formulaValue, hsame _ (hhas.place hf)]
  | negate e ih => rw [formulaValue, formulaValue, ih hf]
  | binary op left right ihl ihr => rw [formulaValue, formulaValue, ihl hf.1, ihr hf.2]

theorem valueWithin_congr (hfits : ctx.Fits)
    (hrows : ∀ coordinate, ctx.HasCoordinate coordinate → rowsOf coordinate = rowsOf' coordinate)
    (levels : Nat) {coordinate : Coordinate} (hhas : ctx.HasCoordinate coordinate) :
    ctx.valueWithin rowsOf levels coordinate = ctx.valueWithin rowsOf' levels coordinate := by
  induction levels generalizing coordinate with
  | zero => rfl
  | succ levels ih =>
    rw [valueWithin, valueWithin]
    cases ctx.leadingCalculated? coordinate with
    | none =>
      dsimp only
      rw [storedValue, storedValue, hrows coordinate hhas]
    | some i =>
      dsimp only
      cases hi : ctx.scope.formulas[i]? with
      | none => rfl
      | some f =>
        have hf := hfits.formulas f (Array.mem_of_getElem? hi)
        dsimp only
        rw [formulaValue_congr (fun other => ih) hhas _ hf]

end SameRows

/-! ### Many cells -/

/-- The value of a cell by plain filters: nothing is remembered. -/
def cellValue (ctx : Context) (coordinate : Coordinate) : Except Error CellValue :=
  ctx.valueWithin ctx.rowsThrough (calculationLimit + 1) coordinate

/-- The value of a cell when nothing is remembered yet. -/
def freshCell (ctx : Context) (coordinate : Coordinate) : Except Error CellValue :=
  ((ctx.evalCell coordinate).run.run .empty).1

/-- A member that is defined by a number has it everywhere. -/
theorem freshCell_number {coordinate : Coordinate} {i : Nat} {x : Float}
    (hleads : ctx.leadingCalculated? coordinate = some i)
    (hformula : ctx.scope.formulas[i]? = some (.number x)) :
    ctx.freshCell coordinate = .ok ⟨.number x, false⟩ := by
  rw [freshCell, evalCell, evalWithin, hleads]
  dsimp only
  rw [hformula]
  rfl

/-- Evaluates cells one after another. What is remembered goes from each cell to the next, also from
those that fail. -/
def evalCells (ctx : Context) (coordinates : List Coordinate) :
    StateM CellMemory (List (Except Error CellValue)) :=
  coordinates.mapM fun coordinate => (ctx.evalCell coordinate).run

theorem cellValue_eq (hb : Cube.Built layout catalog ctx.cube) (hfits : ctx.Fits)
    {coordinate : Coordinate} (hhas : ctx.HasCoordinate coordinate) :
    ctx.valueWithin ctx.rowsIn (calculationLimit + 1) coordinate = ctx.cellValue coordinate :=
  valueWithin_congr hfits (fun _ => rowsIn_eq_rowsThrough hb) _ hhas

/-- By induction on the cells: each is evaluated with a memory that is true. -/
theorem finds_evalCells (coordinates : List Coordinate) :
    ctx.Finds (ctx.evalCells coordinates)
      (· = coordinates.map (ctx.valueWithin ctx.rowsIn (calculationLimit + 1))) := by
  unfold evalCells
  induction coordinates with
  | nil => exact finds_pure rfl
  | cons first rest ih =>
    rw [List.mapM_cons]
    refine finds_bind (recalls_evalCell first) fun r hr => finds_bind ih fun rs hrs => ?_
    exact finds_pure (by rw [hr, hrs, List.map_cons])

theorem truthful_evalCells (coordinates : List Coordinate) :
    ctx.Truthful ((ctx.evalCells coordinates).run .empty).2 :=
  (finds_evalCells coordinates .empty .empty).2

theorem freshCell_eq (coordinate : Coordinate) :
    ctx.freshCell coordinate = ctx.valueWithin ctx.rowsIn (calculationLimit + 1) coordinate :=
  (recalls_evalCell coordinate .empty .empty).1

/-- Remembering is not noticed: cells evaluated one after another have the values that each has
alone, and those of the evaluation by plain filters. -/
theorem evalCells_transparent {c : Cube} (hbuild : Cube.build layout catalog = .ok c)
    {definitions : List Definition} {s : Scope}
    (hscope : (Scope.ofDefinitions c definitions).result = .ok s)
    {coordinates : List Coordinate}
    (hhas : ∀ coordinate ∈ coordinates, HasCoordinate ⟨c, s⟩ coordinate) :
    ((evalCells ⟨c, s⟩ coordinates).run .empty).1 = coordinates.map (freshCell ⟨c, s⟩) ∧
      ((evalCells ⟨c, s⟩ coordinates).run .empty).1 = coordinates.map (cellValue ⟨c, s⟩) := by
  have hb := Cube.built_of_build hbuild
  have hfits := (sound_ofDefinitions hb hscope).fits
  have hfinds : Finds ⟨c, s⟩ (evalCells ⟨c, s⟩ coordinates) _ := finds_evalCells coordinates
  have hrun := (hfinds .empty .empty).1
  refine ⟨hrun.trans ?_, hrun.trans ?_⟩
  · exact List.map_congr_left fun coordinate _ => (freshCell_eq coordinate).symm
  · exact List.map_congr_left fun coordinate hmem => cellValue_eq hb hfits (hhas coordinate hmem)

/-- The calculated member leads to the stored measure in Rome, which has been evaluated before; one
cell in between is refused. -/
theorem evalCells_transparent_sample :
    let ctx : Context := ⟨Sample.cube, ⟨#[Sample.doubleMember], #[Sample.doubleFormula], #[]⟩⟩
    let rome : Coordinate := [(.hierarchy ⟨0⟩, .one (.member ⟨1⟩))]
    let unmeasured : Coordinate := [(.measures, .any [])]
    let doubled : Coordinate :=
      [(.measures, .one (.calculated 0)), (.hierarchy ⟨0⟩, .one (.member ⟨1⟩))]
    (∀ coordinate ∈ [rome, unmeasured, doubled, [], doubled], ctx.HasCoordinate coordinate) ∧
      ((ctx.evalCells [rome, unmeasured, doubled, [], doubled]).run .empty).1 =
        [rome, unmeasured, doubled, [], doubled].map ctx.freshCell ∧
      ((ctx.evalCells [rome, unmeasured, doubled, [], doubled]).run .empty).1 =
        [rome, unmeasured, doubled, [], doubled].map ctx.cellValue := by
  intro ctx rome unmeasured doubled
  have hrome : ctx.HasCoordinate rome := by
    intro slot hslot e he
    obtain rfl := List.mem_singleton.1 hslot
    obtain rfl := List.mem_singleton.1 he
    show 1 < Sample.cube.members.size
    decide
  have hunmeasured : ctx.HasCoordinate unmeasured := by
    intro slot hslot e he
    obtain rfl := List.mem_singleton.1 hslot
    cases he
  have hdoubled : ctx.HasCoordinate doubled := by
    intro slot hslot
    rcases List.mem_cons.1 hslot with rfl | hslot
    · intro e he
      obtain rfl := List.mem_singleton.1 he
      exact Nat.zero_lt_one
    · exact hrome slot hslot
  have hhas : ∀ coordinate ∈ [rome, unmeasured, doubled, [], doubled],
      ctx.HasCoordinate coordinate := by
    simp only [List.forall_mem_cons]
    exact ⟨hrome, hunmeasured, hdoubled, List.forall_mem_nil _, hdoubled, List.forall_mem_nil _⟩
  exact ⟨hhas, evalCells_transparent Sample.build_eq_cube Sample.ofDefinitions_double hhas⟩

end Context

end CubeQuery
