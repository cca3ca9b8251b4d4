import CubeQuery.Proofs.Query.Memory

/-!
The value of a cell does not depend on what is remembered: a step that may look anything up ends as
the same step without memory, failures included.
-/

namespace CubeQuery

open CubeQuery.Language

namespace Context

/-- The step ends as `r`, whatever is remembered, and keeps memories true also when it fails. -/
def Recalls {α : Type} (ctx : Context) (x : Recall α) (r : Except Error α) : Prop :=
  ctx.Finds x.run (· = r)

variable {ctx : Context}

section Rules

variable {α β : Type} {x : Recall α} {f : α → Recall β} {r : Except Error α}
  {g : α → Except Error β}

theorem recalls_ofExcept (r : Except Error α) : ctx.Recalls (liftM r) r :=
  fun _ h => ⟨rfl, h⟩

theorem recalls_pure (a : α) : ctx.Recalls (pure a) (pure a) :=
  fun _ h => ⟨rfl, h⟩

theorem recalls_throw (e : Error) : ctx.Recalls (throw e : Recall α) (throw e) :=
  fun _ h => ⟨rfl, h⟩

theorem recalls_bind (hx : ctx.Recalls x r) (hf : ∀ a, r = .ok a → ctx.Recalls (f a) (g a)) :
    ctx.Recalls (x >>= f) (r >>= g) := by
  unfold Recalls
  rw [ExceptT.run_bind]
  refine finds_bind hx fun result hresult => ?_
  subst hresult
  cases result with
  | error e => exact finds_pure rfl
  | ok a => exact hf a rfl

theorem recalls_finds {x : StateM CellMemory α} {P : α → Prop} {q : Except Error β}
    (hx : ctx.Finds x P) (hf : ∀ a, P a → ctx.Recalls (f a) q) :
    ctx.Recalls (liftM x >>= f) q := by
  intro memory h
  obtain ⟨ha, h₁⟩ := hx memory h
  exact hf _ ha _ h₁

theorem recalls_get {f : CellMemory → Recall β} {q : Except Error β}
    (hf : ∀ memory, ctx.Truthful memory → ctx.Recalls (f memory) q) : ctx.Recalls (get >>= f) q :=
  fun memory h => hf memory h memory h

end Rules

/-! ### Cells -/

/-- The fact rows of a coordinate. -/
def rowsIn (ctx : Context) (coordinate : Coordinate) : List Nat :=
  ctx.rowsWhere (ctx.satisfies (ctx.restrictions coordinate))

theorem recalls_rememberValue (restrictions : List (List MemberId)) (id : MeasureId) :
    let rows := ctx.rowsWhere (ctx.satisfies restrictions)
    ctx.Recalls (modify fun memory => { memory with
      values := memory.values.insert (restrictions, id) (ctx.valueOver id rows, rows.length) })
      (pure ()) :=
  fun _ h => ⟨rfl, h.rememberValue restrictions id⟩

theorem aggregate_eq {s : RowSet} {p : Nat → Bool} (hs : ctx.Selects s p) (id : MeasureId) :
    ctx.aggregate id s = ctx.valueOver id (ctx.rowsWhere p) := by
  rw [aggregate, measured, hs.toList, valueOver]

theorem recalls_recallStored (coordinate : Coordinate) :
    ctx.Recalls (ctx.recallStored coordinate) (ctx.storedValue ctx.rowsIn coordinate) := by
  refine recalls_bind (recalls_ofExcept _) fun measure _ => ?_
  refine recalls_get fun memory h => ?_
  split
  · rename_i value count hknown
    obtain ⟨rfl, rfl⟩ := h.values _ _ _ _ hknown
    have hempty : ∀ rows : List Nat, (rows.length == 0) = rows.isEmpty := fun rows => by
      cases rows <;> rfl
    rw [hempty]
    exact recalls_pure _
  · refine recalls_finds (finds_recallRows _) fun s hs => ?_
    rw [aggregate_eq hs, hs.count_eq, hs.isEmpty_eq]
    exact recalls_bind (r := .ok ()) (recalls_rememberValue _ measure) fun _ _ => recalls_pure _

theorem recalls_evalFormula {valueAt : Coordinate → Recall CellValue}
    {plainAt : Coordinate → Except Error CellValue}
    (hvalueAt : ∀ coordinate, ctx.Recalls (valueAt coordinate) (plainAt coordinate))
    (coordinate : Coordinate) (measure : String) (f : Formula) :
    ctx.Recalls (ctx.evalFormula valueAt coordinate measure f)
      (ctx.formulaValue plainAt coordinate measure f) := by
  induction f with
  | number x => exact recalls_pure _
  | text s => exact recalls_pure _
  | tuple t => exact recalls_bind (hvalueAt _) fun v _ => recalls_pure _
  | negate e ih => exact recalls_bind ih fun s _ => recalls_ofExcept _
  | binary op left right ihl ihr =>
    exact recalls_bind ihl fun l _ => recalls_bind ihr fun r _ => recalls_ofExcept _

/-- By induction on the levels that are left for calculated members. -/
theorem recalls_evalWithin (levels : Nat) (coordinate : Coordinate) :
    ctx.Recalls (ctx.evalWithin levels coordinate)
      (ctx.valueWithin ctx.rowsIn levels coordinate) := by
  induction levels generalizing coordinate with
  | zero => exact recalls_throw _
  | succ levels ih =>
    rw [evalWithin, valueWithin]
    cases ctx.leadingCalculated? coordinate with
    | none => exact recalls_recallStored coordinate
    | some i =>
      dsimp only
      cases ctx.scope.formulas[i]? with
      | none => exact recalls_pure _
      | some f =>
        refine recalls_bind (recalls_evalFormula ih coordinate _ f) fun value _ => ?_
        cases value with
        | text s => exact recalls_throw _
        | null => exact recalls_pure _
        | number x => exact recalls_pure _

theorem recalls_evalCell (coordinate : Coordinate) :
    ctx.Recalls (ctx.evalCell coordinate)
      (ctx.valueWithin ctx.rowsIn (calculationLimit + 1) coordinate) :=
  recalls_evalWithin _ coordinate

end Context

end CubeQuery
