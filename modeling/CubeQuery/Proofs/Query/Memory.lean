import CubeQuery.Proofs.Table.RowSet
import CubeQuery.Query.CellValue

/-!
What is remembered changes nothing. An evaluator without any memory takes the rows of a coordinate
from a plain filter; the remembering evaluator finds what it finds, whatever has been evaluated
before, as long as everything remembered is true. Each step keeps it true, also if it fails.
-/

namespace CubeQuery

open CubeQuery.Language

/-! ### Evaluation without memory -/

/-- Whether a fact row is attached to a member or to one below it. -/
def Cube.liesBelow (c : Cube) (id : MemberId) (row : Nat) : Bool :=
  (c.descendants id).any fun m => (c.rowsAt m).contains row

namespace Context

variable (ctx : Context)

/-- Whether a row lies below some member of each list. -/
def satisfies (restrictions : List (List MemberId)) (row : Nat) : Bool :=
  restrictions.all fun ids => ids.any fun id => ctx.cube.liesBelow id row

def rowsWhere (p : Nat → Bool) : List Nat :=
  (List.range ctx.cube.factTable.rowCount).filter p

/-- The aggregate of a measure over some rows. -/
def valueOver (id : MeasureId) (rows : List Nat) : Scalar :=
  (ctx.cube.measure id).aggregation.aggregate (rows.filterMap fun row =>
    (ctx.cube.factTable.cell row (ctx.cube.measure id).columnIndex).number?)

section Plain

variable (rowsOf : Coordinate → List Nat)

/-- The value of a cell without calculated members. -/
def storedValue (coordinate : Coordinate) : Except Error CellValue := do
  let measure ← ctx.measureOf coordinate
  let rows := rowsOf coordinate
  let value := ctx.valueOver measure rows
  return ⟨value, rows.isEmpty || value.isNull⟩

def formulaValue (valueAt : Coordinate → Except Error CellValue) (coordinate : Coordinate)
    (measure : String) : Formula → Except Error Scalar
  | .number x => return .number x
  | .text s => return .text s
  | .tuple t => return (← valueAt (ctx.place coordinate t)).value
  | .negate e => do
    let s ← formulaValue valueAt coordinate measure e
    s.negate measure
  | .binary op left right => do
    let l ← formulaValue valueAt coordinate measure left
    let r ← formulaValue valueAt coordinate measure right
    l.apply op r measure

/-- The value of a cell whose calculated members may refer to each other so many levels deep. -/
def valueWithin : (levels : Nat) → Coordinate → Except Error CellValue
  | 0, _ => throw (.evaluation .calculationTooDeep)
  | levels + 1, coordinate =>
    match ctx.leadingCalculated? coordinate with
    | none => ctx.storedValue rowsOf coordinate
    | some i => do
      let measure := (ctx.scope.member i).uniqueName
      let value ← match ctx.scope.formulas[i]? with
        | some f => ctx.formulaValue (valueWithin levels) coordinate measure f
        | none => pure .null
      match value with
      | .text s => throw (.aggregation measure (.textResult s))
      | value => return ⟨value, value.isNull⟩

end Plain

/-! ### True memories -/

/-- The set has exactly the fact rows with a property. -/
structure Selects (s : RowSet) (p : Nat → Bool) : Prop where
  sound : s.Sound
  length : s.length = ctx.cube.factTable.rowCount
  contains : ∀ row, s.contains row = (decide (row < ctx.cube.factTable.rowCount) && p row)

/-- Everything that is remembered would be found again. -/
structure Truthful (memory : CellMemory) : Prop where
  subtrees : ∀ id s, memory.subtrees[id]? = some s → ctx.Selects s (ctx.cube.liesBelow id)
  rows : ∀ restrictions s, memory.rows[restrictions]? = some s →
    ctx.Selects s (ctx.satisfies restrictions)
  values : ∀ restrictions id value count, memory.values[(restrictions, id)]? = some (value, count) →
    value = ctx.valueOver id (ctx.rowsWhere (ctx.satisfies restrictions)) ∧
      count = (ctx.rowsWhere (ctx.satisfies restrictions)).length

variable {ctx}

theorem Truthful.empty : ctx.Truthful CellMemory.empty := by
  constructor <;> simp [CellMemory.empty]

namespace Selects

variable {s t : RowSet} {p q : Nat → Bool}

theorem toList (hs : ctx.Selects s p) : s.toList = ctx.rowsWhere p := by
  rw [hs.sound.toList_eq, hs.length, rowsWhere]
  apply List.filter_congr
  intro row hrow
  rw [hs.contains, decide_eq_true (List.mem_range.1 hrow), Bool.true_and]

theorem congr (hs : ctx.Selects s p) (hpq : ∀ row < ctx.cube.factTable.rowCount, p row = q row) :
    ctx.Selects s q := by
  refine ⟨hs.sound, hs.length, fun row => ?_⟩
  rw [hs.contains]
  by_cases hrow : row < ctx.cube.factTable.rowCount
  · rw [hpq row hrow]
  · simp [hrow]

theorem empty : ctx.Selects (.empty ctx.cube.factTable.rowCount) fun _ => false :=
  ⟨RowSet.sound_empty _, rfl, fun row => by simp⟩

theorem full : ctx.Selects (.full ctx.cube.factTable.rowCount) fun _ => true :=
  ⟨RowSet.sound_full _, rfl, fun row => by simp⟩

theorem inter (hs : ctx.Selects s p) (ht : ctx.Selects t q) :
    ctx.Selects (s.inter t) fun row => p row && q row := by
  have hlength := hs.length.trans ht.length.symm
  obtain ⟨hsound, hcontains⟩ := RowSet.sound_inter hs.sound ht.sound hlength
  refine ⟨hsound, hs.length, fun row => ?_⟩
  rw [hcontains, hs.contains, ht.contains]
  cases decide (row < ctx.cube.factTable.rowCount) <;> simp

theorem union (hs : ctx.Selects s p) (ht : ctx.Selects t q) :
    ctx.Selects (s.union t) fun row => p row || q row := by
  have hlength := hs.length.trans ht.length.symm
  obtain ⟨hsound, hcontains⟩ := RowSet.sound_union hs.sound ht.sound hlength
  refine ⟨hsound, hs.length, fun row => ?_⟩
  rw [hcontains, hs.contains, ht.contains]
  cases decide (row < ctx.cube.factTable.rowCount) <;> simp

theorem rowsBelow (id : MemberId) : ctx.Selects (ctx.rowsBelow id) (ctx.cube.liesBelow id) := by
  obtain ⟨hsound, hlength, hcontains⟩ := RowSet.sound_ofRows ctx.cube.factTable.rowCount
    ((ctx.cube.descendants id).flatMap fun m => (ctx.cube.rowsAt m).toList)
  refine ⟨hsound, hlength, fun row => ?_⟩
  rw [Context.rowsBelow, hcontains, Bool.eq_iff_iff]
  simp [Cube.liesBelow, and_comm]

theorem count_eq (hs : ctx.Selects s p) : s.count = (ctx.rowsWhere p).length := by
  rw [hs.sound.count_eq, hs.toList]

theorem isEmpty_eq (hs : ctx.Selects s p) : s.isEmpty = (ctx.rowsWhere p).isEmpty := by
  rw [Bool.eq_iff_iff, hs.sound.isEmpty_iff, hs.toList, List.isEmpty_iff]

/-- Where no row is left, no further restriction can leave one. -/
theorem of_isEmpty (hs : ctx.Selects s p) (hempty : s.isEmpty = true) :
    ctx.Selects s fun row => p row && q row := by
  refine hs.congr fun row hrow => ?_
  have hnone : row ∉ s.toList := by simp [hs.sound.isEmpty_iff.1 hempty]
  rw [hs.toList, rowsWhere, List.mem_filter, and_iff_right (List.mem_range.2 hrow),
    Bool.not_eq_true] at hnone
  rw [hnone, Bool.false_and]

end Selects

namespace Truthful

variable {memory : CellMemory}

theorem rememberSubtree (h : ctx.Truthful memory) {id : MemberId} {s : RowSet}
    (hs : ctx.Selects s (ctx.cube.liesBelow id)) :
    ctx.Truthful { memory with subtrees := memory.subtrees.insert id s } := by
  refine ⟨fun other t ht => ?_, h.rows, h.values⟩
  rw [Std.HashMap.getElem?_insert] at ht
  split at ht
  · rename_i heq
    obtain rfl := Option.some.inj ht
    obtain rfl := eq_of_beq heq
    exact hs
  · exact h.subtrees other t ht

theorem rememberRows (h : ctx.Truthful memory) {restrictions : List (List MemberId)} {s : RowSet}
    (hs : ctx.Selects s (ctx.satisfies restrictions)) :
    ctx.Truthful { memory with rows := memory.rows.insert restrictions s } := by
  refine ⟨h.subtrees, fun other t ht => ?_, h.values⟩
  rw [Std.HashMap.getElem?_insert] at ht
  split at ht
  · rename_i heq
    obtain rfl := Option.some.inj ht
    obtain rfl := eq_of_beq heq
    exact hs
  · exact h.rows other t ht

theorem rememberValue (h : ctx.Truthful memory) (restrictions : List (List MemberId))
    (id : MeasureId) :
    let rows := ctx.rowsWhere (ctx.satisfies restrictions)
    ctx.Truthful { memory with
      values := memory.values.insert (restrictions, id) (ctx.valueOver id rows, rows.length) } := by
  refine ⟨h.subtrees, h.rows, fun other otherId value count hvalue => ?_⟩
  rw [Std.HashMap.getElem?_insert] at hvalue
  split at hvalue
  · rename_i heq
    obtain ⟨rfl, rfl⟩ := Prod.mk.inj (Option.some.inj hvalue)
    obtain ⟨rfl, rfl⟩ := Prod.mk.inj (eq_of_beq heq)
    exact ⟨rfl, rfl⟩
  · exact h.values other otherId value count hvalue

end Truthful

/-! ### Steps that only recall rows -/

/-- The step ends with a result that has the property, and keeps memories true. -/
def Finds {α : Type} (ctx : Context) (x : StateM CellMemory α) (P : α → Prop) : Prop :=
  ∀ memory, ctx.Truthful memory → P (x.run memory).1 ∧ ctx.Truthful (x.run memory).2

section Finds

variable {α β : Type} {x : StateM CellMemory α} {f : α → StateM CellMemory β} {P : α → Prop}
  {Q : β → Prop}

theorem finds_pure {a : α} (ha : P a) : ctx.Finds (pure a) P :=
  fun _ h => ⟨ha, h⟩

theorem finds_bind (hx : ctx.Finds x P) (hf : ∀ a, P a → ctx.Finds (f a) Q) :
    ctx.Finds (x >>= f) Q := by
  intro memory h
  obtain ⟨ha, h₁⟩ := hx memory h
  exact hf _ ha _ h₁

theorem finds_get {f : CellMemory → StateM CellMemory β}
    (hf : ∀ memory, ctx.Truthful memory → ctx.Finds (f memory) Q) : ctx.Finds (get >>= f) Q :=
  fun memory h => hf memory h memory h

theorem Finds.mono (hx : ctx.Finds x P) {P' : α → Prop} (hP : ∀ a, P a → P' a) :
    ctx.Finds x P' :=
  fun memory h => ⟨hP _ (hx memory h).1, (hx memory h).2⟩

theorem finds_recallSubtree (id : MemberId) :
    ctx.Finds (ctx.recallSubtree id) fun s => ctx.Selects s (ctx.cube.liesBelow id) := by
  refine finds_get fun memory h => ?_
  split
  · rename_i s hknown
    exact finds_pure (h.subtrees id s hknown)
  · exact fun other hother => ⟨.rowsBelow id, hother.rememberSubtree (.rowsBelow id)⟩

/-- By induction on the members that are still to come, after some that have led to `rows`. -/
theorem finds_unionFrom {rows : RowSet} {p : Nat → Bool} (hrows : ctx.Selects rows p)
    (ids : List MemberId) :
    ctx.Finds (ids.foldlM (fun rows id => return rows.union (← ctx.recallSubtree id)) rows)
      fun s => ctx.Selects s fun row => p row || ids.any fun id => ctx.cube.liesBelow id row := by
  induction ids generalizing rows p with
  | nil => exact finds_pure (hrows.congr fun row _ => by simp)
  | cons id rest ih =>
    rw [List.foldlM_cons, bind_assoc]
    refine finds_bind (finds_recallSubtree id) fun s hs => ?_
    rw [pure_bind]
    refine (ih (hrows.union hs)).mono fun t ht => ht.congr fun row _ => ?_
    rw [List.any_cons, Bool.or_assoc]

theorem finds_recallUnion (ids : List MemberId) :
    ctx.Finds (ctx.recallUnion ids) fun s =>
      ctx.Selects s fun row => ids.any fun id => ctx.cube.liesBelow id row :=
  (finds_unionFrom .empty ids).mono fun _ hs => hs.congr fun _ _ => Bool.false_or _

theorem satisfies_concat (done : List (List MemberId)) (ids : List MemberId) :
    ctx.satisfies (done ++ [ids]) = fun row =>
      ctx.satisfies done row && ids.any fun id => ctx.cube.liesBelow id row := by
  funext row
  simp [satisfies]

theorem finds_rememberRows {restrictions : List (List MemberId)} {s : RowSet}
    (hs : ctx.Selects s (ctx.satisfies restrictions)) :
    ctx.Finds (modify fun memory => { memory with rows := memory.rows.insert restrictions s })
      fun _ => True :=
  fun _ h => ⟨trivial, h.rememberRows hs⟩

/-- By induction on the restrictions that are still to come: whether the next row set is remembered
or worked out, it is the same set. -/
theorem finds_recallRestricted {done : List (List MemberId)} {rows : RowSet}
    (hrows : ctx.Selects rows (ctx.satisfies done)) (rest : List (List MemberId)) :
    ctx.Finds (ctx.recallRestricted done rows rest)
      fun s => ctx.Selects s (ctx.satisfies (done ++ rest)) := by
  induction rest generalizing done rows with
  | nil =>
    rw [List.append_nil]
    exact finds_pure hrows
  | cons ids rest ih =>
    have hnext : ∀ s, ctx.Selects s (ctx.satisfies (done ++ [ids])) →
        ctx.Finds (do
          modify fun memory => { memory with rows := memory.rows.insert (done ++ [ids]) s }
          ctx.recallRestricted (done ++ [ids]) s rest)
          fun t => ctx.Selects t (ctx.satisfies (done ++ [ids] ++ rest)) :=
      fun s hs => finds_bind (finds_rememberRows hs) fun _ _ => ih hs
    rw [List.append_cons]
    refine finds_get fun memory h => ?_
    split
    · rename_i s hknown
      exact ih (h.rows _ s hknown)
    · dsimp only
      split
      · -- Restricting an empty set is skipped, as it would leave the set empty.
        rename_i hempty
        rw [pure_bind]
        apply hnext
        rw [satisfies_concat]
        exact hrows.of_isEmpty hempty
      · rw [map_eq_pure_bind, bind_assoc]
        refine finds_bind (finds_recallUnion ids) fun s hs => ?_
        rw [pure_bind]
        apply hnext
        rw [satisfies_concat]
        exact hrows.inter hs

theorem finds_recallAll : ctx.Finds ctx.recallAll fun s => ctx.Selects s (ctx.satisfies []) := by
  refine finds_get fun memory h => ?_
  split
  · rename_i s hknown
    exact finds_pure (h.rows [] s hknown)
  · exact finds_bind (finds_rememberRows .full) fun _ _ => finds_pure .full

theorem finds_recallRows (restrictions : List (List MemberId)) :
    ctx.Finds (ctx.recallRows restrictions)
      fun s => ctx.Selects s (ctx.satisfies restrictions) := by
  refine finds_get fun memory h => ?_
  split
  · rename_i s hknown
    exact finds_pure (h.rows restrictions s hknown)
  · exact finds_bind finds_recallAll fun _ hall => finds_recallRestricted hall restrictions

end Finds

end Context

end CubeQuery
