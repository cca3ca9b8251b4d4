import CubeQuery.Proofs.Query.Answer
import CubeQuery.Query.Cellset

/-!
Coordinates that no cell tells apart. A slot may list its stored members in any order, once or more,
and beside members that lie below others of them: the rows that pass it stay the same. Whatever
tuples are then placed and whatever formulas refer to, values, failures and formats stay the same
too.
-/

namespace CubeQuery

open CubeQuery.Language

/-- All elements are stored members. -/
def Choice.OfMembers (choice : Choice) : Prop :=
  ∀ e ∈ choice.elements, ∃ m, e = .member m

namespace Context

/-- Choices for a facet that are the same, or hold stored members and let the same rows through. -/
inductive AlikeChoice (ctx : Context) (f : Facet) : Choice → Choice → Prop
  | same (choice : Choice) : AlikeChoice ctx f choice choice
  | members {a b : Choice} (hfacet : f ≠ .measures) (ha : a.OfMembers) (hb : b.OfMembers)
      (hrows : ∀ row, ctx.admits a row = ctx.admits b row) : AlikeChoice ctx f a b

/-- Slots of the same facet with choices that are alike. -/
def AlikeSlot (ctx : Context) (x y : Facet × Choice) : Prop :=
  x.1 = y.1 ∧ ctx.AlikeChoice x.1 x.2 y.2

/-- Coordinates of the same facets, alike in each slot. -/
def Alike (ctx : Context) (x y : Coordinate) : Prop :=
  List.Forall₂ ctx.AlikeSlot x y

variable {ctx : Context} {x y : Coordinate}

theorem AlikeSlot.refl (slot : Facet × Choice) : ctx.AlikeSlot slot slot :=
  ⟨rfl, .same _⟩

namespace Alike

/-! ### Tuples that are placed -/

theorem put (h : ctx.Alike x y) (f : Facet) (choice : Choice) :
    ctx.Alike (x.put f choice) (y.put f choice) := by
  induction h with
  | nil => exact .cons (.refl _) .nil
  | @cons slot slot' rest rest' hslot hrest ih =>
    obtain ⟨g, a⟩ := slot
    obtain ⟨g', b⟩ := slot'
    obtain ⟨rfl, hchoice⟩ := hslot
    rw [Coordinate.put, Coordinate.put]
    split
    · exact .cons (.refl _) (.cons ⟨rfl, hchoice⟩ hrest)
    · split
      · exact .cons (.refl _) hrest
      · exact .cons ⟨rfl, hchoice⟩ ih

theorem place (h : ctx.Alike x y) (t : Tuple) : ctx.Alike (ctx.place x t) (ctx.place y t) := by
  induction t generalizing x y with
  | nil => exact h
  | cons e rest ih => exact ih (h.put _ _)

/-! ### What an evaluation reads -/

/-- A slot with a calculated member is the same in both, and the others have no say. -/
theorem leadingCalculated? (h : ctx.Alike x y) :
    ctx.leadingCalculated? x = ctx.leadingCalculated? y := by
  unfold Context.leadingCalculated?
  generalize (none : Option Nat) = best
  induction h generalizing best with
  | nil => rfl
  | @cons slot slot' rest rest' hslot hrest ih =>
    obtain ⟨g, a⟩ := slot
    obtain ⟨g', b⟩ := slot'
    obtain ⟨rfl, hchoice⟩ := hslot
    rw [List.foldl_cons, List.foldl_cons]
    cases hchoice with
    | same => exact ih _
    | members hfacet ha hb =>
      have hskip {choice : Choice} (hc : choice.OfMembers) (i : Nat) :
          choice ≠ .one (.calculated i) := by
        rintro rfl
        obtain ⟨m, hm⟩ := hc _ List.mem_cons_self
        cases hm
      dsimp only
      split
      · exact absurd rfl (hskip ha _)
      · split
        · exact absurd rfl (hskip hb _)
        · exact ih best

theorem choice?_measures (h : ctx.Alike x y) : x.choice? .measures = y.choice? .measures := by
  induction h with
  | nil => rfl
  | @cons slot slot' rest rest' hslot hrest ih =>
    obtain ⟨g, a⟩ := slot
    obtain ⟨g', b⟩ := slot'
    obtain ⟨rfl, hchoice⟩ := hslot
    rw [Coordinate.choice?_cons, Coordinate.choice?_cons, ih]
    split
    · rename_i hmeasures
      cases hchoice with
      | same => rfl
      | members hfacet => exact absurd hmeasures.symm hfacet
    · rfl

theorem measureOf (h : ctx.Alike x y) : ctx.measureOf x = ctx.measureOf y := by
  unfold Context.measureOf
  rw [h.choice?_measures]

theorem rowsThrough (h : ctx.Alike x y) : ctx.rowsThrough x = ctx.rowsThrough y := by
  unfold Context.rowsThrough
  congr 1
  funext row
  induction h with
  | nil => rfl
  | @cons slot slot' rest rest' hslot hrest ih =>
    obtain ⟨g, a⟩ := slot
    obtain ⟨g', b⟩ := slot'
    obtain ⟨rfl, hchoice⟩ := hslot
    rw [List.all_cons, List.all_cons, ih]
    cases hchoice with
    | same => rfl
    | members _ _ _ hrows =>
      dsimp only
      rw [hrows row]

/-! ### Cells -/

theorem formulaValue {valueAt : Coordinate → Except Error CellValue}
    (hvalueAt : ∀ {x y}, ctx.Alike x y → valueAt x = valueAt y) (h : ctx.Alike x y)
    (measure : String) (f : Formula) :
    ctx.formulaValue valueAt x measure f = ctx.formulaValue valueAt y measure f := by
  induction f with
  | number n => rfl
  | text s => rfl
  | tuple t => rw [Context.formulaValue, Context.formulaValue, hvalueAt (h.place t)]
  | negate e ih => rw [Context.formulaValue, Context.formulaValue, ih]
  | binary op left right ihl ihr => rw [Context.formulaValue, Context.formulaValue, ihl, ihr]

/-- By induction on the levels that are left for calculated members, as in the evaluation. -/
theorem valueWithin (h : ctx.Alike x y) (levels : Nat) :
    ctx.valueWithin ctx.rowsThrough levels x = ctx.valueWithin ctx.rowsThrough levels y := by
  induction levels generalizing x y with
  | zero => rfl
  | succ levels ih =>
    rw [Context.valueWithin, Context.valueWithin, h.leadingCalculated?]
    cases ctx.leadingCalculated? y with
    | none =>
      dsimp only
      rw [storedValue, storedValue, h.measureOf, h.rowsThrough]
    | some i =>
      dsimp only
      cases ctx.scope.formulas[i]? with
      | none => rfl
      | some f =>
        dsimp only
        rw [h.formulaValue fun hxy => ih hxy]

theorem freshCell {layout : CubeLayout} {catalog : Catalog} (h : ctx.Alike x y)
    (hb : Cube.Built layout catalog ctx.cube) (hfits : ctx.Fits) (hx : ctx.HasCoordinate x)
    (hy : ctx.HasCoordinate y) : ctx.freshCell x = ctx.freshCell y := by
  rw [freshCell_eq, freshCell_eq, cellValue_eq hb hfits hx, cellValue_eq hb hfits hy]
  exact h.valueWithin _

theorem cellFormat (h : ctx.Alike x y) (options : QueryOptions) :
    ctx.cellFormat options x = ctx.cellFormat options y := by
  unfold Context.cellFormat formatMeasure?
  rw [h.leadingCalculated?, h.choice?_measures]

/-- Cells with the same content show the same. -/
theorem cell (h : ctx.Alike x y) (options : QueryOptions) (ordinal : Nat) (content : CellValue) :
    ctx.cell options ordinal ⟨x, content⟩ = ctx.cell options ordinal ⟨y, content⟩ := by
  unfold Context.cell
  dsimp only
  rw [h.cellFormat options]

end Alike

end Context

end CubeQuery
