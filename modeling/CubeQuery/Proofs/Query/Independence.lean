import CubeQuery.Proofs.Query.Addressing
import CubeQuery.Proofs.Query.Naming

/-!
What a cell depends on. Two cells of two queries with the same definitions and the same slicer show
the same as soon as their headers name the same members, however the members are spread over axes
and tuples.
-/

namespace CubeQuery

open CubeQuery.Language

/-- The members that the axes show at some positions. -/
def Cellset.membersAt (cellset : Cellset) (positions : List Nat) : List AxisMember :=
  (cellset.axes.zipWith (fun axis p => axis.tuples.getD p []) positions).flatten

/-- Cells show the same value, in the same form. -/
structure Cell.Agrees (a b : Cell) : Prop where
  value? : a.value? = b.value?
  formatted : a.formatted = b.formatted
  format : a.format = b.format

namespace Context

variable {layout : CubeLayout} {catalog : Catalog} {c : Cube} {s : Scope} {ctx : Context}
  {options : QueryOptions} {statement other : Statement} {plan plan' : Plan}
  {kept kept' : List (List Nat)} {cellset cellset' : Cellset} {positions positions' : List Nat}

theorem membersAt_of_tuples (h : cellset.axes.map (·.tuples) =
      plan.sets.map fun set => set.map fun t => t.map (ctx.axisMember options))
    (positions : List Nat) :
    cellset.membersAt positions = (plan.membersAt positions).map (ctx.axisMember options) := by
  have htuples : cellset.axes.zipWith (fun axis p => axis.tuples.getD p []) positions =
      (cellset.axes.map (·.tuples)).zipWith (fun tuples p => tuples.getD p []) positions := by
    rw [List.zipWith_map_left]
  rw [Cellset.membersAt, htuples, h, Plan.membersAt, List.map_flatten, List.map_zipWith,
    List.zipWith_map_left]
  congr 2
  funext set p
  exact List.getD_map set [] fun t : Tuple => t.map (ctx.axisMember options)

theorem Answers.membersAt (h : ctx.Answers options statement plan kept cellset)
    (positions : List Nat) : cellset.membersAt positions =
      ((plan.keeping kept).membersAt positions).map (ctx.axisMember options) :=
  membersAt_of_tuples h.tuples positions

/-- What the slicer contributes is the same for the same slicer. -/
theorem Plans.slicer_eq (h : ctx.Plans statement plan) (h' : ctx.Plans other plan')
    (hslicer : other.slicer? = statement.slicer?) :
    plan'.slicer? = plan.slicer? ∧ plan'.base = plan.base := by
  have hsame : plan'.slicer?.map Except.ok = plan.slicer?.map (Except.ok (ε := Error)) := by
    rw [← h'.slicer, ← h.slicer, hslicer]
  have heq := Option.map_injective (fun _ _ => Except.ok.inj) hsame
  have hbase := h'.base
  rw [heq, h.base] at hbase
  exact ⟨heq, (Except.ok.inj hbase).symm⟩

/-- Names tell members apart, so that headers with the same names have the same members. -/
theorem mem_iff_of_names (hb : Cube.Built layout catalog c)
    (hs : (Scope.ofDefinitions c statement.definitions).result = .ok s)
    {t u : Tuple} (ht : ∀ e ∈ t, Context.Has ⟨c, s⟩ e) (hu : ∀ e ∈ u, Context.Has ⟨c, s⟩ e)
    (hsame : ∀ name, name ∈ t.map (Context.uniqueName ⟨c, s⟩) ↔
      name ∈ u.map (Context.uniqueName ⟨c, s⟩)) (e : Element) : e ∈ t ↔ e ∈ u := by
  have hinjective {a b : Element} (ha : Context.Has ⟨c, s⟩ a) (hb' : Context.Has ⟨c, s⟩ b)
      (heq : Context.uniqueName ⟨c, s⟩ a = Context.uniqueName ⟨c, s⟩ b) : a = b :=
    uniqueName_injective hb.named (ownNames_ofDefinitions hs) ha hb' heq
  constructor
  · intro he
    obtain ⟨x, hx, hname⟩ := List.mem_map.1 ((hsame _).1 (List.mem_map_of_mem he))
    rwa [hinjective (ht e he) (hu x hx) hname.symm]
  · intro he
    obtain ⟨x, hx, hname⟩ := List.mem_map.1 ((hsame _).2 (List.mem_map_of_mem he))
    rwa [hinjective (hu e he) (ht x hx) hname.symm]

/-- Cells with the same coordinate have the same contents. -/
theorem contentAt_congr (hslicer : plan'.slicer? = plan.slicer?) (hbase : plan'.base = plan.base)
    (hplace : ctx.place plan.base (plan.membersAt positions) =
      ctx.place plan.base (plan'.membersAt positions')) :
    ctx.contentAt plan' positions' = ctx.contentAt plan positions := by
  unfold contentAt Plan.selectsNothing
  rw [hslicer, hbase, hplace]

/-- Positions with the same members have the same contents. -/
theorem Plans.contentAt_congr (h : ctx.Plans statement plan) (h' : ctx.Plans other plan')
    (hslicer : other.slicer? = statement.slicer?)
    (hsets : ∀ set ∈ plan.sets, ctx.Uniform set) (hsets' : ∀ set ∈ plan'.sets, ctx.Uniform set)
    (hwithin : Within plan.sizes positions) (hwithin' : Within plan'.sizes positions')
    (hmembers : ∀ e, e ∈ plan.membersAt positions ↔ e ∈ plan'.membersAt positions') :
    ctx.contentAt plan' positions' = ctx.contentAt plan positions := by
  obtain ⟨hslicers, hbases⟩ := h.slicer_eq h' hslicer
  exact Context.contentAt_congr hslicers hbases <|
    place_congr (ascending_slicerCoordinate h.base) (facets_membersAt hsets hwithin ▸ h.apart)
      (facets_membersAt hsets' hwithin' ▸ h'.apart) hmembers

theorem agrees_cell (content : GridCell) (n n' : Nat) :
    (ctx.cell options n content).Agrees (ctx.cell options n' content) :=
  ⟨rfl, rfl, rfl⟩

theorem Answers.has (hb : Cube.Built layout catalog c)
    (hs : (Scope.ofDefinitions c statement.definitions).result = .ok s)
    (h : Answers ⟨c, s⟩ options statement plan kept cellset)
    (hwithin : Within cellset.sizes positions) :
    ∀ e ∈ (plan.keeping kept).membersAt positions, Context.Has ⟨c, s⟩ e := by
  intro e he
  rw [h.sizes, sizes_keeping h.keeps.picks] at hwithin
  rw [membersAt_keeping h.keeps.picks hwithin] at he
  obtain ⟨set, hset, t, ht, he⟩ := mem_membersAt he
  exact h.plans.gives (gives_evalSet (sound_ofDefinitions hb hs)) set hset t ht e he

theorem Answers.agrees (hb : Cube.Built layout catalog c)
    (hs : (Scope.ofDefinitions c statement.definitions).result = .ok s)
    (h : Answers ⟨c, s⟩ options statement plan kept cellset)
    (h' : Answers ⟨c, s⟩ options other plan' kept' cellset')
    (hdefinitions : other.definitions = statement.definitions)
    (hslicer : other.slicer? = statement.slicer?) {cell cell' : Cell}
    (hcell : cellset.cellAt? positions = some cell)
    (hcell' : cellset'.cellAt? positions' = some cell')
    (hsame : ∀ name, name ∈ (cellset.membersAt positions).map (·.uniqueName) ↔
      name ∈ (cellset'.membersAt positions').map (·.uniqueName)) : cell.Agrees cell' := by
  have hs' : (Scope.ofDefinitions c other.definitions).result = .ok s := hdefinitions ▸ hs
  obtain ⟨hwithin, content, his, rfl⟩ := h.cellAt?_eq_some.1 hcell
  obtain ⟨hwithin', content', his', rfl⟩ := h'.cellAt?_eq_some.1 hcell'
  obtain ⟨hslicers, hbases⟩ := h.plans.slicer_eq h'.plans hslicer
  rw [h.membersAt, h'.membersAt, List.map_map, List.map_map] at hsame
  have hmembers := mem_iff_of_names hb hs (h.has hb hs hwithin) (h'.has hb hs' hwithin') hsame
  have hplace := place_congr (ascending_slicerCoordinate h.plans.base)
    (h.overrides hb hs hwithin).apart (h'.overrides hb hs' hwithin').apart hmembers
  have hslicers : (plan'.keeping kept').slicer? = (plan.keeping kept).slicer? := hslicers
  have hcontents : contentAt ⟨c, s⟩ (plan'.keeping kept') positions' =
      contentAt ⟨c, s⟩ (plan.keeping kept) positions := contentAt_congr hslicers hbases hplace
  have hsame : IsCell ⟨c, s⟩ (plan'.keeping kept') positions' content := by
    refine ⟨?_, hcontents.trans his.2⟩
    rw [his.1]
    exact hplace.trans (congrArg (place ⟨c, s⟩ · _) hbases.symm)
  rw [hsame.unique his']
  exact agrees_cell content' _ _

end Context

end CubeQuery
