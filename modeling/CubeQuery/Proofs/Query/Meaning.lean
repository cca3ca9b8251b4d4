import CubeQuery.Proofs.Query.Transparency

/-!
What a cell of stored members says about the tables: the fact rows are joined with the rows of each
dimension table, those that belong to the members of the coordinate are kept, and the values of the
measure in them are aggregated.
-/

namespace CubeQuery

namespace Coordinate

/-- The coordinate holds stored members, one or more of its hierarchy in each slot, and asks for the
given measure. Without a slot for the measures it asks for the one declared first. -/
structure Stored (c : Cube) (coordinate : Coordinate) (id : MeasureId) : Prop where
  members : ∀ h choice, (.hierarchy h, choice) ∈ coordinate → choice.elements ≠ [] ∧
    ∀ e ∈ choice.elements, ∃ m, e = .member m ∧ c.Has (.member m) ∧ (c.member m).hierarchy = h
  measures : ∀ choice, (.measures, choice) ∈ coordinate →
    choice.elements = [.measure id] ∧ c.Has (.measure id)
  first : (∀ choice, (.measures, choice) ∉ coordinate) → id = c.defaultMeasure

/-- Whether a fact row belongs to the coordinate by what the tables say: for each hierarchy, the
slot has the All member or a member that the row belongs to. -/
def Joins (layout : CubeLayout) (catalog : Catalog) (c : Cube) (coordinate : Coordinate)
    (r : Nat) : Prop :=
  ∀ h choice, (.hierarchy h, choice) ∈ coordinate →
    .member (c.hierarchy h).allMember ∈ choice.elements ∨
      ∃ d m, layout.dimensions[h.index]? = some d ∧ .member m ∈ choice.elements ∧
        d.Covers catalog c.factTable (c.depth m) (c.member m).position r

variable {c : Cube} {coordinate : Coordinate} {id : MeasureId}

theorem mem_of_choice? {facet : Facet} {choice : Choice}
    (h : coordinate.choice? facet = some choice) : (facet, choice) ∈ coordinate := by
  obtain ⟨before, after, rfl, -⟩ := List.lookup_eq_some_iff.1 h
  simp

theorem Stored.measure_has (h : coordinate.Stored c id) (hmeasures : 0 < c.measures.size) :
    c.Has (.measure id) := by
  by_cases hslot : ∃ choice, (Facet.measures, choice) ∈ coordinate
  · obtain ⟨choice, hmem⟩ := hslot
    exact (h.measures choice hmem).2
  · rw [h.first fun choice hmem => hslot ⟨choice, hmem⟩]
    exact hmeasures

theorem Stored.hasCoordinate (h : coordinate.Stored c id) (s : Scope) :
    Context.HasCoordinate ⟨c, s⟩ coordinate := by
  rintro ⟨facet, choice⟩ hslot e he
  cases facet with
  | measures =>
    obtain ⟨helements, hhas⟩ := h.measures choice hslot
    rw [helements] at he
    obtain rfl := List.mem_singleton.1 he
    exact hhas
  | hierarchy i =>
    obtain ⟨m, rfl, hhas, -⟩ := (h.members i choice hslot).2 e he
    exact hhas

theorem Stored.measureOf (h : coordinate.Stored c id) (s : Scope) :
    Context.measureOf ⟨c, s⟩ coordinate = .ok id := by
  unfold Context.measureOf
  cases hchoice : coordinate.choice? .measures with
  | none =>
    have hnone : ∀ choice, (Facet.measures, choice) ∉ coordinate := by
      intro choice hmem
      have hne := List.lookup_eq_none_iff.1 hchoice _ hmem
      simp at hne
    rw [h.first hnone]
  | some choice =>
    have helements := (h.measures choice (mem_of_choice? hchoice)).1
    cases choice with
    | one e =>
      obtain rfl := List.singleton_inj.1 helements
      rfl
    | any es =>
      obtain rfl : es = [.measure id] := helements
      rfl

/-- No calculated member stands alone in a slot. -/
theorem Stored.leadingCalculated? (h : coordinate.Stored c id) (s : Scope) :
    Context.leadingCalculated? ⟨c, s⟩ coordinate = none := by
  have hslots : ∀ slot ∈ coordinate, ∀ i, slot.2 ≠ .one (.calculated i) := by
    rintro ⟨facet, choice⟩ hslot i rfl
    cases facet with
    | measures =>
      have helements := (h.measures _ hslot).1
      cases List.singleton_inj.1 helements
    | hierarchy j =>
      obtain ⟨m, heq, -⟩ := (h.members j _ hslot).2 (.calculated i) List.mem_cons_self
      cases heq
  unfold Context.leadingCalculated?
  refine List.foldlRecOn (motive := (· = none)) _ _ rfl fun best hbest slot hslot => ?_
  obtain ⟨facet, choice⟩ := slot
  cases choice with
  | any es => exact hbest
  | one e =>
    cases e with
    | member m => exact hbest
    | measure m => exact hbest
    | calculated i => exact absurd rfl (hslots _ hslot i)

/-- A slot lets those rows through that the tables join with its members. All rows lie below an All
member, so that only the other members are looked up in the tables. -/
theorem Stored.admits_iff {layout : CubeLayout} {catalog : Catalog}
    (hb : Cube.Built layout catalog c) (h : coordinate.Stored c id) (s : Scope) {r : Nat}
    (hr : r < c.factTable.rowCount) {i : HierarchyId} {choice : Choice}
    (hslot : (Facet.hierarchy i, choice) ∈ coordinate) :
    Context.admits ⟨c, s⟩ choice r = true ↔ .member (c.hierarchy i).allMember ∈ choice.elements ∨
      ∃ d m, layout.dimensions[i.index]? = some d ∧ .member m ∈ choice.elements ∧
        d.Covers catalog c.factTable (c.depth m) (c.member m).position r := by
  obtain ⟨hsome, hall⟩ := h.members i choice hslot
  have hmember {m : MemberId} (hm : .member m ∈ choice.elements) :
      c.Has (.member m) ∧ (c.member m).hierarchy = i := by
    obtain ⟨_, ⟨⟩, hhas, hsame⟩ := hall _ hm
    exact ⟨hhas, hsame⟩
  obtain ⟨first, hfirst⟩ := List.exists_mem_of_ne_nil _ hsome
  obtain ⟨m₀, rfl, hm₀, hi⟩ := hall first hfirst
  have hh : c.Has (.hierarchy i) := hi ▸ hb.graph.hierarchy_has hm₀
  have hnonempty : choice.members ≠ [] := List.ne_nil_of_mem (Choice.mem_members.2 hfirst)
  rw [Context.admits, decide_eq_false hnonempty, Bool.false_or, List.any_eq_true]
  constructor
  · rintro ⟨m, hm, hbelow⟩
    have hm := Choice.mem_members.1 hm
    obtain ⟨hhas, hsame⟩ := hmember hm
    -- The members without depth are the All members.
    by_cases hdepth : c.depth m = 0
    · have hall := hb.graph.eq_allMember hhas hdepth
      rw [hsame] at hall
      exact .inl (hall ▸ hm)
    · obtain ⟨d, hd⟩ := hb.exists_dimension hh
      have hcovers := (hb.bound i.index d hd).covers m hhas hsame hdepth r hr
      rw [Cube.liesBelow_iff hb.graph hhas, hcovers] at hbelow
      exact .inr ⟨d, m, hd, hm, hbelow⟩
  · rintro (hmem | ⟨d, m, hd, hm, hcovers⟩)
    · exact ⟨_, Choice.mem_members.2 hmem, hb.liesBelow_allMember hh hr⟩
    · obtain ⟨hhas, hsame⟩ := hmember hm
      refine ⟨m, Choice.mem_members.2 hm, ?_⟩
      by_cases hdepth : c.depth m = 0
      · have hall := hb.graph.eq_allMember hhas hdepth
        rw [hall, hsame]
        exact hb.liesBelow_allMember hh hr
      · rw [Cube.liesBelow_iff hb.graph hhas]
        exact ((hb.bound i.index d hd).covers m hhas hsame hdepth r hr).2 hcovers

/-- The rows that pass every slot are the rows that the tables join. -/
theorem Stored.mem_rowsThrough {layout : CubeLayout} {catalog : Catalog}
    (hb : Cube.Built layout catalog c) (h : coordinate.Stored c id) (s : Scope) (r : Nat) :
    r ∈ Context.rowsThrough ⟨c, s⟩ coordinate ↔
      r < c.factTable.rowCount ∧ coordinate.Joins layout catalog c r := by
  unfold Context.rowsThrough Context.rowsWhere
  rw [List.mem_filter, List.mem_range]
  refine and_congr_right fun hr => ?_
  rw [List.all_eq_true]
  constructor
  · intro hall i choice hslot
    have hpass := hall _ hslot
    rw [decide_eq_false (by simp), Bool.false_or] at hpass
    exact (h.admits_iff hb s hr hslot).1 hpass
  · rintro hjoins ⟨facet, choice⟩ hslot
    cases facet with
    | measures => rfl
    | hierarchy i =>
      rw [decide_eq_false (by simp), Bool.false_or]
      exact (h.admits_iff hb s hr hslot).2 (hjoins i choice hslot)

/-- The cell that the tables have at a coordinate: the values of the measure in the joined rows, in
row order and without the missing ones, drawn together. -/
structure Cell (layout : CubeLayout) (catalog : Catalog) (c : Cube) (coordinate : Coordinate)
    (id : MeasureId) (rows : List Nat) (cell : CellValue) : Prop where
  ascending : rows.Pairwise (· < ·)
  joined : ∀ r, r ∈ rows ↔ r < c.factTable.rowCount ∧ coordinate.Joins layout catalog c r
  value : ∃ fact m column aggregation, catalog.find? layout.factTable = some fact ∧
    layout.measures[id.index]? = some m ∧ fact.requireColumn m.column = .ok column ∧
    fact.columnType? column = some .number ∧
    Aggregation.ofName? m.aggregation = some aggregation ∧
    cell.value = aggregation.aggregate (rows.filterMap fun r => (fact.cell r column).number?)
  empty : cell.empty = true ↔ rows = [] ∨ cell.value = .null

theorem Stored.cell {layout : CubeLayout} {catalog : Catalog} (hb : Cube.Built layout catalog c)
    (h : coordinate.Stored c id) (s : Scope) :
    let rows := Context.rowsThrough ⟨c, s⟩ coordinate
    let value := Context.valueOver ⟨c, s⟩ id rows
    Cell layout catalog c coordinate id rows ⟨value, rows.isEmpty || value.isNull⟩ := by
  intro rows value
  refine ⟨List.pairwise_lt_range.filter _, h.mem_rowsThrough hb s, ?_, ?_⟩
  · have hhas : id.index < layout.measures.length := by
      rw [← hb.measures]
      exact h.measure_has (hb.measures ▸ List.length_pos_iff.2 hb.measures_ne_nil)
    have hm := List.getElem?_eq_getElem hhas
    obtain ⟨column, aggregation, hcolumn, htype, haggregation, hmeasure⟩ := hb.measure _ _ hm
    refine ⟨c.factTable, _, column, aggregation, hb.factTable, hm, hcolumn, htype, haggregation, ?_⟩
    show ((c.measure id).aggregation.aggregate _) = _
    rw [hmeasure]
    rfl
  · rw [Bool.or_eq_true, List.isEmpty_iff, Scalar.isNull, beq_iff_eq]

end Coordinate

namespace Context

open Coordinate

end Context

end CubeQuery
