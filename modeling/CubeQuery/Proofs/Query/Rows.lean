import CubeQuery.Proofs.Assembly.Build
import CubeQuery.Proofs.Query.KnownScope
import CubeQuery.Proofs.Query.Recall

/-!
The fact rows of a coordinate, read off hierarchy by hierarchy. The evaluator leaves out slots with
an All member and sorts the members of the others; since every fact row lies below every All member,
nothing is lost by that.
-/

namespace CubeQuery

open CubeQuery.Language

/-- The stored members of a choice. -/
def Choice.members (choice : Choice) : List MemberId :=
  choice.elements.filterMap fun
    | .member id => some id
    | _ => none

theorem Choice.mem_members {choice : Choice} {id : MemberId} :
    id ∈ choice.members ↔ .member id ∈ choice.elements := by
  unfold members
  rw [List.mem_filterMap]
  constructor
  · rintro ⟨e, he, h⟩
    cases e with
    | member other =>
      obtain rfl := Option.some.inj h
      exact he
    | measure _ => cases h
    | calculated _ => cases h
  · exact fun h => ⟨_, h, rfl⟩

/-! ### Rows below a member -/

namespace Cube

variable {c : Cube}

theorem liesBelow_iff (hg : Graph c) {a : MemberId} (ha : c.Has (.member a)) {r : Nat} :
    c.liesBelow a r = true ↔ ∃ b n, c.Has (.member b) ∧ c.ancestor? n b = some a ∧
      r ∈ c.rowsAt b := by
  unfold liesBelow
  rw [List.any_eq_true]
  constructor
  · rintro ⟨b, hb, hr⟩
    obtain ⟨hhas, n, hn⟩ := (hg.mem_descendants ha).1 hb
    exact ⟨b, n, hhas, hn, by simpa using hr⟩
  · rintro ⟨b, n, hhas, hn, hr⟩
    exact ⟨b, (hg.mem_descendants ha).2 ⟨hhas, n, hn⟩, by simpa using hr⟩

theorem Built.exists_dimension {layout : CubeLayout} {catalog : Catalog}
    (hb : Built layout catalog c) {h : HierarchyId} (hh : c.Has (.hierarchy h)) :
    ∃ d, layout.dimensions[h.index]? = some d := by
  have hlt : h.index < layout.dimensions.length := hb.dimensions ▸ hh
  exact ⟨_, List.getElem?_eq_getElem hlt⟩

/-- Every fact row has its place in every hierarchy, and the All member is above all places. -/
theorem Built.liesBelow_allMember {layout : CubeLayout} {catalog : Catalog}
    (hb : Built layout catalog c) {h : HierarchyId} (hh : c.Has (.hierarchy h)) {r : Nat}
    (hr : r < c.factTable.rowCount) : c.liesBelow (c.hierarchy h).allMember r = true := by
  obtain ⟨d, hd⟩ := hb.exists_dimension hh
  obtain ⟨m, hm, hsame, hrow⟩ := (hb.bound h.index d hd).parted.total hr
  have htop := hb.graph.ancestor?_depth hm
  rw [hsame] at htop
  rw [liesBelow_iff hb.graph (hb.graph.allMember hh).1]
  exact ⟨m, c.depth m, hm, htop, hrow⟩

end Cube

/-! ### Rows of a coordinate -/

namespace Context

/-- Whether a slot lets a row through: the row lies below any of its stored members, or there are
none. -/
def admits (ctx : Context) (choice : Choice) (row : Nat) : Bool :=
  choice.members = [] || choice.members.any fun id => ctx.cube.liesBelow id row

/-- The fact rows of a coordinate, hierarchy by hierarchy. -/
def rowsThrough (ctx : Context) (coordinate : Coordinate) : List Nat :=
  ctx.rowsWhere fun row => coordinate.all fun slot => slot.1 = .measures || ctx.admits slot.2 row

/-- All elements of the coordinate are of the cube or of the definitions. -/
def HasCoordinate (ctx : Context) (coordinate : Coordinate) : Prop :=
  ∀ slot ∈ coordinate, ctx.HasAll slot.2.elements

variable {ctx : Context}

theorem restriction?_eq (choice : Choice) : ctx.restriction? choice =
    if choice.members = [] ∨ choice.members.any fun id => (ctx.cube.member id).isAll then none
    else some ((choice.members.mergeSort fun a b => a.index ≤ b.index).eraseDups) :=
  rfl

theorem restriction?_eq_some {choice : Choice} {ids : List MemberId}
    (h : ctx.restriction? choice = some ids) (row : Nat) :
    (ids.any fun id => ctx.cube.liesBelow id row) = ctx.admits choice row := by
  rw [restriction?_eq] at h
  split at h
  · cases h
  · rename_i hcond
    obtain rfl := Option.some.inj h
    obtain ⟨hsome, -⟩ := not_or.1 hcond
    rw [Bool.eq_iff_iff]
    simp only [admits, hsome, decide_false, Bool.false_or, List.any_eq_true, List.mem_eraseDups,
      List.mem_mergeSort]

theorem restriction?_eq_none {layout : CubeLayout} {catalog : Catalog}
    (hb : Cube.Built layout catalog ctx.cube) {choice : Choice} (hhas : ctx.HasAll choice.elements)
    (h : ctx.restriction? choice = none) {row : Nat} (hrow : row < ctx.cube.factTable.rowCount) :
    ctx.admits choice row = true := by
  rw [restriction?_eq] at h
  split at h
  · rename_i hcond
    rcases hcond with hnone | hall
    · simp [admits, hnone]
    · obtain ⟨id, hid, htop⟩ := List.any_eq_true.1 hall
      have hm : ctx.cube.Has (.member id) := hhas _ (Choice.mem_members.1 hid)
      have heq := (hb.graph.parent?_eq_none_iff_allMember hm).1 (Option.isNone_iff_eq_none.1 htop)
      have hbelow := hb.liesBelow_allMember (hb.graph.hierarchy_has hm) hrow
      rw [← heq] at hbelow
      rw [admits, Bool.or_eq_true]
      exact .inr (List.any_eq_true.2 ⟨id, hid, hbelow⟩)
  · cases h

theorem satisfies_restrictions {layout : CubeLayout} {catalog : Catalog}
    (hb : Cube.Built layout catalog ctx.cube) {coordinate : Coordinate}
    (hhas : ctx.HasCoordinate coordinate) {row : Nat}
    (hrow : row < ctx.cube.factTable.rowCount) :
    ctx.satisfies (ctx.restrictions coordinate) row =
      coordinate.all fun slot => slot.1 = .measures || ctx.admits slot.2 row := by
  induction coordinate with
  | nil => rfl
  | cons slot rest ih =>
    have ih := ih fun other hother => hhas other (List.mem_cons_of_mem slot hother)
    have hslot := hhas slot List.mem_cons_self
    rw [List.all_cons, ← ih]
    by_cases hmeasures : slot.1 = .measures
    · have hsame : ctx.restrictions (slot :: rest) = ctx.restrictions rest :=
        List.filterMap_cons_none (if_pos hmeasures)
      rw [hsame, decide_eq_true hmeasures, Bool.true_or, Bool.true_and]
    · rw [decide_eq_false hmeasures, Bool.false_or]
      cases hr : ctx.restriction? slot.2 with
      | none =>
        have hsame : ctx.restrictions (slot :: rest) = ctx.restrictions rest :=
          List.filterMap_cons_none ((if_neg hmeasures).trans hr)
        rw [hsame, restriction?_eq_none hb hslot hr hrow, Bool.true_and]
      | some ids =>
        have hmore : ctx.restrictions (slot :: rest) = ids :: ctx.restrictions rest :=
          List.filterMap_cons_some ((if_neg hmeasures).trans hr)
        rw [hmore, ← restriction?_eq_some hr row]
        rfl

/-- The evaluator restricts a coordinate to the rows that pass every slot. -/
theorem rowsIn_eq_rowsThrough {layout : CubeLayout} {catalog : Catalog}
    (hb : Cube.Built layout catalog ctx.cube) {coordinate : Coordinate}
    (hhas : ctx.HasCoordinate coordinate) :
    ctx.rowsIn coordinate = ctx.rowsThrough coordinate :=
  List.filter_congr fun _ hrow => satisfies_restrictions hb hhas (List.mem_range.1 hrow)

end Context

end CubeQuery
