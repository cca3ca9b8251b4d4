import CubeQuery.Proofs.Query.Meaning
import CubeQuery.Proofs.Query.Place

/-!
Row sets roll up. The members of a hierarchy part the fact rows among themselves, and each row below
a member is either one of its own or below exactly one of its children. What the evaluator counts at
a member is thus what it has itself and what its children count.
-/

namespace CubeQuery

/-! ### Rows below a member and its children -/

namespace Cube

variable {c : Cube} {m child : MemberId} {r : Nat}

theorem Built.parted {layout : CubeLayout} {catalog : Catalog} (hb : Built layout catalog c)
    {h : HierarchyId} (hh : c.Has (.hierarchy h)) : Parted c h := by
  obtain ⟨d, hd⟩ := hb.exists_dimension hh
  exact (hb.bound h.index d hd).parted

/-- Of the members of one depth only one is above a row. -/
theorem Parted.eq_of_liesBelow (hg : Graph c) {x y : MemberId}
    (hp : Parted c (c.member x).hierarchy) (hx : c.Has (.member x)) (hy : c.Has (.member y))
    (hsame : (c.member y).hierarchy = (c.member x).hierarchy) (hdepth : c.depth x = c.depth y)
    (hrx : c.liesBelow x r = true) (hry : c.liesBelow y r = true) : x = y := by
  obtain ⟨b, n, hb, hn, hr⟩ := (liesBelow_iff hg hx).1 hrx
  obtain ⟨b', n', hb', hn', hr'⟩ := (liesBelow_iff hg hy).1 hry
  obtain ⟨-, hbx, hstep⟩ := hg.ancestor? hb hn
  obtain ⟨-, hby, hstep'⟩ := hg.ancestor? hb' hn'
  -- The row has one place only, and from there each number of steps up leads to one member.
  obtain rfl := hp.unique hb hbx.symm hb' (hby.symm.trans hsame) hr hr'
  obtain rfl : n = n' := by omega
  exact Option.some.inj (hn.symm.trans hn')

theorem Graph.liesBelow_iff_children (hg : Graph c) (hm : c.Has (.member m)) :
    c.liesBelow m r = true ↔
      r ∈ c.rowsAt m ∨ ∃ child ∈ c.memberChildren m, c.liesBelow child r = true := by
  rw [liesBelow_iff hg hm]
  constructor
  · rintro ⟨b, n, hb, hn, hr⟩
    cases n with
    | zero =>
      obtain rfl := Option.some.inj hn
      exact .inl hr
    | succ n =>
      rw [ancestor?_succ] at hn
      obtain ⟨child, hchild, hparent⟩ := Option.bind_eq_some_iff.1 hn
      have hhas := (hg.ancestor? hb hchild).1
      exact .inr ⟨child, (hg.mem_memberChildren hm).2 ⟨hhas, hparent⟩,
        (liesBelow_iff hg hhas).2 ⟨b, n, hb, hchild, hr⟩⟩
  · rintro (hr | ⟨child, hchild, hr⟩)
    · exact ⟨m, 0, hm, rfl, hr⟩
    · obtain ⟨hhas, hparent⟩ := (hg.mem_memberChildren hm).1 hchild
      obtain ⟨b, n, hb, hn, hr⟩ := (liesBelow_iff hg hhas).1 hr
      exact ⟨b, n + 1, hb, by rw [ancestor?_succ, hn]; exact hparent, hr⟩

/-- A row that a member has itself is not below a child. -/
theorem Parted.not_liesBelow_child (hg : Graph c) (hp : Parted c (c.member m).hierarchy)
    (hm : c.Has (.member m)) (hchild : child ∈ c.memberChildren m) (hr : r ∈ c.rowsAt m) :
    ¬ c.liesBelow child r = true := by
  obtain ⟨hhas, hsame, hdepth⟩ := hg.memberChildren_below hm hchild
  rw [liesBelow_iff hg hhas]
  rintro ⟨b, n, hb, hn, hr'⟩
  obtain ⟨-, hbchild, hstep⟩ := hg.ancestor? hb hn
  -- Otherwise the member itself would stand below its child.
  obtain rfl := hp.unique hm rfl hb (hbchild.symm.trans hsame) hr hr'
  omega

theorem Parted.eq_of_liesBelow_children (hg : Graph c) (hp : Parted c (c.member m).hierarchy)
    (hm : c.Has (.member m)) {x y : MemberId} (hx : x ∈ c.memberChildren m)
    (hy : y ∈ c.memberChildren m) (hrx : c.liesBelow x r = true) (hry : c.liesBelow y r = true) :
    x = y := by
  obtain ⟨hxhas, hxsame, hxdepth⟩ := hg.memberChildren_below hm hx
  obtain ⟨hyhas, hysame, hydepth⟩ := hg.memberChildren_below hm hy
  exact eq_of_liesBelow hg (hxsame ▸ hp) hxhas hyhas (hysame.trans hxsame.symm)
    (hxdepth.trans hydepth.symm) hrx hry

end Cube

namespace Context

open CubeQuery.Cube

variable {ctx : Context} {m : MemberId}

/-- The rows with some property that a member has itself, and those below its children. -/
def splitRows (ctx : Context) (m : MemberId) (p : Nat → Bool) : List Nat :=
  (ctx.cube.rowsAt m).toList.filter p ++ (ctx.cube.memberChildren m).flatMap
    fun child => ctx.rowsWhere fun r => ctx.cube.liesBelow child r && p r

variable {p : Nat → Bool} {r : Nat}

theorem mem_rowsBelow_where : r ∈ (ctx.rowsWhere fun r => ctx.cube.liesBelow m r && p r) ↔
    r < ctx.cube.factTable.rowCount ∧ ctx.cube.liesBelow m r = true ∧ p r = true := by
  rw [rowsWhere, List.mem_filter, List.mem_range, Bool.and_eq_true]

theorem nodup_splitRows (hg : Graph ctx.cube)
    (hp : Parted ctx.cube (ctx.cube.member m).hierarchy) (hm : ctx.cube.Has (.member m)) :
    (ctx.splitRows m p).Nodup := by
  rw [splitRows, List.nodup_append', List.nodup_flatMap]
  refine ⟨((hp.ascending m hm rfl).imp Nat.ne_of_lt).filter _,
    ⟨fun _ _ => List.nodup_range.filter _, ?_⟩, ?_⟩
  · -- Different children share no row.
    refine (hg.nodup_memberChildren hm).pairwise_of_forall_ne fun x hx y hy hne r hrx hry => ?_
    exact hne (hp.eq_of_liesBelow_children hg hm hx hy (mem_rowsBelow_where.1 hrx).2.1
      (mem_rowsBelow_where.1 hry).2.1)
  · intro r hown hbelow
    obtain ⟨child, hchild, hr⟩ := List.mem_flatMap.1 hbelow
    have hown := Array.mem_toList_iff.1 (List.mem_filter.1 hown).1
    exact hp.not_liesBelow_child hg hm hchild hown (mem_rowsBelow_where.1 hr).2.1

theorem mem_splitRows (hg : Graph ctx.cube)
    (hp : Parted ctx.cube (ctx.cube.member m).hierarchy) (hm : ctx.cube.Has (.member m)) :
    r ∈ ctx.splitRows m p ↔
      r < ctx.cube.factTable.rowCount ∧ ctx.cube.liesBelow m r = true ∧ p r = true := by
  rw [splitRows, List.mem_append, List.mem_filter, Array.mem_toList_iff, List.mem_flatMap,
    hg.liesBelow_iff_children hm]
  constructor
  · rintro (⟨hown, hpr⟩ | ⟨child, hchild, hbelow⟩)
    · exact ⟨hp.bounded m hm rfl r hown, .inl hown, hpr⟩
    · obtain ⟨hr, hbelow, hpr⟩ := mem_rowsBelow_where.1 hbelow
      exact ⟨hr, .inr ⟨child, hchild, hbelow⟩, hpr⟩
  · rintro ⟨hr, hown | ⟨child, hchild, hbelow⟩, hpr⟩
    · exact .inl ⟨hown, hpr⟩
    · exact .inr ⟨child, hchild, mem_rowsBelow_where.2 ⟨hr, hbelow, hpr⟩⟩

theorem rowsBelow_perm_splitRows (hg : Graph ctx.cube)
    (hp : Parted ctx.cube (ctx.cube.member m).hierarchy) (hm : ctx.cube.Has (.member m)) :
    (ctx.rowsWhere fun r => ctx.cube.liesBelow m r && p r).Perm (ctx.splitRows m p) := by
  have hnodup : (ctx.rowsWhere fun r => ctx.cube.liesBelow m r && p r).Nodup :=
    List.nodup_range.filter _
  refine (List.perm_ext_iff_of_nodup hnodup (nodup_splitRows hg hp hm)).2 fun r => ?_
  rw [mem_rowsBelow_where, mem_splitRows hg hp hm]

end Context

/-! ### Rows of a coordinate -/

namespace Coordinate

/-- What the other facets contribute. -/
def without (f : Facet) (coordinate : Coordinate) : Coordinate :=
  coordinate.filter fun slot => slot.1 ≠ f

variable {coordinate : Coordinate} {f : Facet} {choice : Choice}

theorem Ascending.mem_put_iff (h : coordinate.Ascending) {slot : Facet × Choice} :
    slot ∈ coordinate.put f choice ↔ slot = (f, choice) ∨ slot ∈ coordinate.without f := by
  obtain ⟨g, other⟩ := slot
  rw [← h.put.choice?_eq_some, choice?_put, without, List.mem_filter, ← h.choice?_eq_some,
    Prod.mk.injEq, decide_eq_true_iff]
  by_cases hg : g = f
  · simp [hg, eq_comm]
  · simp [hg]

end Coordinate

namespace Context

open CubeQuery.Cube Coordinate

variable {ctx : Context}

/-- Whether a row passes every slot of a coordinate. -/
def passes (ctx : Context) (coordinate : Coordinate) (row : Nat) : Bool :=
  coordinate.all fun slot => slot.1 = .measures || ctx.admits slot.2 row

theorem passes_place {coordinate : Coordinate} (h : coordinate.Ascending) (m : MemberId) :
    ctx.passes (ctx.place coordinate [.member m]) = fun r =>
      ctx.cube.liesBelow m r && ctx.passes (coordinate.without (ctx.facetOf (.member m))) r := by
  have hone (r : Nat) : ctx.admits (.one (.member m)) r = ctx.cube.liesBelow m r := by
    simp [admits, Choice.members, Choice.elements]
  have hplace : ctx.place coordinate [.member m] =
      coordinate.put (ctx.facetOf (.member m)) (.one (.member m)) := rfl
  funext r
  rw [Bool.eq_iff_iff, Bool.and_eq_true, passes, passes, List.all_eq_true, List.all_eq_true, hplace]
  simp only [h.mem_put_iff, forall_eq_or_imp, hone, facetOf, reduceCtorEq, decide_false,
    Bool.false_or]

/-- The row set that the evaluator uses for a member once it has evaluated some cells. -/
def subtreeAfter (ctx : Context) (earlier : List Coordinate) (id : MemberId) : RowSet :=
  ((ctx.recallSubtree id).run ((ctx.evalCells earlier).run .empty).2).1

/-- The number of fact rows that it finds at a coordinate. -/
def rowCountAfter (ctx : Context) (earlier : List Coordinate) (coordinate : Coordinate) : Nat :=
  let rows := ctx.recallRows (ctx.restrictions coordinate)
  (rows.run ((ctx.evalCells earlier).run .empty).2).1.count

theorem toList_subtreeAfter (earlier : List Coordinate) (id : MemberId) :
    (ctx.subtreeAfter earlier id).toList = ctx.rowsWhere (ctx.cube.liesBelow id) :=
  (finds_recallSubtree id _ (truthful_evalCells earlier)).1.toList

theorem rowCountAfter_eq (earlier : List Coordinate) (coordinate : Coordinate) :
    ctx.rowCountAfter earlier coordinate = (ctx.rowsIn coordinate).length :=
  (finds_recallRows _ _ (truthful_evalCells earlier)).1.count_eq

/-- The row set of a member is the disjoint union of its own rows and of the row sets of its
children, and so the numbers of rows add up at every coordinate. The All member has all rows. -/
structure RollsUp (ctx : Context) (earlier : List Coordinate) (m : MemberId) : Prop where
  disjoint : ((ctx.cube.rowsAt m).toList ++ (ctx.cube.memberChildren m).flatMap
    fun child => (ctx.subtreeAfter earlier child).toList).Nodup
  union : (ctx.subtreeAfter earlier m).toList.Perm ((ctx.cube.rowsAt m).toList ++
    (ctx.cube.memberChildren m).flatMap fun child => (ctx.subtreeAfter earlier child).toList)
  all : m = (ctx.cube.hierarchy (ctx.cube.member m).hierarchy).allMember →
    (ctx.subtreeAfter earlier m).toList = List.range ctx.cube.factTable.rowCount
  counts : ∀ (coordinate : Coordinate) (id : MeasureId), coordinate.Ascending →
    coordinate.Stored ctx.cube id → ctx.rowCountAfter earlier (ctx.place coordinate [.member m]) =
      (ctx.cube.rowsAt m).toList.countP
          (ctx.passes (coordinate.without (ctx.facetOf (.member m)))) +
        ((ctx.cube.memberChildren m).map fun child =>
          ctx.rowCountAfter earlier (ctx.place coordinate [.member child])).sum

/-- With a stored member in its slot, a coordinate of stored members has the rows below the member
that pass the other slots. -/
theorem rowsIn_place {layout : CubeLayout} {catalog : Catalog}
    (hb : Built layout catalog ctx.cube) {coordinate : Coordinate} {id : MeasureId}
    (hasc : coordinate.Ascending) (hstored : coordinate.Stored ctx.cube id) {m : MemberId}
    (hm : ctx.cube.Has (.member m)) :
    ctx.rowsIn (ctx.place coordinate [.member m]) = ctx.rowsWhere fun r =>
      ctx.cube.liesBelow m r && ctx.passes (coordinate.without (ctx.facetOf (.member m))) r := by
  have hhas : ctx.HasCoordinate (ctx.place coordinate [.member m]) := by
    intro slot hslot
    rcases mem_put hslot with rfl | hslot
    · intro e he
      obtain rfl := List.mem_singleton.1 he
      exact hm
    · exact hstored.hasCoordinate ctx.scope slot hslot
  rw [rowsIn_eq_rowsThrough hb hhas, ← passes_place hasc]
  rfl

/-- In every cube the members of each hierarchy part the fact rows among themselves, and row sets
roll up, whatever has been evaluated before. -/
theorem factRows_roll_up {layout : CubeLayout} {catalog : Catalog} {c : Cube}
    (hbuild : Cube.build layout catalog = .ok c) :
    (∀ h, c.Has (.hierarchy h) → Parted c h) ∧
      ∀ s earlier m, c.Has (.member m) → RollsUp ⟨c, s⟩ earlier m := by
  have hb := built_of_build hbuild
  refine ⟨fun h hh => hb.parted hh, fun s earlier m hm => ?_⟩
  have hh := hb.graph.hierarchy_has hm
  have hp := hb.parted hh
  constructor
  · have hnodup : (splitRows ⟨c, s⟩ m fun _ => true).Nodup := nodup_splitRows hb.graph hp hm
    simpa [toList_subtreeAfter, splitRows] using hnodup
  · have hperm : (rowsWhere ⟨c, s⟩ fun r => c.liesBelow m r && true).Perm
        (splitRows ⟨c, s⟩ m fun _ => true) := rowsBelow_perm_splitRows hb.graph hp hm
    simpa [toList_subtreeAfter, splitRows] using hperm
  · intro hall
    rw [toList_subtreeAfter, rowsWhere, List.filter_eq_self]
    intro r hr
    rw [hall]
    exact hb.liesBelow_allMember hh (List.mem_range.1 hr)
  · intro coordinate id hasc hstored
    -- The rows that pass the other slots split like all rows; a child takes the slot of its parent.
    have hplace {x : MemberId} (hx : c.Has (.member x)) :
        rowsIn ⟨c, s⟩ (place ⟨c, s⟩ coordinate [.member x]) = rowsWhere ⟨c, s⟩ fun r =>
          c.liesBelow x r &&
            passes ⟨c, s⟩ (coordinate.without (.hierarchy (c.member x).hierarchy)) r :=
      rowsIn_place hb hasc hstored hx
    have hchildren : (c.memberChildren m).map (fun child =>
          rowCountAfter ⟨c, s⟩ earlier (place ⟨c, s⟩ coordinate [.member child])) =
        (c.memberChildren m).map fun child => (rowsWhere ⟨c, s⟩ fun r => c.liesBelow child r &&
          passes ⟨c, s⟩ (coordinate.without (.hierarchy (c.member m).hierarchy)) r).length := by
      refine List.map_congr_left fun child hchild => ?_
      obtain ⟨hhas, hsame, -⟩ := hb.graph.memberChildren_below hm hchild
      rw [rowCountAfter_eq, hplace hhas, hsame]
    rw [rowCountAfter_eq, hplace hm, (rowsBelow_perm_splitRows hb.graph hp hm).length_eq, splitRows,
      List.length_append, List.length_flatMap, hchildren, List.countP_eq_length_filter]
    rfl

theorem factRows_roll_up_sample :
    let ctx : Context := ⟨Sample.cube, .empty⟩
    (Sample.cube.hierarchy ⟨0⟩).kind = .regular ∧ Parted Sample.cube ⟨0⟩ ∧
      RollsUp ctx [[]] ⟨0⟩ ∧ Ascending [] ∧ Stored Sample.cube [] ⟨0⟩ ∧
      ctx.rowCountAfter [[]] [(.hierarchy ⟨0⟩, .one (.member ⟨0⟩))] =
        ctx.rowCountAfter [[]] [(.hierarchy ⟨0⟩, .one (.member ⟨1⟩))] := by
  intro ctx
  obtain ⟨hparted, hrolls⟩ := factRows_roll_up Sample.build_eq_cube
  have hhierarchy : Sample.cube.Has (.hierarchy ⟨0⟩) :=
    show 0 < Sample.cube.hierarchies.size by decide
  have hmember : Sample.cube.Has (.member ⟨0⟩) := show 0 < Sample.cube.members.size by decide
  have hroll := hrolls .empty [[]] ⟨0⟩ hmember
  have hstored : Stored Sample.cube [] ⟨0⟩ := ⟨by simp, by simp, fun _ => rfl⟩
  refine ⟨rfl, hparted ⟨0⟩ hhierarchy, hroll, .nil, hstored, ?_⟩
  have hown : Sample.cube.rowsAt ⟨0⟩ = #[] := by decide
  have hchildren : Sample.cube.memberChildren ⟨0⟩ = [⟨1⟩] := by decide
  refine (hroll.counts [] ⟨0⟩ .nil hstored).trans ?_
  rw [hown, hchildren]
  exact Nat.zero_add _

end Context

end CubeQuery
