import CubeQuery.Proofs.Query.Answer

/-!
What is left of the axes when empty positions are left out. An axis keeps its positions in order,
and a cell that is left belongs to exactly one cell of the grid, over the same tuples.
-/

namespace CubeQuery

open CubeQuery.Language

variable {sizes positions : List Nat} {kept : List (List Nat)} {masks : List Mask}

/-! ### Marks -/

/-- Masks fit axes of the given sizes, and mark exactly the given positions of them. -/
structure Marks (sizes : List Nat) (marked : Nat → Nat → Prop) (masks : List Mask) : Prop where
  sizes : masks.map Array.size = sizes
  marked : ∀ {i mask}, masks[i]? = some mask →
    ∀ p, mask.getD p false = true ↔ p < mask.size ∧ marked i p

theorem getD_setIfInBounds {mask : Mask} {p q : Nat} :
    (mask.setIfInBounds q true).getD p false = true ↔
      p < mask.size ∧ q = p ∨ mask.getD p false = true := by
  simp only [Array.getD_eq_getD_getElem?, Array.getElem?_setIfInBounds]
  by_cases hq : q = p
  · subst hq
    by_cases hlt : q < mask.size <;> simp [hlt]
  · simp [hq]

theorem Marks.length_eq {marked : Nat → Nat → Prop} (h : Marks sizes marked masks) :
    masks.length = sizes.length := by
  rw [← h.sizes, List.length_map]

theorem Marks.congr {marked marked' : Nat → Nat → Prop} (h : Marks sizes marked masks)
    (hsame : ∀ i < sizes.length, ∀ p, marked i p ↔ marked' i p) : Marks sizes marked' masks where
  sizes := h.sizes
  marked hmask p := by
    have hlt := (List.getElem?_eq_some_iff.1 hmask).1
    rw [h.marked hmask, hsame _ (h.length_eq ▸ hlt)]

theorem Marks.keepAt {marked : Nat → Nat → Prop} (h : Marks sizes marked masks)
    (hlength : positions.length = sizes.length) :
    Marks sizes (fun i p => marked i p ∨ positions[i]? = some p) (keepAt masks positions) where
  sizes := by
    have hsizes : (CubeQuery.keepAt masks positions).map Array.size = masks.map Array.size := by
      refine List.ext_getElem ?_ fun i _ _ => ?_
      · simp [CubeQuery.keepAt, hlength, h.length_eq]
      · simp [CubeQuery.keepAt]
    rw [hsizes, h.sizes]
  marked {i after} hafter p := by
    obtain ⟨mask, q, hmask, hq, rfl⟩ := List.getElem?_zipWith_eq_some.1 hafter
    rw [getD_setIfInBounds, h.marked hmask, Array.size_setIfInBounds, hq, Option.some.injEq]
    tauto

/-- By induction on the cells, each of which marks one position of each axis. -/
theorem Marks.foldl {marked : Nat → Nat → Prop} (h : Marks sizes marked masks)
    {cells : List (GridCell × List Nat)} (hcells : ∀ cell ∈ cells, cell.2.length = sizes.length) :
    Marks sizes (fun i p => marked i p ∨ ∃ cell ∈ cells, cell.2[i]? = some p)
      (cells.foldl (fun masks (_, positions) => CubeQuery.keepAt masks positions) masks) := by
  induction cells generalizing masks marked with
  | nil => exact h.congr fun i _ p => by simp
  | cons cell cells ih =>
    rw [List.forall_mem_cons] at hcells
    refine (ih (h.keepAt hcells.1) hcells.2).congr fun i _ p => ?_
    simp only [List.exists_mem_cons_iff, or_assoc]

theorem mem_kept {mask : Mask} {p : Nat} : p ∈ mask.kept ↔ mask.getD p false = true := by
  rw [Mask.kept, List.mem_filter, List.mem_range, and_iff_right_iff_imp]
  intro h
  by_contra hge
  rw [Array.getD, dif_neg hge] at h
  cases h

theorem pairwise_kept (mask : Mask) : mask.kept.Pairwise (· < ·) :=
  List.pairwise_lt_range.filter _

/-! ### Positions that are kept, and where they stood -/

/-- The positions that are kept are positions of the axes, in order. -/
def Picks (sizes : List Nat) (kept : List (List Nat)) : Prop :=
  List.Forall₂ (fun ps size => ps.Pairwise (· < ·) ∧ ∀ p ∈ ps, p < size) kept sizes

theorem Picks.pairwise {i : Nat} {ps : List Nat} (h : Picks sizes kept) (hps : kept[i]? = some ps) :
    ps.Pairwise (· < ·) := by
  obtain ⟨hi, rfl⟩ := List.getElem?_eq_some_iff.1 hps
  exact ((List.forall₂_iff_get.1 h).2 i hi (h.length_eq ▸ hi)).1

/-- There are no more cells than before. -/
theorem Picks.unwrapped (h : Picks sizes kept) (hunwrapped : Unwrapped sizes) :
    Unwrapped (kept.map List.length) := by
  have hle : (kept.map List.length).prod ≤ sizes.prod := by
    clear hunwrapped
    induction h with
    | nil => exact Nat.le_refl _
    | @cons ps size kept sizes hps _ ih =>
      rw [List.map_cons, List.prod_cons, List.prod_cons]
      refine Nat.mul_le_mul ?_ ih
      have hsubset : ps ⊆ List.range size := fun p hp => List.mem_range.2 (hps.2 p hp)
      have hnodup : ps.Nodup := hps.1.imp Nat.ne_of_lt
      simpa using (hnodup.subperm hsubset).length_le
  exact Nat.lt_of_le_of_lt hle hunwrapped

theorem within_originals (h : Picks sizes kept)
    (hpositions : Within (kept.map List.length) positions) :
    Within sizes (originals kept positions) := by
  induction h generalizing positions with
  | nil =>
    cases hpositions
    exact .nil
  | @cons ps size kept sizes hps _ ih =>
    cases hpositions with
    | @cons p _ positions _ hp hrest =>
      have hmem : ps.getD p 0 ∈ ps := by
        rw [List.getD_eq_getElem _ _ hp]
        exact List.getElem_mem hp
      exact .cons (hps.2 _ hmem) (ih hrest)

theorem getElem?_originals {i p : Nat} {ps : List Nat} (hkept : kept[i]? = some ps)
    (hp : positions[i]? = some p) : (originals kept positions)[i]? = some (ps.getD p 0) := by
  rw [originals, List.getElem?_zipWith, hkept, hp]

/-- Where each axis keeps its position, the cell at these positions is kept. -/
theorem exists_originals (h : List.Forall₂ (· ∈ ·) positions kept) :
    ∃ others, Within (kept.map List.length) others ∧ originals kept others = positions := by
  induction h with
  | nil => exact ⟨[], .nil, rfl⟩
  | @cons p ps positions kept hp _ ih =>
    obtain ⟨others, hothers, horiginals⟩ := ih
    obtain ⟨k, hk, hget⟩ := List.getElem_of_mem hp
    refine ⟨k :: others, .cons hk hothers, ?_⟩
    rw [originals, List.zipWith_cons_cons, List.getD_eq_getElem _ _ hk, hget, ← horiginals]
    rfl

/-! ### Axes with the positions that are kept -/

/-- The plan that has only the tuples at some positions of the axes. -/
def Plan.keeping (plan : Plan) (kept : List (List Nat)) : Plan :=
  { plan with sets := plan.sets.zipWith tuplesAt kept }

theorem sizes_keeping {plan : Plan} (h : Picks plan.sizes kept) :
    (plan.keeping kept).sizes = kept.map List.length := by
  have hlength : kept.length = plan.sets.length := by simpa [Plan.sizes] using h.length_eq
  refine List.ext_getElem ?_ fun i _ _ => ?_
  · simp [Plan.sizes, Plan.keeping, hlength]
  · simp [Plan.sizes, Plan.keeping, tuplesAt]

theorem tuplesAt_range (set : TupleSet) : tuplesAt set (List.range set.length) = set := by
  refine List.ext_getElem (by simp [tuplesAt]) fun p _ hp => ?_
  simp [tuplesAt, hp]

theorem keeping_range (plan : Plan) : plan.keeping (plan.sizes.map List.range) = plan := by
  have hsets : plan.sets.zipWith tuplesAt (plan.sizes.map List.range) = plan.sets :=
    List.ext_getElem (by simp [Plan.sizes]) fun i _ _ => by simp [Plan.sizes, tuplesAt_range]
  rw [Plan.keeping, hsets]

theorem membersAt_keeping {plan : Plan} (h : Picks plan.sizes kept)
    (hpositions : Within (kept.map List.length) positions) :
    (plan.keeping kept).membersAt positions = plan.membersAt (originals kept positions) := by
  obtain ⟨sets, slicer?, base⟩ := plan
  unfold Plan.membersAt
  dsimp only [Plan.sizes, Plan.keeping] at h ⊢
  induction sets generalizing kept positions with
  | nil => rfl
  | cons set sets ih =>
    cases h with
    | @cons ps _ kept _ _ hkept =>
      cases hpositions with
      | @cons p _ positions _ hp hrest =>
        have hget : (tuplesAt set ps).getD p [] = set.getD (ps.getD p 0) [] := by
          rw [tuplesAt, List.getD_eq_getElem _ _ (by simpa using hp), List.getElem_map,
            List.getD_eq_getElem ps _ hp]
        rw [originals, List.zipWith_cons_cons, List.zipWith_cons_cons, List.zipWith_cons_cons,
          List.zipWith_cons_cons, List.flatten_cons, List.flatten_cons, hget,
          ih hrest hkept]
        rfl

namespace Context

variable {ctx : Context} {plan : Plan}

theorem contentAt_keeping (h : Picks plan.sizes kept)
    (hpositions : Within (kept.map List.length) positions) :
    ctx.contentAt (plan.keeping kept) positions =
      ctx.contentAt plan (originals kept positions) := by
  unfold contentAt
  rw [membersAt_keeping h hpositions]
  rfl

theorem isCell_keeping {cell : GridCell} (h : Picks plan.sizes kept)
    (hpositions : Within (kept.map List.length) positions) :
    ctx.IsCell (plan.keeping kept) positions cell ↔
      ctx.IsCell plan (originals kept positions) cell := by
  unfold IsCell
  rw [contentAt_keeping h hpositions, membersAt_keeping h hpositions]
  rfl

/-! ### The positions that axes keep -/

/-- Some cell at a position of an axis is not empty. -/
def Filled (ctx : Context) (plan : Plan) (i p : Nat) : Prop :=
  ∃ positions content, Within plan.sizes positions ∧ positions[i]? = some p ∧
    ctx.contentAt plan positions = .ok content ∧ content.empty = false

/-- Each axis keeps exactly the positions that need not be left out. -/
structure Keeps (ctx : Context) (axes : List AxisClause) (plan : Plan)
    (kept : List (List Nat)) : Prop where
  picks : Picks plan.sizes kept
  mem : ∀ {i : Nat} {clause : AxisClause} {set : TupleSet} {ps : List Nat},
    axes[i]? = some clause → plan.sets[i]? = some set → kept[i]? = some ps →
      ∀ p, p ∈ ps ↔ p < set.length ∧ (clause.nonEmpty = true → ctx.Filled plan i p)

variable {axes : List AxisClause} {grid : List GridCell}

theorem marks_replicate (hlength : axes.length = sizes.length) :
    Marks sizes (fun i _ => ∃ clause, axes[i]? = some clause ∧ clause.nonEmpty = false)
      (axes.zipWith (fun axis size => Array.replicate size !axis.nonEmpty) sizes) where
  sizes := by
    refine List.ext_getElem ?_ fun i _ _ => ?_
    · simp [hlength]
    · simp
  marked {i mask} hmask p := by
    obtain ⟨clause, size, hclause, -, rfl⟩ := List.getElem?_zipWith_eq_some.1 hmask
    simp only [hclause, Option.some.injEq, exists_eq_left', Array.size_replicate]
    by_cases hp : p < size <;> simp [hp]

theorem exists_mem_zip_allPositions (hgrid : ctx.grid plan = .ok grid)
    (hunwrapped : Unwrapped plan.sizes) {i p : Nat} :
    (∃ cell ∈ (grid.zip (allPositions plan.sizes)).filter fun (cell, _) => !cell.content.empty,
      cell.2[i]? = some p) ↔ ctx.Filled plan i p := by
  constructor
  · rintro ⟨⟨cell, positions⟩, hmem, hp⟩
    obtain ⟨hmem, hempty⟩ := List.mem_filter.1 hmem
    have hcell := (List.forall₂_iff_zip.1 (grid_eq_ok_iff.1 hgrid).flip).2 hmem
    have hwithin := within_of_mem_allPositions (List.of_mem_zip hmem).2
    exact ⟨positions, cell.content, hwithin, hp, hcell.2, by simpa using hempty⟩
  · rintro ⟨positions, content, hwithin, hp, hcontent, hempty⟩
    obtain ⟨cell, hcell, his⟩ := getElem?_grid hgrid hunwrapped hwithin
    obtain rfl : cell.content = content := Except.ok.inj (his.2.symm.trans hcontent)
    refine ⟨(cell, positions), List.mem_filter.2 ⟨?_, by simpa using hempty⟩, hp⟩
    refine List.mem_of_getElem? (List.getElem?_zip_eq_some.2 ⟨hcell, ?_⟩)
    exact hunwrapped.getElem?_allPositions hwithin

theorem marks_masksOf (hgrid : ctx.grid plan = .ok grid) (hunwrapped : Unwrapped plan.sizes)
    (hlength : axes.length = plan.sizes.length) :
    Marks plan.sizes
      (fun i p => ∃ clause, axes[i]? = some clause ∧
        (clause.nonEmpty = true → ctx.Filled plan i p))
      (masksOf axes plan.sizes grid) := by
  rw [masksOf]
  split
  · rename_i hnone
    refine (marks_replicate hlength).congr fun i hi p => ?_
    have hi' : i < axes.length := hlength ▸ hi
    have hfalse : axes[i].nonEmpty = false := by
      simpa using List.all_eq_true.1 hnone axes[i] (List.getElem_mem hi')
    simp [List.getElem?_eq_getElem hi', hfalse]
  · refine ((marks_replicate hlength).foldl fun cell hcell => ?_).congr fun i hi p => ?_
    · have hmem := (List.of_mem_zip (List.mem_filter.1 hcell).1).2
      exact (within_of_mem_allPositions hmem).length_eq
    · rw [exists_mem_zip_allPositions hgrid hunwrapped]
      have hi' : i < axes.length := hlength ▸ hi
      simp only [List.getElem?_eq_getElem hi', Option.some.injEq, exists_eq_left']
      cases axes[i].nonEmpty <;> simp

theorem keeps_keptOf (hgrid : ctx.grid plan = .ok grid) (hunwrapped : Unwrapped plan.sizes)
    (hlength : axes.length = plan.sizes.length) :
    ctx.Keeps axes plan (keptOf axes plan.sizes grid) := by
  have hmarks := marks_masksOf hgrid hunwrapped hlength
  have hmem : ∀ {i mask}, (masksOf axes plan.sizes grid)[i]? = some mask → ∀ p,
      p ∈ mask.kept ↔ p < mask.size ∧ ∃ clause, axes[i]? = some clause ∧
        (clause.nonEmpty = true → ctx.Filled plan i p) :=
    fun hmask p => mem_kept.trans (hmarks.marked hmask p)
  constructor
  · have hpicks : Picks ((masksOf axes plan.sizes grid).map Array.size)
        (keptOf axes plan.sizes grid) := by
      rw [Picks, keptOf, List.forall₂_map_left_iff, List.forall₂_map_right_iff,
        List.forall₂_same]
      intro mask hmask
      obtain ⟨i, hi⟩ := List.mem_iff_getElem?.1 hmask
      exact ⟨pairwise_kept mask, fun p hp => ((hmem hi p).1 hp).1⟩
    rwa [hmarks.sizes] at hpicks
  · intro i clause set ps hclause hset hps p
    rw [keptOf, List.getElem?_map, Option.map_eq_some_iff] at hps
    obtain ⟨mask, hmask, rfl⟩ := hps
    have hsize : mask.size = set.length := by
      have hsizes : ((masksOf axes plan.sizes grid).map Array.size)[i]? = plan.sizes[i]? := by
        rw [hmarks.sizes]
      rw [List.getElem?_map, hmask, Plan.sizes, List.getElem?_map, hset] at hsizes
      exact Option.some.inj hsizes
    rw [hmem hmask, hsize, hclause]
    simp

theorem kept_replicate (size : Nat) (b : Bool) :
    Mask.kept (Array.replicate size b) = if b then List.range size else [] := by
  cases b with
  | true =>
    rw [Mask.kept, Array.size_replicate, if_pos rfl, List.filter_eq_self]
    intro p hp
    simp [Array.getD, List.mem_range.1 hp]
  | false => simp [Mask.kept, Array.getD]

/-- Without cells an axis that leaves out empty positions keeps none. -/
theorem keptOf_nil : keptOf axes sizes [] =
    axes.zipWith (fun axis size => if axis.nonEmpty then [] else List.range size) sizes := by
  have hmasks : masksOf axes sizes [] =
      axes.zipWith (fun axis size => Array.replicate size !axis.nonEmpty) sizes := by
    simp [masksOf]
  rw [keptOf, hmasks, List.map_zipWith]
  congr 1
  funext axis size
  cases axis.nonEmpty <;> simp [kept_replicate]

/-- Without flags all positions are kept, whatever the grid. -/
theorem keptOf_unflagged (hflags : ∀ clause ∈ axes, clause.nonEmpty = false)
    (hlength : axes.length = sizes.length) : keptOf axes sizes grid = sizes.map List.range := by
  have hall : (axes.all fun axis => !axis.nonEmpty) = true := by
    simpa [List.all_eq_true] using hflags
  rw [keptOf, masksOf, if_pos hall]
  refine List.ext_getElem (by simp [hlength]) fun i hi hi' => ?_
  rw [List.length_map] at hi'
  have haxis : i < axes.length := hlength ▸ hi'
  simp [kept_replicate, hflags _ (List.getElem_mem haxis)]

namespace Keeps

theorem length_eq (h : ctx.Keeps axes plan kept) : kept.length = plan.sets.length := by
  simpa [Plan.sizes] using h.picks.length_eq

theorem eq_range (h : ctx.Keeps axes plan kept) {i : Nat} {clause : AxisClause} {set : TupleSet}
    {ps : List Nat} (hclause : axes[i]? = some clause) (hset : plan.sets[i]? = some set)
    (hps : kept[i]? = some ps)
    (hall : clause.nonEmpty = true → ∀ p < set.length, ctx.Filled plan i p) :
    ps = List.range set.length := by
  refine (h.picks.pairwise hps).eq_of_mem_iff List.pairwise_lt_range fun p => ?_
  rw [h.mem hclause hset hps, List.mem_range]
  exact and_iff_left_of_imp fun hp hflag => hall hflag p hp

/-- Nothing is left out of axes that have a cell which is not empty wherever they need one. -/
theorem eq_ranges (h : ctx.Keeps axes plan kept) (haxes : axes.length = plan.sets.length)
    (hall : ∀ i clause set, axes[i]? = some clause → plan.sets[i]? = some set →
      clause.nonEmpty = true → ∀ p < set.length, ctx.Filled plan i p) :
    kept = plan.sizes.map List.range := by
  refine List.ext_getElem (by simp [h.length_eq, Plan.sizes]) fun i hi _ => ?_
  have hset : i < plan.sets.length := h.length_eq ▸ hi
  have hclause := List.getElem?_eq_getElem (haxes ▸ hset : i < axes.length)
  rw [h.eq_range hclause (List.getElem?_eq_getElem hset) (List.getElem?_eq_getElem hi)
    (hall i _ _ hclause (List.getElem?_eq_getElem hset))]
  simp [Plan.sizes]

/-- What an axis keeps is determined. -/
theorem unique {kept' : List (List Nat)} (h : ctx.Keeps axes plan kept)
    (h' : ctx.Keeps axes plan kept') (hlength : axes.length = plan.sets.length) : kept = kept' := by
  refine List.ext_getElem (h.length_eq.trans h'.length_eq.symm) fun i hi hi' => ?_
  have hset : i < plan.sets.length := h.length_eq ▸ hi
  have hat := List.getElem?_eq_getElem hi
  have hat' := List.getElem?_eq_getElem hi'
  refine (h.picks.pairwise hat).eq_of_mem_iff (h'.picks.pairwise hat') fun p => ?_
  have hclause := List.getElem?_eq_getElem (hlength ▸ hset)
  have hset := List.getElem?_eq_getElem hset
  rw [h.mem hclause hset hat, h'.mem hclause hset hat']

end Keeps

end Context

end CubeQuery
