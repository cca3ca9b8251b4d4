import CubeQuery.Proofs.Query.Independence
import CubeQuery.Proofs.Query.Products

/-!
Other layouts of the same query. Axes may be put in another order, which moves the cells along, and
two axes may be joined to one that has all pairs of their tuples.
-/

namespace CubeQuery

open CubeQuery.Language

/-! ### Lists in another order -/

/-- The items of a list at some indices. -/
def rearrange {α : Type} (order : List Nat) (xs : List α) : List α :=
  order.filterMap (xs[·]?)

section Rearranging

variable {α β γ : Type} {order : List Nat} {xs : List α} {ys : List β}

theorem map_rearrange (f : α → β) : (rearrange order xs).map f = rearrange order (xs.map f) := by
  simp [rearrange, List.map_filterMap]

theorem forall₂_rearrange {R : α → β → Prop} (h : List.Forall₂ R xs ys) :
    List.Forall₂ R (rearrange order xs) (rearrange order ys) := by
  induction order with
  | nil => exact .nil
  | cons i order ih =>
    rw [rearrange, rearrange, List.filterMap_cons, List.filterMap_cons]
    by_cases hi : i < xs.length
    · have hi' := h.length_eq ▸ hi
      rw [List.getElem?_eq_getElem hi, List.getElem?_eq_getElem hi']
      exact .cons ((List.forall₂_iff_get.1 h).2 i hi hi') ih
    · rw [List.getElem?_eq_none (by omega), List.getElem?_eq_none (by have := h.length_eq; omega)]
      exact ih

theorem rearrange_zipWith (f : α → β → γ) (h : xs.length = ys.length) :
    rearrange order (xs.zipWith f ys) = (rearrange order xs).zipWith f (rearrange order ys) := by
  induction order with
  | nil => rfl
  | cons i order ih =>
    simp only [rearrange, List.filterMap_cons, List.getElem?_zipWith] at ih ⊢
    by_cases hi : i < xs.length
    · have hi' := h ▸ hi
      simp [List.getElem?_eq_getElem hi, List.getElem?_eq_getElem hi', ih]
    · have hi' : ¬ i < ys.length := h ▸ hi
      simp [List.getElem?_eq_none (Nat.le_of_not_lt hi),
        List.getElem?_eq_none (Nat.le_of_not_lt hi'), ih]

theorem filterMap_range_getElem? (xs : List α) :
    (List.range xs.length).filterMap (xs[·]?) = xs := by
  induction xs with
  | nil => rfl
  | cons x xs ih => simpa [List.range_succ_eq_map, List.filterMap_map, Function.comp_def] using ih

theorem perm_rearrange (h : order.Perm (List.range xs.length)) : (rearrange order xs).Perm xs := by
  exact (h.filterMap _).trans (.of_eq (filterMap_range_getElem? xs))

theorem getElem?_rearrange (h : ∀ i ∈ order, i < xs.length) (j : Nat) :
    (rearrange order xs)[j]? = order[j]?.bind (xs[·]?) := by
  induction order generalizing j with
  | nil => rfl
  | cons i order ih =>
    rw [List.forall_mem_cons] at h
    rw [rearrange, List.filterMap_cons, List.getElem?_eq_getElem h.1]
    cases j with
    | zero => simp [List.getElem?_eq_getElem h.1]
    | succ j => exact ih h.2 j

theorem length_rearrange (h : ∀ i ∈ order, i < xs.length) :
    (rearrange order xs).length = order.length := by
  refine Nat.le_antisymm (List.length_filterMap_le ..) (Nat.le_of_not_lt fun hlt => ?_)
  have hnone := getElem?_rearrange h (rearrange order xs).length
  rw [List.getElem?_eq_none (Nat.le_refl _), List.getElem?_eq_getElem hlt, Option.bind_some,
    List.getElem?_eq_getElem (h _ (List.getElem_mem hlt))] at hnone
  cases hnone

/-- What has been rearranged can be put back, so that every list is the rearrangement of one. -/
theorem exists_rearrange (h : order.Perm (List.range xs.length)) :
    ∃ zs : List α, zs.length = xs.length ∧ rearrange order zs = xs := by
  have hlength : order.length = xs.length := by simpa using h.length_eq
  have hmem {i : Nat} : i ∈ order ↔ i < xs.length := h.mem_iff.trans List.mem_range
  have hnodup : order.Nodup := h.nodup_iff.2 List.nodup_range
  -- Every element goes back to where the order names it.
  let inverse := (List.range xs.length).map order.idxOf
  have hinverse : ∀ i ∈ inverse, i < xs.length := by
    intro i hi
    obtain ⟨k, hk, rfl⟩ := List.mem_map.1 hi
    rw [← hlength]
    exact List.idxOf_lt_length_of_mem (hmem.2 (List.mem_range.1 hk))
  have hsize : (rearrange inverse xs).length = xs.length := by
    rw [length_rearrange hinverse, List.length_map, List.length_range]
  refine ⟨rearrange inverse xs, hsize, List.ext_getElem? fun j => ?_⟩
  rw [getElem?_rearrange fun i hi => hsize ▸ hmem.1 hi]
  by_cases hj : j < order.length
  · have hi : order[j] < xs.length := hmem.1 (List.getElem_mem hj)
    rw [List.getElem?_eq_getElem hj, Option.bind_some, getElem?_rearrange hinverse]
    simp [inverse, hi, hnodup.idxOf_getElem j hj]
  · rw [List.getElem?_eq_none (Nat.le_of_not_lt hj), List.getElem?_eq_none (by omega)]
    rfl

/-- Positions on rearranged axes are rearranged positions. -/
theorem exists_rearrange_within {sizes positions : List Nat}
    (h : order.Perm (List.range sizes.length))
    (hwithin : Within (rearrange order sizes) positions) :
    ∃ others, Within sizes others ∧ rearrange order others = positions := by
  have hmem {i : Nat} : i ∈ order ↔ i < sizes.length := h.mem_iff.trans List.mem_range
  have hlength : positions.length = sizes.length := by
    rw [hwithin.length_eq, length_rearrange fun i => hmem.1, h.length_eq, List.length_range]
  obtain ⟨others, hothers, rfl⟩ := exists_rearrange (hlength.symm ▸ h)
  rw [hlength] at hothers
  refine ⟨others, List.forall₂_iff_get.2 ⟨hothers, fun i hi hi' => ?_⟩, rfl⟩
  -- What the order takes to one place is within at that place.
  obtain ⟨j, hj, rfl⟩ := List.getElem_of_mem (hmem.2 hi')
  have hat := getElem?_rearrange (fun i hi => hothers.symm ▸ hmem.1 hi) j
  have hat' := getElem?_rearrange (fun i => hmem.1) j
  rw [List.getElem?_eq_getElem hj, Option.bind_some] at hat hat'
  rw [List.getElem?_eq_getElem hi, List.getElem?_eq_some_iff] at hat
  rw [List.getElem?_eq_getElem hi', List.getElem?_eq_some_iff] at hat'
  obtain ⟨hk, hk'⟩ := hat
  obtain ⟨hl, hl'⟩ := hat'
  have hlt := (List.forall₂_iff_get.1 hwithin).2 j hk hl
  simpa [hk', hl'] using hlt

end Rearranging

/-! ### Axes in another order -/

/-- The plan with its axes in another order. -/
def Plan.rearranged (plan : Plan) (order : List Nat) : Plan :=
  { plan with sets := rearrange order plan.sets }

variable {order : List Nat} {plan : Plan} {kept : List (List Nat)} {positions : List Nat}

theorem sizes_rearranged : (plan.rearranged order).sizes = rearrange order plan.sizes :=
  map_rearrange _

/-- The number of cells stays the same. -/
theorem unwrapped_rearranged (horder : order.Perm (List.range plan.sets.length))
    (h : Unwrapped plan.sizes) : Unwrapped (plan.rearranged order).sizes := by
  have hperm : (rearrange order plan.sizes).Perm plan.sizes :=
    perm_rearrange (by rwa [Plan.sizes, List.length_map])
  rwa [sizes_rearranged, Unwrapped, hperm.prod_eq]

theorem keeping_rearranged (h : kept.length = plan.sets.length) :
    (plan.rearranged order).keeping (rearrange order kept) =
      (plan.keeping kept).rearranged order := by
  unfold Plan.keeping Plan.rearranged
  rw [rearrange_zipWith tuplesAt h.symm]

theorem mem_membersAt_rearranged (horder : order.Perm (List.range plan.sets.length))
    (h : Within plan.sizes positions) (e : Element) :
    e ∈ plan.membersAt positions ↔
      e ∈ (plan.rearranged order).membersAt (rearrange order positions) := by
  have hlength : plan.sets.length = positions.length := by simpa [Plan.sizes] using h.length_eq.symm
  unfold Plan.membersAt Plan.rearranged
  dsimp only
  rw [← rearrange_zipWith _ hlength]
  refine ((perm_rearrange ?_).flatten.mem_iff).symm
  rwa [List.length_zipWith, ← hlength, Nat.min_self]

namespace Context

variable {layout : CubeLayout} {catalog : Catalog} {c : Cube} {s : Scope} {ctx : Context}
  {options : QueryOptions} {statement other : Statement} {cellset : Cellset}

theorem Plans.rearranged (h : ctx.Plans statement plan)
    (horder : order.Perm (List.range plan.sets.length))
    (haxes : other.axes.map (·.set) = rearrange order (statement.axes.map (·.set)))
    (hslicer : other.slicer? = statement.slicer?) :
    ctx.Plans other (plan.rearranged order) := by
  refine ⟨?_, hslicer ▸ h.slicer, h.base, ?_⟩
  · have hsets : List.Forall₂ (fun e set => (ctx.evalSet e).result = .ok set)
        (statement.axes.map (·.set)) plan.sets := List.forall₂_map_left_iff.2 h.sets
    have hothers : List.Forall₂ _ (rearrange order _) (rearrange order _) :=
      forall₂_rearrange hsets
    rw [← haxes] at hothers
    exact List.forall₂_map_left_iff.1 hothers
  · exact ((perm_rearrange horder).flatMap_right _).nodup_iff.2 h.apart

/-- The cells move along with the axes. -/
theorem Plans.contentAt_rearranged (h : ctx.Plans statement plan)
    (h' : ctx.Plans other (plan.rearranged order)) (hslicer : other.slicer? = statement.slicer?)
    (hsets : ∀ set ∈ plan.sets, ctx.Uniform set)
    (horder : order.Perm (List.range plan.sets.length)) (hwithin : Within plan.sizes positions) :
    ctx.contentAt (plan.rearranged order) (rearrange order positions) =
      ctx.contentAt plan positions := by
  refine h.contentAt_congr h' hslicer hsets (fun set hset => ?_) hwithin ?_
    (mem_membersAt_rearranged horder hwithin)
  · exact hsets set ((perm_rearrange horder).mem_iff.1 hset)
  · rw [sizes_rearranged]
    exact forall₂_rearrange hwithin

theorem Plans.filled_rearranged (h : ctx.Plans statement plan)
    (h' : ctx.Plans other (plan.rearranged order)) (hslicer : other.slicer? = statement.slicer?)
    (hsets : ∀ set ∈ plan.sets, ctx.Uniform set)
    (horder : order.Perm (List.range plan.sets.length)) {i j p : Nat} (hj : order[j]? = some i) :
    ctx.Filled (plan.rearranged order) j p ↔ ctx.Filled plan i p := by
  have hsizes : plan.sizes.length = plan.sets.length := List.length_map ..
  have hat {positions : List Nat} (hwithin : Within plan.sizes positions) :
      (rearrange order positions)[j]? = positions[i]? := by
    rw [getElem?_rearrange, hj, Option.bind_some]
    intro k hk
    rw [hwithin.length_eq, hsizes]
    exact List.mem_range.1 (horder.mem_iff.1 hk)
  constructor
  · rintro ⟨positions, content, hwithin, hposition, hcontent, hempty⟩
    rw [sizes_rearranged] at hwithin
    obtain ⟨others, hothers, rfl⟩ := exists_rearrange_within (hsizes.symm ▸ horder) hwithin
    rw [h.contentAt_rearranged h' hslicer hsets horder hothers] at hcontent
    exact ⟨others, content, hothers, hat hothers ▸ hposition, hcontent, hempty⟩
  · rintro ⟨positions, content, hwithin, hposition, hcontent, hempty⟩
    rw [← h.contentAt_rearranged h' hslicer hsets horder hwithin] at hcontent
    refine ⟨_, content, ?_, (hat hwithin).trans hposition, hcontent, hempty⟩
    rw [sizes_rearranged]
    exact forall₂_rearrange hwithin

theorem Keeps.rearranged (hkeeps : ctx.Keeps statement.axes plan kept)
    (h : ctx.Plans statement plan) (h' : ctx.Plans other (plan.rearranged order))
    (hslicer : other.slicer? = statement.slicer?) (hsets : ∀ set ∈ plan.sets, ctx.Uniform set)
    (horder : order.Perm (List.range plan.sets.length))
    (hflags : other.axes.map (·.nonEmpty) = rearrange order (statement.axes.map (·.nonEmpty))) :
    ctx.Keeps other.axes (plan.rearranged order) (rearrange order kept) := by
  have hlength := hkeeps.length_eq
  have hmem {i : Nat} (hi : i ∈ order) : i < plan.sets.length :=
    List.mem_range.1 (horder.mem_iff.1 hi)
  refine ⟨?_, fun {j clause set ps} hclause hset hps p => ?_⟩
  · rw [sizes_rearranged]
    exact forall₂_rearrange hkeeps.picks
  · have hset' : (rearrange order plan.sets)[j]? = some set := hset
    rw [getElem?_rearrange fun _ => hmem, Option.bind_eq_some_iff] at hset'
    obtain ⟨i, hi, hset'⟩ := hset'
    rw [getElem?_rearrange fun _ hi => hlength ▸ hmem hi, hi, Option.bind_some] at hps
    have hflag : (other.axes.map (·.nonEmpty))[j]? = some clause.nonEmpty := by
      rw [List.getElem?_map, hclause, Option.map_some]
    have haxes : (statement.axes.map (·.nonEmpty)).length = plan.sets.length := by
      rw [List.length_map, h.sets.length_eq]
    rw [hflags, getElem?_rearrange fun _ hi => haxes.symm ▸ hmem hi, hi, Option.bind_some,
      List.getElem?_map, Option.map_eq_some_iff] at hflag
    obtain ⟨original, horiginal, hflag⟩ := hflag
    rw [hkeeps.mem horiginal hset' hps, hflag, h.filled_rearranged h' hslicer hsets horder hi]

theorem Plans.exists_grid_rearranged (h : ctx.Plans statement plan)
    (h' : ctx.Plans other (plan.rearranged order)) (hslicer : other.slicer? = statement.slicer?)
    (hsets : ∀ set ∈ plan.sets, ctx.Uniform set)
    (horder : order.Perm (List.range plan.sets.length)) (hunwrapped : Unwrapped plan.sizes)
    {grid : List GridCell} (hgrid : ctx.grid plan = .ok grid) :
    ∃ grid', ctx.grid (plan.rearranged order) = .ok grid' := by
  refine exists_grid fun positions hwithin => ?_
  rw [sizes_rearranged] at hwithin
  obtain ⟨others, hothers, rfl⟩ :=
    exists_rearrange_within (by simpa [Plan.sizes] using horder) hwithin
  rw [h.contentAt_rearranged h' hslicer hsets horder hothers]
  exact exists_contentAt hgrid hunwrapped hothers

/-- Headers and cells move along with the axes. -/
theorem Answers.rearranged {cellset' : Cellset} (hb : Cube.Built layout catalog c)
    (hs : (Scope.ofDefinitions c statement.definitions).result = .ok s)
    (h : Answers ⟨c, s⟩ options statement plan kept cellset)
    (h' : Answers ⟨c, s⟩ options other (plan.rearranged order) (rearrange order kept) cellset')
    (hdefinitions : other.definitions = statement.definitions)
    (hslicer : other.slicer? = statement.slicer?)
    (horder : order.Perm (List.range plan.sets.length)) :
    cellset'.axes.map (·.tuples) = rearrange order (cellset.axes.map (·.tuples)) ∧
      ∀ positions cell, cellset.cellAt? positions = some cell →
        ∃ cell', cellset'.cellAt? (rearrange order positions) = some cell' ∧ cell.Agrees cell' := by
  have hlength := h.length_axes.2
  have hkeeping := @keeping_rearranged order plan kept hlength
  refine ⟨?_, fun positions cell hcell => ?_⟩
  · rw [h'.tuples, h.tuples, hkeeping]
    exact map_rearrange _
  · have hwithin := (h.cellAt?_eq_some.1 hcell).1
    have hwithin' : Within cellset'.sizes (rearrange order positions) := by
      rw [h'.sizes, hkeeping, sizes_rearranged, ← h.sizes]
      exact forall₂_rearrange hwithin
    obtain ⟨cell', hcell'⟩ := Option.isSome_iff_exists.1 ((h'.addressed.found _).2 hwithin')
    have horder' : order.Perm (List.range (plan.keeping kept).sets.length) := by
      simpa [Plan.keeping, hlength] using horder
    refine ⟨cell', hcell', h.agrees hb hs h' hdefinitions hslicer hcell hcell' fun name => ?_⟩
    have hmembers := mem_membersAt_rearranged horder' (h.sizes ▸ hwithin)
    rw [h.membersAt, h'.membersAt, hkeeping]
    simp only [List.mem_map, hmembers]

/-- The axes of a statement are those of another one in another order. -/
structure Reorders (order : List Nat) (statement other : Statement) : Prop where
  perm : order.Perm (List.range statement.axes.length)
  sets : other.axes.map (·.set) = rearrange order (statement.axes.map (·.set))
  flags : other.axes.map (·.nonEmpty) = rearrange order (statement.axes.map (·.nonEmpty))
  cube : other.cube = statement.cube

/-- Putting the axes of a query in another order transposes its cells. -/
theorem execute_rearranged (hb : Cube.Built layout catalog c)
    (h : (c.execute statement options).result = .ok cellset) (hcounts : c.CountsCells statement)
    (hdefinitions : other.definitions = statement.definitions)
    (hslicer : other.slicer? = statement.slicer?) (hreorders : Reorders order statement other) :
    ∃ cellset', (c.execute other options).result = .ok cellset' ∧
      cellset'.axes.map (·.tuples) = rearrange order (cellset.axes.map (·.tuples)) ∧
      ∀ positions cell, cellset.cellAt? positions = some cell →
        ∃ cell', cellset'.cellAt? (rearrange order positions) = some cell' ∧ cell.Agrees cell' := by
  obtain ⟨hname, s, plan, grid, hs, hgrid, hanswers⟩ := exists_answers h hcounts
  obtain ⟨horder, haxes, hflags, hcube⟩ := hreorders
  have hplans := hanswers.plans
  rw [hplans.sets.length_eq] at horder
  have hplans' := hplans.rearranged horder haxes hslicer
  have hsets := hplans.uniform hb hs
  obtain ⟨grid', hgrid'⟩ :=
    hplans.exists_grid_rearranged hplans' hslicer hsets horder hanswers.unwrapped hgrid
  obtain ⟨cellset', h', hanswers'⟩ := exists_answer (hcube ▸ hname) (hdefinitions ▸ hs)
    (plan_eq_ok_iff.2 hplans') (unwrapped_rearranged horder hanswers.unwrapped) hgrid'
  rw [hanswers'.keeps.unique (hanswers.keeps.rearranged hplans hplans' hslicer hsets horder hflags)
    hplans'.sets.length_eq] at hanswers'
  exact ⟨cellset', h', hanswers.rearranged hb hs hanswers' hdefinitions hslicer horder⟩

/-! ### Two axes joined to one -/

theorem crossjoin_of_apart {a b : TupleSet} (h : (ctx.signature a ++ ctx.signature b).Nodup) :
    ctx.crossjoin a b = .ok (product a b) := by
  cases a with
  | nil => rfl
  | cons l a =>
    cases b with
    | nil =>
      rw [product_nil]
      rfl
    | cons r b =>
      have hcheck : ctx.checkTuple (l ++ r) = .ok () := by
        rw [checkTuple_eq_ok_iff, facets_append]
        exact h
      rw [crossjoin, hcheck]
      rfl

theorem signature_product (a b : TupleSet) :
    (ctx.signature (product a b)).Sublist (ctx.signature a ++ ctx.signature b) := by
  cases a with
  | nil => exact List.nil_sublist _
  | cons l a =>
    cases b with
    | nil =>
      rw [product_nil]
      exact List.nil_sublist _
    | cons r b =>
      simp [product, signature, facets]

variable {left right : TupleSet} {rest : List TupleSet} {first second : Expr}
  {expressions : List Expr} {slicer? : Option TupleSet} {base : Coordinate}

theorem membersAt_product {p q : Nat} (hp : p < left.length) (hq : q < right.length) :
    Plan.membersAt ⟨product left right :: rest, slicer?, base⟩
        ((p * right.length + q) :: positions) =
      Plan.membersAt ⟨left :: right :: rest, slicer?, base⟩ (p :: q :: positions) := by
  simp only [Plan.membersAt, List.zipWith_cons_cons, List.flatten_cons, getD_product hp hq,
    List.append_assoc]

theorem Plans.joined (h : ctx.Plans statement ⟨left :: right :: rest, slicer?, base⟩)
    (haxes : statement.axes.map (·.set) = first :: second :: expressions)
    (hother : other.axes.map (·.set) = .binary .multiply first second :: expressions)
    (hslicer : other.slicer? = statement.slicer?) :
    ctx.Plans other ⟨product left right :: rest, slicer?, base⟩ := by
  obtain ⟨hsets, hslicers, hbase, hapart⟩ := h
  have hsets : List.Forall₂ (fun e set => (ctx.evalSet e).result = .ok set)
      (statement.axes.map (·.set)) (left :: right :: rest) := List.forall₂_map_left_iff.2 hsets
  rw [haxes] at hsets
  obtain ⟨hleft, hsets⟩ := List.forall₂_cons.1 hsets
  obtain ⟨hright, hrest⟩ := List.forall₂_cons.1 hsets
  rw [List.flatMap_cons, List.flatMap_cons, ← List.append_assoc] at hapart
  refine ⟨?_, hslicer ▸ hslicers, hbase, ?_⟩
  · have hproduct : (ctx.evalSet (.binary .multiply first second)).result =
        .ok (product left right) := by
      rw [evalSet]
      exact Noted.result_bind_eq_ok.2 ⟨left, hleft, Noted.result_bind_eq_ok.2 ⟨right, hright,
        crossjoin_of_apart (hapart.sublist (List.sublist_append_left _ _))⟩⟩
    have hothers : List.Forall₂ (fun e set => (ctx.evalSet e).result = .ok set)
        (other.axes.map (·.set)) (product left right :: rest) := hother ▸ .cons hproduct hrest
    exact List.forall₂_map_left_iff.1 hothers
  · exact hapart.sublist ((signature_product left right).append_right _)

/-- Positions on two axes and positions on the axis that they are joined to stand for each other. -/
theorem exists_within_product {sizes : List Nat} {m n : Nat}
    (h : Within (m * n :: sizes) positions) :
    ∃ p q others, Within (m :: n :: sizes) (p :: q :: others) ∧
      positions = (p * n + q) :: others := by
  cases h with
  | @cons r _ others _ hr hothers =>
    have hn : 0 < n := Nat.pos_of_mul_pos_left (Nat.zero_lt_of_lt hr)
    refine ⟨r / n, r % n, others, ?_, by rw [Nat.div_add_mod']⟩
    exact .cons (Nat.div_lt_of_lt_mul (by rwa [Nat.mul_comm])) (.cons (Nat.mod_lt _ hn) hothers)

theorem within_product {sizes others : List Nat} {m n p q : Nat}
    (h : Within (m :: n :: sizes) (p :: q :: others)) :
    p < m ∧ q < n ∧ Within (m * n :: sizes) ((p * n + q) :: others) := by
  cases h with
  | cons hp h =>
    cases h with
    | cons hq hothers =>
      refine ⟨hp, hq, .cons ?_ hothers⟩
      calc p * n + q < (p + 1) * n := by rw [Nat.succ_mul]; omega
        _ ≤ m * n := Nat.mul_le_mul_right n hp

theorem sizes_joined : Plan.sizes ⟨product left right :: rest, slicer?, base⟩ =
    left.length * right.length :: rest.map List.length := by
  rw [Plan.sizes, List.map_cons, length_product]

theorem unwrapped_joined (h : Unwrapped (Plan.sizes ⟨left :: right :: rest, slicer?, base⟩)) :
    Unwrapped (Plan.sizes ⟨product left right :: rest, slicer?, base⟩) := by
  rw [sizes_joined]
  simpa [Unwrapped, Plan.sizes, Nat.mul_assoc] using h

theorem exists_grid_joined {grid : List GridCell}
    (hunwrapped : Unwrapped (Plan.sizes ⟨left :: right :: rest, slicer?, base⟩))
    (hgrid : ctx.grid ⟨left :: right :: rest, slicer?, base⟩ = .ok grid) :
    ∃ grid', ctx.grid ⟨product left right :: rest, slicer?, base⟩ = .ok grid' := by
  refine exists_grid fun positions hwithin => ?_
  rw [sizes_joined] at hwithin
  obtain ⟨p, q, others, hothers, rfl⟩ := exists_within_product hwithin
  obtain ⟨hp, hq, -⟩ := within_product hothers
  obtain ⟨content, hcontent⟩ := exists_contentAt hgrid hunwrapped hothers
  refine ⟨content, hcontent.symm ▸ ?_⟩
  exact contentAt_congr rfl rfl (congrArg (ctx.place base) (membersAt_product hp hq).symm)

/-- Without flags all positions are kept. -/
theorem Answers.keepsAll (h : ctx.Answers options statement plan kept cellset)
    (hflags : ∀ clause ∈ statement.axes, clause.nonEmpty = false) :
    kept = plan.sizes.map List.range := by
  refine h.keeps.eq_ranges h.plans.sets.length_eq fun i clause set hclause _ hflag => ?_
  rw [hflags clause (List.mem_of_getElem? hclause)] at hflag
  cases hflag

theorem Answers.joined {cellset' : Cellset} (hb : Cube.Built layout catalog c)
    (hs : (Scope.ofDefinitions c statement.definitions).result = .ok s)
    (h : Answers ⟨c, s⟩ options statement ⟨left :: right :: rest, slicer?, base⟩ kept cellset)
    {kept' : List (List Nat)}
    (h' : Answers ⟨c, s⟩ options other ⟨product left right :: rest, slicer?, base⟩ kept'
      cellset')
    (hdefinitions : other.definitions = statement.definitions)
    (hslicer : other.slicer? = statement.slicer?)
    (hflags : ∀ clause ∈ statement.axes ++ other.axes, clause.nonEmpty = false) :
    cellset.sizes = left.length :: right.length :: rest.map List.length ∧
      cellset'.sizes = left.length * right.length :: rest.map List.length ∧
      ∀ p q positions cell, cellset.cellAt? (p :: q :: positions) = some cell →
        ∃ cell', cellset'.cellAt? ((p * right.length + q) :: positions) = some cell' ∧
          cell.Agrees cell' := by
  obtain rfl := h.keepsAll fun clause hclause => hflags clause (List.mem_append_left _ hclause)
  obtain rfl := h'.keepsAll fun clause hclause => hflags clause (List.mem_append_right _ hclause)
  have hsizes : cellset.sizes = left.length :: right.length :: rest.map List.length := by
    rw [h.sizes, keeping_range]
    rfl
  have hsizes' : cellset'.sizes = left.length * right.length :: rest.map List.length := by
    rw [h'.sizes, keeping_range, sizes_joined]
  refine ⟨hsizes, hsizes', fun p q positions cell hcell => ?_⟩
  have hwithin := (h.cellAt?_eq_some.1 hcell).1
  rw [hsizes] at hwithin
  obtain ⟨hp, hq, hwithin'⟩ := within_product hwithin
  rw [← hsizes'] at hwithin'
  obtain ⟨cell', hcell'⟩ := Option.isSome_iff_exists.1 ((h'.addressed.found _).2 hwithin')
  refine ⟨cell', hcell', h.agrees hb hs h' hdefinitions hslicer hcell hcell' fun name => ?_⟩
  rw [h.membersAt, h'.membersAt, keeping_range, keeping_range, membersAt_product hp hq]

/-- A statement has the product of the first two axes of another one on its first axis. No axis
leaves out empty positions. -/
structure Joins (statement other : Statement) : Prop where
  sets : ∃ left right rest, statement.axes.map (·.set) = left :: right :: rest ∧
    other.axes.map (·.set) = .binary .multiply left right :: rest
  flags : ∀ clause ∈ statement.axes ++ other.axes, clause.nonEmpty = false
  cube : other.cube = statement.cube

/-- A product on one axis has the numbers that its factors have on two. -/
theorem execute_joined (hb : Cube.Built layout catalog c)
    (h : (c.execute statement options).result = .ok cellset) (hcounts : c.CountsCells statement)
    (hdefinitions : other.definitions = statement.definitions)
    (hslicer : other.slicer? = statement.slicer?) (hjoins : Joins statement other) :
    ∃ cellset' m n sizes, (c.execute other options).result = .ok cellset' ∧
      cellset.sizes = m :: n :: sizes ∧ cellset'.sizes = m * n :: sizes ∧
      ∀ p q positions cell, cellset.cellAt? (p :: q :: positions) = some cell →
        ∃ cell', cellset'.cellAt? ((p * n + q) :: positions) = some cell' ∧ cell.Agrees cell' := by
  obtain ⟨hname, s, ⟨sets, slicer?, base⟩, grid, hs, hgrid, hanswers⟩ := exists_answers h hcounts
  obtain ⟨⟨first, second, expressions, haxes, hother⟩, hflags, hcube⟩ := hjoins
  have hplans := hanswers.plans
  obtain ⟨left, right, rest, rfl⟩ : ∃ left right rest, sets = left :: right :: rest := by
    have hlength : (statement.axes.map (·.set)).length = sets.length := by
      rw [List.length_map, hplans.sets.length_eq]
    rw [haxes] at hlength
    match sets, hlength with
    | left :: right :: rest, _ => exact ⟨left, right, rest, rfl⟩
  have hplans' := hplans.joined haxes hother hslicer
  obtain ⟨grid', hgrid'⟩ := exists_grid_joined hanswers.unwrapped hgrid
  obtain ⟨cellset', h', hanswers'⟩ := exists_answer (hcube ▸ hname) (hdefinitions ▸ hs)
    (plan_eq_ok_iff.2 hplans') (unwrapped_joined hanswers.unwrapped) hgrid'
  exact ⟨cellset', _, _, _, h', hanswers.joined hb hs hanswers' hdefinitions hslicer hflags⟩

end Context

/-! ### A report with more cells than numbers -/

namespace Games

open Context

section Unflagged

variable {measures homes aways : List Element} {grid : List GridCell} {positions : List Nat}

theorem getElem?_grid_zero (h : Lists measures homes aways)
    (hgrid : context.grid (reportPlan measures homes aways) = .ok grid)
    (hp : 0 < measures.length) (hq : 0 < homes.length) (hr : 0 < aways.length)
    (hcount : 0 < cellCount [measures.length, homes.length, aways.length]) :
    grid[0]? = some (gridCell measures[0] homes[0] aways[0]) := by
  have hcells := grid_eq_ok_iff.1 hgrid
  have hlength := hcells.length_eq
  rw [length_allPositions, sizes_reportPlan] at hlength
  have hfirst : (allPositions (reportPlan measures homes aways).sizes)[0]? = some [0, 0, 0] := by
    rw [sizes_reportPlan, allPositions_eq, List.getElem?_map, List.getElem?_range hcount]
    simp [positions?, Nat.ne_of_gt hp, Nat.ne_of_gt hq, Nat.ne_of_gt hr]
  obtain ⟨hlt, hpositions⟩ := List.getElem?_eq_some_iff.1 hfirst
  have hcell := (List.forall₂_iff_get.1 hcells).2 0 hlt (hlength ▸ hcount)
  rw [List.get_eq_getElem, hpositions] at hcell
  rw [List.getElem?_eq_getElem (hlength ▸ hcount)]
  exact congrArg some (hcell.unique (isCell_report h hp hq hr))

theorem cellAt?_zero (h : Lists measures homes aways)
    (hgrid : context.grid (reportPlan measures homes aways) = .ok grid)
    (hp : 0 < measures.length) (hq : 0 < homes.length) (hr : 0 < aways.length)
    (hcount : 0 < cellCount [measures.length, homes.length, aways.length])
    (hordinal : ordinal? [measures.length, homes.length, aways.length] positions = some 0) :
    (unflagged measures homes aways grid).cellAt? positions =
      some (context.cell {} 0 (gridCell measures[0] homes[0] aways[0])) := by
  rw [Cellset.cellAt?, sizes_unflagged, hordinal]
  simp [unflagged, cellset, getElem?_grid_zero h hgrid hp hq hr hcount]

theorem membersAt_unflagged {p q r : Nat} (hp : p < measures.length) (hq : q < homes.length)
    (hr : r < aways.length) :
    (unflagged measures homes aways grid).membersAt [p, q, r] =
      [measures[p], homes[q], aways[r]].map (context.axisMember {}) := by
  rw [unflagged, membersAt_of_tuples (tuples_cellset rfl), membersAt_report hp hq hr]

end Unflagged

theorem lists_wrapped (l m n : Nat) : Lists (.calculated 0 :: .replicate l (.calculated 1))
    (.replicate m (.member ⟨0⟩)) (.replicate n (.member ⟨3⟩)) where
  measures := List.forall_mem_cons.2
    ⟨by decide, fun _ => mem_listed_of_mem_replicate (by decide)⟩
  homes := (lists_replicate l m n).homes
  aways := (lists_replicate l m n).aways

/-- Where numbers wrap around, the cell of the first number is shown under headers that name the
second one. -/
theorem exists_foreign {l m n p q r : Nat} (hcount : 0 < cellCount [l + 1, m, n]) (hp : p ≠ 0)
    (hordinal : ordinal? [l + 1, m, n] [p, q, r] = some 0) : ∃ cellset,
      (cube.execute (report false (.calculated 0 :: .replicate l (.calculated 1))
        (.replicate m (.member ⟨0⟩)) (.replicate n (.member ⟨3⟩))) {}).result = .ok cellset ∧
      cellset.cellAt? [p, q, r] =
        some (context.cell {} 0 (gridCell (.calculated 0) (.member ⟨0⟩) (.member ⟨3⟩))) ∧
      cellset.membersAt [p, q, r] =
        [.calculated 1, .member ⟨0⟩, .member ⟨3⟩].map (context.axisMember {}) := by
  have hlists := lists_wrapped l m n
  obtain ⟨grid, hgrid⟩ := exists_grid_report hlists
  obtain _ | ⟨hpl, _ | ⟨hqm, _ | ⟨hrn, -⟩⟩⟩ := (ordinal?_eq_some_iff.1 hordinal).1
  have hlengths : [(Element.calculated 0 :: .replicate l (.calculated 1)).length,
      (List.replicate m (Element.member ⟨0⟩)).length,
      (List.replicate n (Element.member ⟨3⟩)).length] = [l + 1, m, n] := by
    simp
  rw [← hlengths] at hcount hordinal
  have hm : 0 < (List.replicate m (Element.member ⟨0⟩)).length := by
    rw [List.length_replicate]
    exact Nat.zero_lt_of_lt hqm
  have hn : 0 < (List.replicate n (Element.member ⟨3⟩)).length := by
    rw [List.length_replicate]
    exact Nat.zero_lt_of_lt hrn
  refine ⟨_, execute_unflagged hlists hgrid, ?_, ?_⟩
  · rw [cellAt?_zero hlists hgrid (Nat.zero_lt_succ _) hm hn hcount hordinal]
    simp
  · rw [membersAt_unflagged (by simpa using hpl) (by simpa using hqm) (by simpa using hrn)]
    simp [List.getElem_cons, hp]

end Games

namespace Context

/-! ### Any layout -/

variable {layout : CubeLayout} {catalog : Catalog} {c : Cube} {options : QueryOptions}
  {statement other : Statement} {cellset : Cellset}

/-- What a cell shows depends on the members that its headers name, and not on the layout of the
query, as long as the cells have numbers of their own. In particular the cells follow the axes when
these are put in another order, and a product on one axis has the numbers that its factors have on
two. -/
theorem cell_independent_of_layout (hbuild : Cube.build layout catalog = .ok c)
    (h : (c.execute statement options).result = .ok cellset) (hcounts : c.CountsCells statement)
    (hdefinitions : other.definitions = statement.definitions)
    (hslicer : other.slicer? = statement.slicer?) :
    (∀ cellset', (c.execute other options).result = .ok cellset' → c.CountsCells other →
      ∀ positions positions' cell cell', cellset.cellAt? positions = some cell →
        cellset'.cellAt? positions' = some cell' →
        (∀ name, name ∈ (cellset.membersAt positions).map (·.uniqueName) ↔
          name ∈ (cellset'.membersAt positions').map (·.uniqueName)) →
        cell.Agrees cell') ∧
    (∀ order, Reorders order statement other →
      ∃ cellset', (c.execute other options).result = .ok cellset' ∧
        cellset'.axes.map (·.tuples) = rearrange order (cellset.axes.map (·.tuples)) ∧
        ∀ positions cell, cellset.cellAt? positions = some cell →
          ∃ cell', cellset'.cellAt? (rearrange order positions) = some cell' ∧ cell.Agrees cell') ∧
    (Joins statement other →
      ∃ cellset' m n sizes, (c.execute other options).result = .ok cellset' ∧
        cellset.sizes = m :: n :: sizes ∧ cellset'.sizes = m * n :: sizes ∧
        ∀ p q positions cell, cellset.cellAt? (p :: q :: positions) = some cell →
          ∃ cell', cellset'.cellAt? ((p * n + q) :: positions) = some cell' ∧
            cell.Agrees cell') := by
  have hb := Cube.built_of_build hbuild
  refine ⟨fun cellset' h' hcounts' positions positions' cell cell' hcell hcell' hsame => ?_,
    fun order => execute_rearranged hb h hcounts hdefinitions hslicer,
    execute_joined hb h hcounts hdefinitions hslicer⟩
  obtain ⟨-, s, plan, grid, hs, -, hanswers⟩ := exists_answers h hcounts
  obtain ⟨-, s', plan', grid', hs', -, hanswers'⟩ := exists_answers h' hcounts'
  obtain rfl : s = s' := Except.ok.inj (hs.symm.trans (hdefinitions ▸ hs'))
  exact hanswers.agrees hb hs hanswers' hdefinitions hslicer hcell hcell' hsame

theorem cell_independent_of_layout_summary :
    let order := [2, 0, 1]
    let other : Statement :=
      { Games.summary true with axes := rearrange order (Games.summary true).axes }
    Games.cube.CountsCells (Games.summary true) ∧ Reorders order (Games.summary true) other ∧
      ∃ cellset cellset', (Games.cube.execute (Games.summary true) {}).result = .ok cellset ∧
        (Games.cube.execute other {}).result = .ok cellset' ∧ cellset.sizes = [2, 2, 1] ∧
        cellset'.axes.map (·.tuples) = rearrange order (cellset.axes.map (·.tuples)) ∧
        ∀ positions cell, cellset.cellAt? positions = some cell →
          ∃ cell', cellset'.cellAt? (rearrange order positions) = some cell' ∧
            cell.Agrees cell' := by
  intro order other
  have hreorders : Reorders order (Games.summary true) other :=
    ⟨by decide, map_rearrange _, map_rearrange _, rfl⟩
  have hdefinitions : other.definitions = (Games.summary true).definitions := rfl
  have hcounts := Games.countsCells_summary true
  have hexecute := Games.execute_summary true
  obtain ⟨cellset', hexecute', htuples, hcells⟩ :=
    (cell_independent_of_layout Games.build_eq_cube hexecute hcounts hdefinitions rfl).2.1 order
      hreorders
  exact ⟨hcounts, hreorders, _, cellset', hexecute, hexecute', by decide, htuples, hcells⟩

/-- The first number that wraps around is that of a cell on whose headers the second measure stands.
It shows what the first measure has, and not what the second one has where it stands alone. -/
theorem foreign_cell_shown :
    let statement := Games.report false (.calculated 0 :: .replicate 2392411 (.calculated 1))
      (.replicate 2438809 (.member ⟨0⟩)) (.replicate 3161593 (.member ⟨3⟩))
    let other := Games.report false [.calculated 1] [.member ⟨0⟩] [.member ⟨3⟩]
    let positions := [2392384, 2438808, 3161592]
    ∃ cellset cellset' cell cell', Cube.build Games.layout Games.catalog = .ok Games.cube ∧
      other.definitions = statement.definitions ∧ other.slicer? = statement.slicer? ∧
      (Games.cube.execute statement {}).result = .ok cellset ∧
      (Games.cube.execute other {}).result = .ok cellset' ∧
      cellset.cellAt? positions = some cell ∧ cellset'.cellAt? [0, 0, 0] = some cell' ∧
      cellset.membersAt positions = cellset'.membersAt [0, 0, 0] ∧
      cell.value? = some 1.0 ∧ cell'.value? = some 2.0 ∧ ¬ cell.Agrees cell' := by
  have hcount : 0 < cellCount [2392412, 2438809, 3161593] := by decide
  have hordinal : ordinal? [2392412, 2438809, 3161593] [2392384, 2438808, 3161592] = some 0 := by
    decide
  have hlists : Games.Lists [.calculated 1] [.member ⟨0⟩] [.member ⟨3⟩] :=
    ⟨by decide, by decide, by decide⟩
  obtain ⟨cellset, hexecute, hcell, hmembers⟩ := Games.exists_foreign hcount (by decide) hordinal
  obtain ⟨grid, hgrid⟩ := Games.exists_grid_report hlists
  have hzero : ordinal? [1, 1, 1] [0, 0, 0] = some 0 := by decide
  have hcell' := Games.cellAt?_zero hlists hgrid Nat.zero_lt_one Nat.zero_lt_one Nat.zero_lt_one
    (by decide) hzero
  refine ⟨cellset, _, _, _, Games.build_eq_cube, rfl, rfl, hexecute,
    Games.execute_unflagged hlists hgrid, hcell, hcell', ?_, rfl, rfl, fun hagrees => ?_⟩
  · rw [hmembers, Games.membersAt_unflagged Nat.zero_lt_one Nat.zero_lt_one Nat.zero_lt_one]
    rfl
  · have hvalues : some (1.0 : Float) = some 2.0 := hagrees.value?
    revert hvalues
    decide

end Context

end CubeQuery
