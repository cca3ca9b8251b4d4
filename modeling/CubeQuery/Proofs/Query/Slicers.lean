import CubeQuery.Proofs.Query.Alike
import CubeQuery.Proofs.Query.Precedence

/-!
What a slicer asks for. It is read facet by facet, so that neither the order of its tuples nor their
grouping nor repetitions have a say in the answer; and since the rows below a member contain those
below its descendants, naming these as well asks for nothing new.
-/

namespace CubeQuery

open CubeQuery.Language

/-- The statement with another slicer. -/
def Language.Statement.sliced (statement : Statement) (e : Expr) : Statement :=
  { statement with slicer? := some e }

/-- The plan with another slicer, which comes to a coordinate. -/
def Plan.sliced (plan : Plan) (set : TupleSet) (base : Coordinate) : Plan :=
  { plan with slicer? := some set, base }

/-! ### Rows below a descendant -/

namespace Cube

theorem ancestor?_add {c : Cube} {m : MemberId} (n k : Nat) :
    c.ancestor? (n + k) m = (c.ancestor? n m).bind (c.ancestor? k) := by
  induction n generalizing m with
  | zero => rw [Nat.zero_add, ancestor?, Option.bind_some]
  | succ n ih =>
    rw [Nat.succ_add, ancestor?, ancestor?]
    cases (c.member m).parent? with
    | none => rfl
    | some p => exact ih

theorem Graph.liesBelow_of_descendant {c : Cube} (hg : Graph c) {a m : MemberId} {row : Nat}
    (ha : c.Has (.member a)) (hm : m ∈ c.descendants a) (hrow : c.liesBelow m row = true) :
    c.liesBelow a row = true := by
  obtain ⟨hhas, k, hk⟩ := (hg.mem_descendants ha).1 hm
  obtain ⟨b, n, hb, hn, hr⟩ := (liesBelow_iff hg hhas).1 hrow
  exact (liesBelow_iff hg ha).2 ⟨b, n + k, hb, by rw [ancestor?_add, hn, Option.bind_some, hk], hr⟩

end Cube

namespace Context

/-! ### The members on one facet -/

/-- The members that the tuples of a slicer have on a facet, each once. -/
def mentioned (ctx : Context) (set : TupleSet) (f : Facet) : List Element :=
  set.flatten.eraseDups.filter fun e => ctx.facetOf e = f

/-- Two lists of members on a facet ask for the same: they hold the same members, or else stored
members that let the same rows through. -/
inductive SaysAlike (ctx : Context) (f : Facet) (es es' : List Element) : Prop
  | same (h : es.Perm es')
  | stored (hfacet : f ≠ .measures) (hes : (Choice.any es).OfMembers)
      (hes' : (Choice.any es').OfMembers) (hempty : es = [] ↔ es' = [])
      (hrows : ∀ row, ctx.admits (.any es) row = ctx.admits (.any es') row)

variable {ctx : Context} {f : Facet} {es es' : List Element} {choice : Choice}
  {set set' : TupleSet} {e : Element}

theorem mem_mentioned : e ∈ ctx.mentioned set f ↔ e ∈ set.flatten ∧ ctx.facetOf e = f := by
  rw [mentioned, List.mem_filter, List.mem_eraseDups, decide_eq_true_iff]

theorem nodup_mentioned : (ctx.mentioned set f).Nodup :=
  (nodup_eraseDups _).filter _

theorem admits_iff {row : Nat} : ctx.admits choice row = true ↔
    (∀ id, .member id ∉ choice.elements) ∨
      ∃ id, .member id ∈ choice.elements ∧ ctx.cube.liesBelow id row = true := by
  rw [admits, Bool.or_eq_true, decide_eq_true_iff, List.eq_nil_iff_forall_not_mem, List.any_eq_true]
  simp only [Choice.mem_members]

theorem admits_congr {a b : Choice} (h : ∀ e, e ∈ a.elements ↔ e ∈ b.elements) (row : Nat) :
    ctx.admits a row = ctx.admits b row := by
  rw [Bool.eq_iff_iff, admits_iff, admits_iff]
  simp only [h]

theorem slicerChoice_eq_ok_iff : ctx.slicerChoice f es = .ok choice ↔
    (∃ e, es = [e] ∧ choice = .one e) ∨
      (∀ e, es ≠ [e]) ∧ f ≠ .measures ∧ es.find? Element.isCalculated = none ∧
        choice = .any es := by
  unfold slicerChoice
  split
  · rename_i e
    constructor
    · exact fun h => .inl ⟨e, rfl, (Except.ok.inj h).symm⟩
    · rintro (⟨_, ⟨rfl⟩, rfl⟩ | ⟨hmany, -⟩)
      · rfl
      · exact absurd rfl (hmany e)
  · rename_i hmany
    have hmany : ∀ e, es ≠ [e] := fun e he => hmany e he
    split
    · rename_i hmeasures
      simp [hmany, hmeasures]
    · rename_i hfacet
      split
      · rename_i e hfound
        simp [hmany, hfound]
      · rename_i hnone
        simp [hmany, hfacet, hnone, eq_comm]

theorem elements_slicerChoice (h : ctx.slicerChoice f es = .ok choice) : choice.elements = es := by
  rcases slicerChoice_eq_ok_iff.1 h with ⟨e, rfl, rfl⟩ | ⟨-, -, -, rfl⟩ <;> rfl

theorem exists_slicerChoice (hfacet : f ≠ .measures) (hes : (Choice.any es).OfMembers) :
    ∃ choice, ctx.slicerChoice f es = .ok choice := by
  by_cases hone : ∃ e, es = [e]
  · obtain ⟨e, rfl⟩ := hone
    exact ⟨_, rfl⟩
  · refine ⟨_, slicerChoice_eq_ok_iff.2 (.inr ⟨not_exists.1 hone, hfacet, ?_, rfl⟩)⟩
    rw [List.find?_eq_none]
    intro e he
    obtain ⟨m, rfl⟩ := hes e he
    exact Bool.false_ne_true

/-- Apart from the measures, all that is not calculated is stored. -/
theorem exists_member_of_facet (hfacet : ctx.facetOf e ≠ .measures) (he : e.isCalculated = false) :
    ∃ m, e = .member m := by
  cases e with
  | member m => exact ⟨m, rfl⟩
  | measure m => exact absurd rfl hfacet
  | calculated i => cases he

namespace SaysAlike

theorem symm (h : ctx.SaysAlike f es es') : ctx.SaysAlike f es' es := by
  cases h with
  | same h => exact .same h.symm
  | stored hfacet hes hes' hempty hrows =>
    exact .stored hfacet hes' hes hempty.symm fun row => (hrows row).symm

theorem eq_nil_iff (h : ctx.SaysAlike f es es') : es = [] ↔ es' = [] := by
  cases h with
  | same h => exact ⟨fun heq => (heq ▸ h).nil_eq.symm, fun heq => (heq ▸ h).eq_nil⟩
  | stored _ _ _ hempty _ => exact hempty

/-- Whether there is one member or are several, the choices are alike. -/
theorem exists_choice {a : Choice} (h : ctx.SaysAlike f es es') (hes : ∀ e ∈ es, ctx.facetOf e = f)
    (ha : ctx.slicerChoice f es = .ok a) :
    ∃ b, ctx.slicerChoice f es' = .ok b ∧ ctx.AlikeChoice f a b := by
  have hstored {choice : Choice} {es : List Element} (h : ctx.slicerChoice f es = .ok choice)
      (hes : (Choice.any es).OfMembers) : choice.OfMembers := by
    rwa [Choice.OfMembers, elements_slicerChoice h]
  cases h with
  | same hperm =>
    rcases slicerChoice_eq_ok_iff.1 ha with ⟨e, rfl, rfl⟩ | ⟨hmany, hfacet, hnone, rfl⟩
    · rw [List.perm_singleton.1 hperm.symm]
      exact ⟨_, rfl, .same _⟩
    · have hmembers : (Choice.any es).OfMembers := fun e he =>
        exists_member_of_facet (by rwa [hes e he]) (by simpa using List.find?_eq_none.1 hnone e he)
      have hmembers' : (Choice.any es').OfMembers := fun e he => hmembers e (hperm.mem_iff.2 he)
      obtain ⟨b, hb⟩ : ∃ b, ctx.slicerChoice f es' = .ok b := exists_slicerChoice hfacet hmembers'
      refine ⟨b, hb, .members hfacet hmembers (hstored hb hmembers') (admits_congr fun e => ?_)⟩
      rw [elements_slicerChoice hb]
      exact hperm.mem_iff
  | stored hfacet hmembers hmembers' _ hrows =>
    obtain ⟨b, hb⟩ : ∃ b, ctx.slicerChoice f es' = .ok b := exists_slicerChoice hfacet hmembers'
    refine ⟨b, hb, .members hfacet (hstored ha hmembers) (hstored hb hmembers') fun row => ?_⟩
    have hplain {choice : Choice} {es : List Element} (h : ctx.slicerChoice f es = .ok choice) :
        ctx.admits choice row = ctx.admits (.any es) row :=
      admits_congr (fun e => by rw [elements_slicerChoice h]; rfl) row
    rw [hplain ha, hplain hb, hrows]

end SaysAlike

/-! ### The coordinate of a slicer -/

/-- Two slicers that ask for the same on each facet. -/
def SlicesAlike (ctx : Context) (set set' : TupleSet) : Prop :=
  ∀ f, ctx.SaysAlike f (ctx.mentioned set f) (ctx.mentioned set' f)

theorem mem_facetsOf : f ∈ ctx.facetsOf set.flatten.eraseDups ↔ ctx.mentioned set f ≠ [] := by
  rw [facetsOf, List.mem_mergeSort, List.mem_eraseDups, List.mem_map, ne_eq,
    List.eq_nil_iff_forall_not_mem, not_forall_not]
  simp only [mem_mentioned, List.mem_eraseDups]

/-- A relation between the entries of two lists, one of them still to be found. -/
theorem exists_forall₂ {α β γ : Type} {R : α → β → Prop} {S : α → γ → Prop} {T : β → γ → Prop}
    {as : List α} {bs : List β} (h : List.Forall₂ R as bs)
    (hstep : ∀ a b, R a b → ∃ c, S a c ∧ T b c) :
    ∃ cs, List.Forall₂ S as cs ∧ List.Forall₂ T bs cs := by
  induction h with
  | nil => exact ⟨[], .nil, .nil⟩
  | cons hfirst _ ih =>
    obtain ⟨c, hs, ht⟩ := hstep _ _ hfirst
    obtain ⟨cs, hss, hts⟩ := ih
    exact ⟨c :: cs, .cons hs hss, .cons ht hts⟩

theorem slicerCoordinate_eq_ok_iff {base : Coordinate} : ctx.slicerCoordinate set = .ok base ↔
    List.Forall₂ (fun f slot => slot.1 = f ∧ ctx.slicerChoice f (ctx.mentioned set f) = .ok slot.2)
      (ctx.facetsOf set.flatten.eraseDups) base := by
  refine ⟨forall₂_slicerCoordinate, fun h => ?_⟩
  unfold slicerCoordinate
  rw [mapM_eq_ok_iff]
  refine h.imp ?_
  rintro f ⟨g, choice⟩ ⟨rfl, hchoice⟩
  exact bind_eq_ok_iff.2 ⟨choice, hchoice, rfl⟩

theorem hasCoordinate_slicer {base : Coordinate} (hset : ctx.HasSet set)
    (h : ctx.slicerCoordinate set = .ok base) : ctx.HasCoordinate base := by
  intro slot hslot e he
  obtain ⟨f, -, -, hchoice⟩ := exists_of_forall₂ (forall₂_slicerCoordinate h) hslot
  rw [elements_slicerChoice hchoice] at he
  obtain ⟨t, ht, het⟩ := List.mem_flatten.1 (List.mem_eraseDups.1 (List.mem_filter.1 he).1)
  exact hset t ht e het

namespace SlicesAlike

theorem symm (h : ctx.SlicesAlike set set') : ctx.SlicesAlike set' set :=
  fun f => (h f).symm

theorem facetsOf (h : ctx.SlicesAlike set set') :
    ctx.facetsOf set.flatten.eraseDups = ctx.facetsOf set'.flatten.eraseDups := by
  refine (pairwise_facetsOf _).eq_of_mem_iff (pairwise_facetsOf _) fun f => ?_
  rw [mem_facetsOf, mem_facetsOf, ne_eq, (h f).eq_nil_iff]

theorem slicerCoordinate {base : Coordinate} (h : ctx.SlicesAlike set set')
    (hbase : ctx.slicerCoordinate set = .ok base) :
    ∃ base', ctx.slicerCoordinate set' = .ok base' ∧ ctx.Alike base base' := by
  have hslots := slicerCoordinate_eq_ok_iff.1 hbase
  rw [h.facetsOf] at hslots
  simp only [slicerCoordinate_eq_ok_iff]
  refine exists_forall₂ hslots ?_
  rintro f ⟨g, a⟩ ⟨rfl, ha⟩
  obtain ⟨b, hb, hab⟩ := (h g).exists_choice (fun e he => (mem_mentioned.1 he).2) ha
  exact ⟨(g, b), ⟨rfl, hb⟩, rfl, hab⟩

end SlicesAlike

/-! ### Cells and axes -/

/-- Cells with the same content, at coordinates that no cell tells apart. -/
structure AlikeCell (ctx : Context) (x y : GridCell) : Prop where
  coordinate : ctx.Alike x.coordinate y.coordinate
  content : x.content = y.content

theorem AlikeCell.cell_eq {x y : GridCell} (h : ctx.AlikeCell x y) (options : QueryOptions)
    (ordinal : Nat) : ctx.cell options ordinal x = ctx.cell options ordinal y := by
  obtain ⟨coordinate, content⟩ := x
  obtain ⟨other, content'⟩ := y
  obtain ⟨hcoordinate, rfl⟩ := h
  exact hcoordinate.cell options ordinal content

theorem cells_congr {grid grid' : List GridCell} (h : List.Forall₂ ctx.AlikeCell grid grid')
    (options : QueryOptions) (sizes : List Nat) (kept : List (List Nat)) :
    ctx.cells options sizes kept grid.toArray = ctx.cells options sizes kept grid'.toArray := by
  have hcells (n : Nat) : grid.map (ctx.cell options n) = grid'.map (ctx.cell options n) := by
    rw [← List.forall₂_eq_eq_eq, List.forall₂_map_left_iff, List.forall₂_map_right_iff]
    exact h.imp fun _ _ hcell => hcell.cell_eq options n
  have hat (n i : Nat) :
      grid[i]?.map (ctx.cell options n) = grid'[i]?.map (ctx.cell options n) := by
    rw [← List.getElem?_map, hcells, List.getElem?_map]
  unfold cells
  refine congrArg (List.mapM · _) (funext fun n => ?_)
  unfold keptCell
  cases positions? (kept.map List.length) n with
  | none => rfl
  | some positions =>
    have hsame := hat n (ordinalOf sizes (originals kept positions))
    revert hsame
    simp only [Option.bind_eq_bind, Option.bind_some, List.getElem?_toArray]
    cases grid[ordinalOf sizes (originals kept positions)]? <;>
      cases grid'[ordinalOf sizes (originals kept positions)]? <;>
      simp

/-- By induction on the cells, which mark their positions one after another. -/
theorem foldl_keepAt_congr {grid grid' : List GridCell}
    (h : List.Forall₂ ctx.AlikeCell grid grid') (cells : List (List Nat)) (masks : List Mask) :
    ((grid.zip cells).filter fun (cell, _) => !cell.content.empty).foldl
        (fun masks (_, positions) => keepAt masks positions) masks =
      ((grid'.zip cells).filter fun (cell, _) => !cell.content.empty).foldl
        (fun masks (_, positions) => keepAt masks positions) masks := by
  induction h generalizing cells masks with
  | nil => rfl
  | @cons x y _ _ hxy _ ih =>
    cases cells with
    | nil => rfl
    | cons positions cells =>
      simp only [List.zip_cons_cons, List.filter_cons, hxy.content]
      cases y.content.empty <;> exact ih cells _

/-- Which positions are kept depends on the contents of the cells alone. -/
theorem keptOf_congr {axes : List AxisClause} {sizes : List Nat} {grid grid' : List GridCell}
    (h : List.Forall₂ ctx.AlikeCell grid grid') :
    keptOf axes sizes grid = keptOf axes sizes grid' := by
  rw [keptOf, keptOf, masksOf, masksOf, foldl_keepAt_congr h]

section Resliced

variable {layout : CubeLayout} {catalog : Catalog} {statement : Statement} {e' : Expr}
  {plan : Plan} {base' : Coordinate} {grid : List GridCell} {options : QueryOptions}

theorem Plans.sliced (h : ctx.Plans statement plan) (he' : (ctx.evalSet e').result = .ok set')
    (hbase' : ctx.slicerCoordinate set' = .ok base') :
    ctx.Plans (statement.sliced e') (plan.sliced set' base') where
  sets := h.sets
  slicer := congrArg some he'
  base := hbase'
  apart := h.apart

/-- Slicers that ask for the same leave the contents of all cells as they are. -/
theorem contentAt_sliced (hb : Cube.Built layout catalog ctx.cube) (hs : ctx.Sound)
    (h : ctx.Plans statement plan) (hslicer : plan.slicer? = some set) (hset : set ≠ [])
    (hset' : set' ≠ []) (hhas : ctx.HasSet set) (hhas' : ctx.HasSet set')
    (hbase' : ctx.slicerCoordinate set' = .ok base') (halike : ctx.Alike plan.base base')
    (positions : List Nat) :
    ctx.contentAt plan positions = ctx.contentAt (plan.sliced set' base') positions := by
  -- An empty slicer would leave all cells empty, whatever the other one asks for.
  have hselects : plan.selectsNothing = false := by simp [Plan.selectsNothing, hslicer, hset]
  have hselects' : (plan.sliced set' base').selectsNothing = false := by
    simp [Plan.selectsNothing, Plan.sliced, hset']
  have hbase := h.base
  rw [hslicer, Option.getD_some] at hbase
  have hmembers : ctx.HasAll (plan.membersAt positions) := by
    intro e he
    obtain ⟨axis, haxis, t, ht, he⟩ := mem_membersAt he
    exact h.gives (gives_evalSet hs) axis haxis t ht e he
  rw [contentAt, contentAt, hselects, hselects']
  exact (halike.place _).freshCell hb hs.fits ((hasCoordinate_slicer hhas hbase).place hmembers)
    ((hasCoordinate_slicer hhas' hbase').place hmembers)

theorem grid_sliced (hgrid : ctx.grid plan = .ok grid) (halike : ctx.Alike plan.base base')
    (hsame : ∀ positions, ctx.contentAt plan positions =
      ctx.contentAt (plan.sliced set' base') positions) :
    ∃ grid', ctx.grid (plan.sliced set' base') = .ok grid' ∧
      List.Forall₂ ctx.AlikeCell grid grid' := by
  have hcells := grid_eq_ok_iff.1 hgrid
  simp only [grid_eq_ok_iff]
  refine exists_forall₂ hcells fun positions x hx => ?_
  refine ⟨⟨ctx.place base' (plan.membersAt positions), x.content⟩, ⟨rfl, ?_⟩, ?_, rfl⟩
  · rw [← hsame]
    exact hx.2
  · rw [hx.1]
    exact halike.place _

/-- Slicers that ask for the same give the same answer. -/
theorem SlicesAlike.execute {c : Cube} {s : Scope} (hb : Cube.Built layout catalog c)
    (hscope : (Scope.ofDefinitions c statement.definitions).result = .ok s) {e : Expr}
    (he : (evalSet ⟨c, s⟩ e).result = .ok set) (he' : (evalSet ⟨c, s⟩ e').result = .ok set')
    (hset : set ≠ []) (hset' : set' ≠ []) (h : SlicesAlike ⟨c, s⟩ set set') {answer : Cellset}
    (hanswer : (c.execute (statement.sliced e) options).result = .ok answer) :
    (c.execute (statement.sliced e') options).result =
      .ok { answer with slicer := axis ⟨c, s⟩ options slicerAxisName [] set' set' } := by
  obtain ⟨hname, s', plan, grid, hs', hplan, hgrid, cells, hcells, rfl⟩ :=
    Cube.execute_eq_ok_iff.1 hanswer
  -- The definitions are read before the slicer and give the same scope.
  obtain rfl : s' = s := Except.ok.inj (hs'.symm.trans hscope)
  have hs := sound_ofDefinitions hb hscope
  have hplans := plan_eq_ok_iff.1 hplan
  have hslicer : plan.slicer? = some set :=
    Option.map_injective (fun _ _ => Except.ok.inj) (hplans.slicer.symm.trans (congrArg some he))
  have hbase := hplans.base
  rw [hslicer, Option.getD_some] at hbase
  obtain ⟨base', hbase', halike⟩ := h.slicerCoordinate hbase
  have hsame := contentAt_sliced hb hs hplans hslicer hset hset' (gives_evalSet hs _ _ he)
    (gives_evalSet hs _ _ he') hbase' halike
  obtain ⟨grid', hgrid', hgrids⟩ := grid_sliced hgrid halike hsame
  have hplans' := hplans.sliced he' hbase'
  have hkept : keptOf statement.axes plan.sizes grid = keptOf statement.axes plan.sizes grid' :=
    keptOf_congr hgrids
  refine Cube.execute_eq_ok_iff.2
    ⟨hname, s', _, grid', hscope, plan_eq_ok_iff.2 hplans', hgrid', cells, ?_, ?_⟩
  · rw [← cells_congr hgrids]
    exact hkept ▸ hcells
  · -- Only the axis that shows the slicer tells which of the slicers has been used.
    rw [show keptOf (statement.sliced e).axes plan.sizes grid = _ from hkept]
    rfl

end Resliced

/-! ### Members below others -/

/-- To a slicer without calculated members, stored members have been added that lie below members
which it mentions. -/
structure AddsBelow (ctx : Context) (set set' : TupleSet) : Prop where
  stored : ∀ e ∈ set.flatten, e.isCalculated = false
  kept : ∀ e ∈ set.flatten, e ∈ set'.flatten
  below : ∀ e ∈ set'.flatten, e ∉ set.flatten →
    ∃ a m, .member a ∈ set.flatten ∧ m ∈ ctx.cube.descendants a ∧ e = .member m

theorem AddsBelow.mentioned {f : Facet} {e : Element} (h : ctx.AddsBelow set set')
    (he : e ∈ ctx.mentioned set f) : e ∈ ctx.mentioned set' f :=
  mem_mentioned.2 ⟨h.kept e (mem_mentioned.1 he).1, (mem_mentioned.1 he).2⟩

/-- What has been added lies below a member on the same facet. -/
theorem AddsBelow.exists_above {f : Facet} {e : Element} (h : ctx.AddsBelow set set')
    (hg : Cube.Graph ctx.cube) (hhas : ctx.HasSet set) (he : e ∈ ctx.mentioned set' f)
    (hnew : e ∉ ctx.mentioned set f) : ∃ a m, .member a ∈ ctx.mentioned set f ∧
      ctx.cube.Has (.member a) ∧ m ∈ ctx.cube.descendants a ∧ e = .member m := by
  obtain ⟨hmem, hfacet⟩ := mem_mentioned.1 he
  obtain ⟨a, m, ha, hm, rfl⟩ := h.below e hmem fun hold => hnew (mem_mentioned.2 ⟨hold, hfacet⟩)
  obtain ⟨t, ht, hat⟩ := List.mem_flatten.1 ha
  have hhasa : ctx.cube.Has (.member a) := hhas t ht _ hat
  obtain ⟨hhasm, n, hn⟩ := (hg.mem_descendants hhasa).1 hm
  refine ⟨a, m, mem_mentioned.2 ⟨ha, ?_⟩, hhasa, hm, rfl⟩
  rw [← hfacet, facetOf, facetOf, (hg.ancestor? hhasm hn).2.1]

theorem AddsBelow.slicesAlike (h : ctx.AddsBelow set set') (hg : Cube.Graph ctx.cube)
    (hhas : ctx.HasSet set) : ctx.SlicesAlike set set' := by
  intro f
  by_cases hf : f = .measures
  · -- Nothing lies below a measure, so that no measure has been added.
    refine .same ((List.perm_ext_iff_of_nodup nodup_mentioned nodup_mentioned).2 fun e => ?_)
    refine ⟨h.mentioned, fun he => ?_⟩
    by_contra hnew
    obtain ⟨-, m, -, -, -, rfl⟩ := h.exists_above hg hhas he hnew
    rw [hf, mem_mentioned] at he
    cases he.2
  · have hold : (Choice.any (ctx.mentioned set f)).OfMembers := fun e he => by
      obtain ⟨hmem, rfl⟩ := mem_mentioned.1 he
      exact exists_member_of_facet hf (h.stored e hmem)
    refine .stored hf hold (fun e he => ?_) ?_ fun row => ?_
    · by_cases hnew : e ∈ ctx.mentioned set f
      · exact hold e hnew
      · obtain ⟨-, m, -, -, -, rfl⟩ := h.exists_above hg hhas he hnew
        exact ⟨m, rfl⟩
    · simp only [List.eq_nil_iff_forall_not_mem]
      refine ⟨fun hnone e he => ?_, fun hnone e he => hnone e (h.mentioned he)⟩
      obtain ⟨a, -, ha, -⟩ := h.exists_above hg hhas he (hnone e)
      exact hnone _ ha
    · rw [Bool.eq_iff_iff, admits_iff, admits_iff]
      constructor
      · rintro (hnone | ⟨id, hid, hrow⟩)
        · refine .inl fun id hid => ?_
          obtain ⟨a, -, ha, -⟩ := h.exists_above hg hhas hid (hnone id)
          exact hnone a ha
        · exact .inr ⟨id, h.mentioned hid, hrow⟩
      · rintro (hnone | ⟨id, hid, hrow⟩)
        · exact .inl fun id hid => hnone id (h.mentioned hid)
        · by_cases hnew : .member id ∈ ctx.mentioned set f
          · exact .inr ⟨id, hnew, hrow⟩
          · -- A row below an added member is a row below the one above that.
            obtain ⟨a, _, ha, hhasa, hm, ⟨⟩⟩ := h.exists_above hg hhas hid hnew
            exact .inr ⟨a, ha, hg.liesBelow_of_descendant hhasa hm hrow⟩

end Context

/-! ### Statements that differ in their slicers -/

/-- Both executions fail, or both succeed with the same axes and cells; the slicers that they show
may differ. -/
def SameButSlicer : Except Error Cellset → Except Error Cellset → Prop
  | .ok a, .ok b => { a with slicer := b.slicer } = b
  | .error _, .error _ => True
  | _, _ => False

namespace Context

variable {layout : CubeLayout} {catalog : Catalog} {c : Cube} {s : Scope} {statement : Statement}
  {e e' : Expr} {set set' : TupleSet}

theorem SlicesAlike.sameButSlicer (hb : Cube.Built layout catalog c)
    (hscope : (Scope.ofDefinitions c statement.definitions).result = .ok s)
    (he : (evalSet ⟨c, s⟩ e).result = .ok set) (he' : (evalSet ⟨c, s⟩ e').result = .ok set')
    (hset : set ≠ []) (hset' : set' ≠ []) (h : SlicesAlike ⟨c, s⟩ set set')
    (options : QueryOptions) :
    SameButSlicer (c.execute (statement.sliced e) options).result
      (c.execute (statement.sliced e') options).result := by
  cases hanswer : (c.execute (statement.sliced e) options).result with
  | ok answer =>
    rw [h.execute hb hscope he he' hset hset' hanswer]
    rfl
  | error err =>
    cases hanswer' : (c.execute (statement.sliced e') options).result with
    | ok answer =>
      rw [h.symm.execute hb hscope he' he hset' hset hanswer'] at hanswer
      cases hanswer
    | error err' => trivial

/-- The answer to a statement depends on its slicer only through the members that this mentions on
each facet, and not even on stored members that it mentions below other ones. -/
theorem execute_slicers (hbuild : Cube.build layout catalog = .ok c)
    (hscope : (Scope.ofDefinitions c statement.definitions).result = .ok s)
    (he : (evalSet ⟨c, s⟩ e).result = .ok set) (he' : (evalSet ⟨c, s⟩ e').result = .ok set')
    (hset : set ≠ []) (hset' : set' ≠ []) (options : QueryOptions) :
    ((∀ f x, x ∈ mentioned ⟨c, s⟩ set f ↔ x ∈ mentioned ⟨c, s⟩ set' f) →
      SameButSlicer (c.execute (statement.sliced e) options).result
        (c.execute (statement.sliced e') options).result) ∧
    (AddsBelow ⟨c, s⟩ set set' →
      SameButSlicer (c.execute (statement.sliced e) options).result
        (c.execute (statement.sliced e') options).result) := by
  have hb := Cube.built_of_build hbuild
  have hs := sound_ofDefinitions hb hscope
  constructor
  · intro hsame
    have halike : SlicesAlike ⟨c, s⟩ set set' := fun f =>
      .same ((List.perm_ext_iff_of_nodup nodup_mentioned nodup_mentioned).2 (hsame f))
    exact halike.sameButSlicer hb hscope he he' hset hset' options
  · intro hadds
    have halike := hadds.slicesAlike hb.graph (gives_evalSet hs _ _ he)
    exact halike.sameButSlicer hb hscope he he' hset hset' options

end Context

namespace Sample

open Context

/-- Asks for the only measure, if there are any sales. -/
def report : Statement :=
  { definitions := []
    axes := [⟨0, true, .path ⟨["Measures", "Amount"], 0⟩, []⟩]
    cube := "sample"
    slicer? := none
    cellProperties := [] }

def rome : Expr := .path ⟨["Shop", "Rome"], 0⟩

def anyShop : Expr := .path ⟨["Shop"], 0⟩

theorem evalSet_rome : (evalSet ⟨cube, .empty⟩ rome).result = .ok [[.member ⟨1⟩]] := by
  rw [rome, evalSet, resolve_rome]
  rfl

theorem evalSet_anyShop : (evalSet ⟨cube, .empty⟩ anyShop).result = .ok [[.member ⟨0⟩]] := by
  have hdimension : cube.Has (.dimension ⟨0⟩) := show 0 < cube.dimensions.size by decide
  have hresolve : resolve ⟨cube, .empty⟩ ⟨["Shop"], 0⟩ = pure (.dimension ⟨0⟩) :=
    resolve_uniqueName rfl (by decide) hdimension rfl rfl
  rw [anyShop, evalSet, hresolve]
  rfl

/-- A member of the hierarchy, and Rome. -/
theorem evalSet_andRome {e : Expr} {m : MemberId} (hm : (cube.member m).hierarchy = ⟨0⟩)
    (he : (evalSet ⟨cube, .empty⟩ e).result = .ok [[.member m]]) :
    (evalSet ⟨cube, .empty⟩ (.set [e, rome])).result = .ok [[.member m], [.member ⟨1⟩]] := by
  have hsets : (Noted.sequence [evalSet ⟨cube, .empty⟩ e, evalSet ⟨cube, .empty⟩ rome]).result =
      .ok [[[.member m]], [[.member ⟨1⟩]]] :=
    Noted.result_bind_eq_ok.2 ⟨_, he, Noted.result_bind_eq_ok.2
      ⟨_, Noted.result_bind_eq_ok.2 ⟨_, evalSet_rome, rfl⟩, rfl⟩⟩
  have hrome : (cube.member ⟨1⟩).hierarchy = ⟨0⟩ := by decide
  have huniform : checkUniform ⟨cube, .empty⟩ [[.member m], [.member ⟨1⟩]] (.set [e, rome]) =
      .ok () := by
    simp [checkUniform, facets, facetOf, hm, hrome]
  exact Noted.result_bind_eq_ok.2 ⟨_, hsets, Noted.result_bind_eq_ok.2 ⟨(), huniform, rfl⟩⟩

end Sample

namespace Context

/-- Sales in Rome, asked for once or twice; and all sales, with or without naming Rome. -/
theorem execute_slicers_rome :
    let answer (e : Expr) := (Sample.cube.execute (Sample.report.sliced e) {}).result
    SameButSlicer (answer Sample.rome) (answer (.set [Sample.rome, Sample.rome])) ∧
      SameButSlicer (answer Sample.anyShop) (answer (.set [Sample.anyShop, Sample.rome])) := by
  intro answer
  have hscope : (Scope.ofDefinitions Sample.cube Sample.report.definitions).result = .ok .empty :=
    rfl
  constructor
  · have hset' := Sample.evalSet_andRome (by decide) Sample.evalSet_rome
    refine (execute_slicers Sample.build_eq_cube hscope Sample.evalSet_rome hset'
      (List.cons_ne_nil _ _) (List.cons_ne_nil _ _) {}).1 fun f x => ?_
    simp [mem_mentioned]
  · have hset' := Sample.evalSet_andRome (by decide) Sample.evalSet_anyShop
    refine (execute_slicers Sample.build_eq_cube hscope Sample.evalSet_anyShop hset'
      (List.cons_ne_nil _ _) (List.cons_ne_nil _ _) {}).2 ⟨?_, ?_, fun x hx hnew => ?_⟩
    · simp [Element.isCalculated]
    · simp
    · refine ⟨⟨0⟩, ⟨1⟩, by simp, by decide, ?_⟩
      simp only [List.flatten_cons, List.flatten_nil, List.mem_append, List.mem_singleton,
        List.not_mem_nil, or_false] at hx hnew
      exact hx.resolve_left hnew

end Context

end CubeQuery
