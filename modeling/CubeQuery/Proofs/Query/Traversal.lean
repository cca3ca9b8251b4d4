import CubeQuery.Proofs.Cube.WellFormed
import CubeQuery.Proofs.Query.Uniform
import CubeQuery.Query.SetFunctions

/-!
The trees of a cube, walked depth first. A member is visited before all that lies below it, or after
it; below it lie its children in source order, each with all that lies below that, and then its
calculated members. The steps from the top of a facet down to an element tell which of two elements
the walk reaches first, at whatever depth they stand.
-/

namespace CubeQuery

/-! ### Comparing descents -/

theorem Step.compare_self (x : Step) : compare x x = .eq := by
  cases x with
  | listed i => exact Nat.compare_eq_eq.2 rfl
  | appended i => exact Nat.compare_eq_eq.2 rfl

theorem Step.compare_swap (x y : Step) : (compare x y).swap = compare y x := by
  cases x with
  | listed i =>
    cases y with
    | listed j => exact Nat.compare_swap i j
    | appended j => rfl
  | appended i =>
    cases y with
    | listed j => rfl
    | appended j => exact Nat.compare_swap i j

theorem compareDescents_append (post : Bool) (upper xs ys : List Step) :
    compareDescents post (upper ++ xs) (upper ++ ys) = compareDescents post xs ys := by
  induction upper with
  | nil => rfl
  | cons step upper ih =>
    rw [List.cons_append, List.cons_append, compareDescents, Step.compare_self, ih]
    rfl

theorem compareDescents_self (post : Bool) (xs : List Step) : compareDescents post xs xs = .eq := by
  have h := compareDescents_append post xs [] []
  rwa [List.append_nil] at h

theorem compareDescents_swap (post : Bool) (xs ys : List Step) :
    (compareDescents post xs ys).swap = compareDescents post ys xs := by
  induction xs generalizing ys with
  | nil =>
    cases ys with
    | nil => rfl
    | cons y ys => cases post <;> rfl
  | cons x xs ih =>
    cases ys with
    | nil => cases post <;> rfl
    | cons y ys =>
      rw [compareDescents, compareDescents, Ordering.swap_then, Step.compare_swap, ih]

/-! ### Levels below a member -/

namespace Cube.Graph

variable {c : Cube} {m p : MemberId}

/-- What holds of a member as soon as it holds of its children holds of all members. -/
theorem induction_below (hg : Graph c) {P : MemberId → Prop}
    (hstep : ∀ m, c.Has (.member m) → (∀ child ∈ c.memberChildren m, P child) → P m)
    (hm : c.Has (.member m)) : P m := by
  induction hlevels : c.levelsBelow m generalizing m with
  | zero =>
    refine hstep m hm fun child hchild => ?_
    have hbelow := hg.levelsBelow_child hm hchild
    omega
  | succ levels ih =>
    refine hstep m hm fun child hchild => ih (hg.memberChildren_below hm hchild).1 ?_
    have hbelow := hg.levelsBelow_child hm hchild
    omega

theorem positions_of_parent (hg : Graph c) (hm : c.Has (.member m))
    (hp : (c.member m).parent? = some p) :
    c.positions m = c.positions p ++ [(c.member m).position] := by
  have hmember : (c.member m).isAll = false := by rw [Member.isAll, hp]; rfl
  rw [positions, hg.lineage_of_parent hm hp, List.filter_cons_of_pos (by simp [hmember]),
    List.reverse_cons, List.map_append]
  rfl

end Cube.Graph

namespace Context

variable {ctx : Context} {post : Bool} {m child : MemberId} {x y : Element}

/-! ### The walk -/

/-- The calculated members right below a member, in the order of their definitions. -/
def calculatedBelow (ctx : Context) (m : MemberId) : List Element :=
  ((List.range ctx.scope.members.size).filter fun i => (ctx.scope.member i).parent? = some m).map
    .calculated

/-- A member before what lies below it, or after it with `post`. -/
def visit (post : Bool) (m : MemberId) (below : List Element) : List Element :=
  if post then below ++ [.member m] else .member m :: below

/-- The walk through a member and so many levels below it. -/
def walkWithin (ctx : Context) (post : Bool) : (levels : Nat) → MemberId → List Element
  | 0, m => visit post m (ctx.calculatedBelow m)
  | levels + 1, m =>
    visit post m ((ctx.cube.memberChildren m).flatMap (walkWithin ctx post levels) ++
      ctx.calculatedBelow m)

/-- The walk through a member and everything below it. -/
def walk (ctx : Context) (post : Bool) (m : MemberId) : List Element :=
  ctx.walkWithin post (ctx.cube.levelsBelow m) m

theorem mem_visit {below : List Element} : x ∈ visit post m below ↔ x = .member m ∨ x ∈ below := by
  cases post with
  | false => exact List.mem_cons
  | true => simp [visit, or_comm]

theorem walk_eq (hg : Cube.Graph ctx.cube) (hm : ctx.cube.Has (.member m)) :
    ctx.walk post m = visit post m
      ((ctx.cube.memberChildren m).flatMap (ctx.walk post) ++ ctx.calculatedBelow m) := by
  rw [walk]
  cases hlevels : ctx.cube.levelsBelow m with
  | zero =>
    rw [hg.memberChildren_eq_nil hm hlevels]
    rfl
  | succ levels =>
    rw [walkWithin]
    congr 2
    refine List.flatMap_congr fun child hchild => ?_
    have hbelow := hg.levelsBelow_child hm hchild
    rw [walk, show ctx.cube.levelsBelow child = levels by omega]

theorem mem_walk (hg : Cube.Graph ctx.cube) (hm : ctx.cube.Has (.member m)) :
    x ∈ ctx.walk post m ↔ x = .member m ∨
      (∃ child ∈ ctx.cube.memberChildren m, x ∈ ctx.walk post child) ∨
      x ∈ ctx.calculatedBelow m := by
  rw [walk_eq hg hm, mem_visit, List.mem_append, List.mem_flatMap]

theorem mem_calculatedBelow : x ∈ ctx.calculatedBelow m ↔
    ∃ i < ctx.scope.members.size, (ctx.scope.member i).parent? = some m ∧ x = .calculated i := by
  simp only [calculatedBelow, List.mem_map, List.mem_filter, List.mem_range, decide_eq_true_eq,
    and_assoc, @eq_comm _ x]

/-! ### The walk goes by descents -/

theorem descent_child (hg : Cube.Graph ctx.cube) (hm : ctx.cube.Has (.member m))
    (hchild : child ∈ ctx.cube.memberChildren m) : ctx.descent (.member child) =
      ctx.descent (.member m) ++ [.listed (ctx.cube.member child).position] := by
  obtain ⟨hhas, hparent⟩ := (hg.mem_memberChildren hm).1 hchild
  rw [descent, descent, hg.positions_of_parent hhas hparent, List.map_append]
  rfl

theorem descent_calculated {i : Nat} (h : (ctx.scope.member i).parent? = some m) :
    ctx.descent (.calculated i) = ctx.descent (.member m) ++ [.appended i] := by
  simp only [descent, h]

/-- The way to whatever the walk through a member reaches leads through the member. -/
theorem descent_of_mem_walk (hg : Cube.Graph ctx.cube) (hm : ctx.cube.Has (.member m))
    (hx : x ∈ ctx.walk post m) : ∃ steps, ctx.descent x = ctx.descent (.member m) ++ steps := by
  revert hx
  refine hg.induction_below (P := fun m => x ∈ ctx.walk post m →
    ∃ steps, ctx.descent x = ctx.descent (.member m) ++ steps) (fun m hm ih hx => ?_) hm
  rcases (mem_walk hg hm).1 hx with rfl | ⟨child, hchild, hx⟩ | hx
  · exact ⟨[], (List.append_nil _).symm⟩
  · obtain ⟨steps, hsteps⟩ := ih child hchild hx
    exact ⟨_, by rw [hsteps, descent_child hg hm hchild, List.append_assoc]⟩
  · obtain ⟨i, -, hi, rfl⟩ := mem_calculatedBelow.1 hx
    exact ⟨_, descent_calculated hi⟩

/-- The descent of the one comes before that of the other. -/
def Precedes (ctx : Context) (post : Bool) (x y : Element) : Prop :=
  compareDescents post (ctx.descent x) (ctx.descent y) = .lt

theorem precedes_of_steps (upper : List Step) {a b : Step} {as bs : List Step}
    (hx : ctx.descent x = upper ++ a :: as) (hy : ctx.descent y = upper ++ b :: bs)
    (h : compare a b = .lt) : ctx.Precedes post x y := by
  rw [Precedes, hx, hy, compareDescents_append, compareDescents, h]
  rfl

/-- What comes below a member takes at least one more step. -/
theorem pairwise_visit {below : List Element} (h : below.Pairwise (ctx.Precedes post))
    (hbelow : ∀ x ∈ below, ∃ a as, ctx.descent x = ctx.descent (.member m) ++ a :: as) :
    (visit post m below).Pairwise (ctx.Precedes post) := by
  have hself : ctx.descent (.member m) = ctx.descent (.member m) ++ [] := (List.append_nil _).symm
  cases post with
  | false =>
    refine List.pairwise_cons.2 ⟨fun x hx => ?_, h⟩
    obtain ⟨a, as, hsteps⟩ := hbelow x hx
    rw [Precedes, hsteps, hself, List.append_assoc, compareDescents_append]
    rfl
  | true =>
    refine List.pairwise_append.2 ⟨h, List.pairwise_singleton _ _, fun x hx y hy => ?_⟩
    obtain rfl := List.mem_singleton.1 hy
    obtain ⟨a, as, hsteps⟩ := hbelow x hx
    rw [Precedes, hsteps, hself, List.append_assoc, compareDescents_append]
    rfl

theorem pairwise_calculated {is : List Nat} (his : is.Pairwise (· < ·))
    (h : ∀ i ∈ is, ∀ j ∈ is, i < j → ctx.Precedes post (.calculated i) (.calculated j)) :
    (is.map Element.calculated).Pairwise (ctx.Precedes post) := by
  rw [List.pairwise_map]
  exact his.imp_of_mem fun hi hj hlt => h _ hi _ hj hlt

/-- By induction on the levels below the member. -/
theorem pairwise_walk (hg : Cube.Graph ctx.cube) (hm : ctx.cube.Has (.member m)) :
    (ctx.walk post m).Pairwise (ctx.Precedes post) := by
  refine hg.induction_below (P := fun m => (ctx.walk post m).Pairwise (ctx.Precedes post))
    (fun m hm ih => ?_) hm
  have hchild {child : MemberId} {x : Element} (hchild : child ∈ ctx.cube.memberChildren m)
      (hx : x ∈ ctx.walk post child) : ∃ steps, ctx.descent x =
        ctx.descent (.member m) ++ .listed (ctx.cube.member child).position :: steps := by
    have hhas := (hg.memberChildren_below hm hchild).1
    obtain ⟨steps, hsteps⟩ := descent_of_mem_walk hg hhas hx
    exact ⟨steps, by rw [hsteps, descent_child hg hm hchild, List.append_assoc]; rfl⟩
  rw [walk_eq hg hm]
  refine pairwise_visit (List.pairwise_append.2 ⟨?_, ?_, ?_⟩) ?_
  · -- Descents through two children differ first where the children stand.
    refine List.pairwise_flatMap.2 ⟨ih, (hg.pairwise_memberChildren hm).imp_of_mem ?_⟩
    intro a b ha hb hlt x hx y hy
    obtain ⟨as, has⟩ := hchild ha hx
    obtain ⟨bs, hbs⟩ := hchild hb hy
    exact precedes_of_steps _ has hbs (Nat.compare_eq_lt.2 hlt)
  · refine pairwise_calculated (List.pairwise_lt_range.filter _) fun i hi j hj hlt => ?_
    have hi := of_decide_eq_true (List.mem_filter.1 hi).2
    have hj := of_decide_eq_true (List.mem_filter.1 hj).2
    exact precedes_of_steps _ (descent_calculated hi) (descent_calculated hj)
      (Nat.compare_eq_lt.2 hlt)
  · -- A step to a child comes before a step to a calculated member.
    intro x hx y hy
    obtain ⟨child, hmem, hx⟩ := List.mem_flatMap.1 hx
    obtain ⟨i, -, hi, rfl⟩ := mem_calculatedBelow.1 hy
    obtain ⟨as, has⟩ := hchild hmem hx
    exact precedes_of_steps _ has (descent_calculated hi) rfl
  · intro x hx
    rcases List.mem_append.1 hx with hx | hx
    · obtain ⟨child, hmem, hx⟩ := List.mem_flatMap.1 hx
      exact ⟨_, hchild hmem hx⟩
    · obtain ⟨i, -, hi, rfl⟩ := mem_calculatedBelow.1 hx
      exact ⟨_, _, descent_calculated hi⟩

/-! ### The walk through a whole facet -/

/-- All elements of a facet, in the order in which a walk from its top reaches them. Measures stand
beside each other, the calculated ones last. -/
def facetOrder (ctx : Context) (post : Bool) : Facet → List Element
  | .measures => ctx.cube.measureIds.map .measure ++ ctx.calculatedOn .measures
  | .hierarchy h => ctx.walk post (ctx.cube.hierarchy h).allMember

variable {f : Facet} {e : Element}

theorem zipIdx_members : ctx.scope.members.toList.zipIdx =
    (List.range ctx.scope.members.size).map fun i => (ctx.scope.member i, i) := by
  refine List.ext_getElem (by simp) fun i hi _ => ?_
  have hi' : i < ctx.scope.members.size := by simpa using hi
  simp [Scope.member, hi']

theorem calculatedOn_eq (f : Facet) : ctx.calculatedOn f =
    ((List.range ctx.scope.members.size).filter fun i =>
      (ctx.scope.member i).facet == f).map .calculated := by
  rw [calculatedOn, zipIdx_members, List.filter_map, List.map_map]
  rfl

theorem mem_calculatedOn : e ∈ ctx.calculatedOn f ↔
    ∃ i < ctx.scope.members.size, (ctx.scope.member i).facet = f ∧ e = .calculated i := by
  simp only [calculatedOn_eq, List.mem_map, List.mem_filter, List.mem_range, beq_iff_eq, and_assoc,
    @eq_comm _ e]

theorem Fits.place (hfits : ctx.Fits) {i : Nat} (hi : i < ctx.scope.members.size) :
    ctx.HasPlace (ctx.scope.member i).facet (ctx.scope.member i).parent? := by
  have hmem : ctx.scope.member i ∈ ctx.scope.members := by
    rw [Scope.member, Array.getD, dif_pos hi]
    exact Array.getElem_mem hi
  exact hfits.members _ hmem

/-- A calculated member is among the measures, or it has a stored member above it. -/
theorem Fits.place_cases (hfits : ctx.Fits) {i : Nat} (hi : i < ctx.scope.members.size) :
    ((ctx.scope.member i).parent? = none ∧ (ctx.scope.member i).facet = .measures) ∨
      ∃ p, (ctx.scope.member i).parent? = some p ∧ ctx.cube.Has (.member p) ∧
        (ctx.scope.member i).facet = .hierarchy (ctx.cube.member p).hierarchy := by
  have hplace := hfits.place hi
  cases hp : (ctx.scope.member i).parent? with
  | none =>
    rw [hp] at hplace
    exact .inl ⟨rfl, hplace⟩
  | some p =>
    rw [hp] at hplace
    exact .inr ⟨p, rfl, hplace⟩

theorem walk_subset_of_ancestor (hg : Cube.Graph ctx.cube) {a : MemberId} {n : Nat}
    (hm : ctx.cube.Has (.member m)) (ha : ctx.cube.ancestor? n m = some a) :
    ∀ x ∈ ctx.walk post m, x ∈ ctx.walk post a := by
  induction n generalizing m with
  | zero =>
    obtain rfl := Option.some.inj ha
    exact fun _ hx => hx
  | succ n ih =>
    obtain ⟨p, hp, ha⟩ := Option.bind_eq_some_iff.1 ha
    have hhas := (hg.parent m p hm hp).1
    intro x hx
    refine ih hhas ha x ((mem_walk hg hhas).2 (.inr (.inl ⟨m, ?_, hx⟩)))
    exact (hg.mem_memberChildren hhas).2 ⟨hm, hp⟩

/-- A facet of the cube. -/
def HasFacet (ctx : Context) : Facet → Prop
  | .measures => True
  | .hierarchy h => ctx.cube.Has (.hierarchy h)

theorem hasFacet_facetOf (hg : Cube.Graph ctx.cube) (hfits : ctx.Fits) (he : ctx.Has e) :
    ctx.HasFacet (ctx.facetOf e) := by
  cases e with
  | member m => exact hg.hierarchy_has he
  | measure id => trivial
  | calculated i =>
    rw [facetOf]
    rcases hfits.place_cases he with ⟨-, hfacet⟩ | ⟨p, -, hhas, hfacet⟩
    · rw [hfacet]
      trivial
    · rw [hfacet]
      exact hg.hierarchy_has hhas

/-- The walk stays below the member where it starts. -/
theorem has_of_mem_walk (hg : Cube.Graph ctx.cube) (hfits : ctx.Fits)
    (hm : ctx.cube.Has (.member m)) (hx : x ∈ ctx.walk post m) :
    ctx.Has x ∧ ctx.facetOf x = .hierarchy (ctx.cube.member m).hierarchy := by
  revert hx
  refine hg.induction_below (P := fun m => x ∈ ctx.walk post m →
    ctx.Has x ∧ ctx.facetOf x = .hierarchy (ctx.cube.member m).hierarchy) (fun m hm ih hx => ?_) hm
  rcases (mem_walk hg hm).1 hx with rfl | ⟨child, hchild, hx⟩ | hx
  · exact ⟨hm, rfl⟩
  · obtain ⟨hhas, hfacet⟩ := ih child hchild hx
    rw [hfacet, (hg.memberChildren_below hm hchild).2.1]
    exact ⟨hhas, rfl⟩
  · obtain ⟨i, hi, hp, rfl⟩ := mem_calculatedBelow.1 hx
    rcases hfits.place_cases hi with ⟨hnone, -⟩ | ⟨q, hq, -, hfacet⟩
    · cases hnone.symm.trans hp
    · obtain rfl := Option.some.inj (hq.symm.trans hp)
      exact ⟨hi, hfacet⟩

theorem mem_facetOrder_of_has (hg : Cube.Graph ctx.cube) (hfits : ctx.Fits) (he : ctx.Has e) :
    e ∈ ctx.facetOrder post (ctx.facetOf e) := by
  have hwalk {p : MemberId} (hp : ctx.cube.Has (.member p)) (h : e ∈ ctx.walk post p) :
      e ∈ ctx.facetOrder post (.hierarchy (ctx.cube.member p).hierarchy) :=
    walk_subset_of_ancestor hg hp (hg.ancestor?_depth hp) e h
  cases e with
  | member m => exact hwalk he ((mem_walk hg he).2 (.inl rfl))
  | measure id =>
    refine List.mem_append_left _ (List.mem_map_of_mem ?_)
    exact List.mem_map.2 ⟨id.index, List.mem_range.2 he, rfl⟩
  | calculated i =>
    rw [facetOf]
    rcases hfits.place_cases he with ⟨-, hfacet⟩ | ⟨p, hp, hhas, hfacet⟩
    · rw [hfacet]
      exact List.mem_append_right _ (mem_calculatedOn.2 ⟨i, he, hfacet, rfl⟩)
    · rw [hfacet]
      refine hwalk hhas ((mem_walk hg hhas).2 (.inr (.inr ?_)))
      exact mem_calculatedBelow.2 ⟨i, he, hp, rfl⟩

/-- The walk reaches all elements of the facet, and no others. -/
theorem mem_facetOrder (hg : Cube.Graph ctx.cube) (hfits : ctx.Fits) (hf : ctx.HasFacet f) :
    e ∈ ctx.facetOrder post f ↔ ctx.Has e ∧ ctx.facetOf e = f := by
  constructor
  · intro he
    cases f with
    | measures =>
      rcases List.mem_append.1 he with he | he
      · obtain ⟨id, hid, rfl⟩ := List.mem_map.1 he
        obtain ⟨k, hk, rfl⟩ := List.mem_map.1 hid
        exact ⟨List.mem_range.1 hk, rfl⟩
      · obtain ⟨i, hi, hfacet, rfl⟩ := mem_calculatedOn.1 he
        exact ⟨hi, hfacet⟩
    | hierarchy h =>
      obtain ⟨hhas, hsame, -⟩ := hg.allMember hf
      obtain ⟨he, hfacet⟩ := has_of_mem_walk hg hfits hhas he
      exact ⟨he, hfacet.trans (congrArg _ hsame)⟩
  · rintro ⟨he, rfl⟩
    exact mem_facetOrder_of_has hg hfits he

theorem pairwise_measures (hfits : ctx.Fits) :
    (ctx.facetOrder post .measures).Pairwise (ctx.Precedes post) := by
  have hcalculated {i : Nat} (hi : i < ctx.scope.members.size)
      (hfacet : (ctx.scope.member i).facet = .measures) :
      ctx.descent (.calculated i) = [.listed (ctx.cube.measures.size + i)] := by
    rcases hfits.place_cases hi with ⟨hp, -⟩ | ⟨p, -, -, hfacet'⟩
    · simp only [descent, hp]
    · cases hfacet'.symm.trans hfacet
  refine List.pairwise_append.2 ⟨?_, ?_, fun x hx y hy => ?_⟩
  · rw [Cube.measureIds, List.pairwise_map, List.pairwise_map]
    refine List.pairwise_lt_range.imp fun hlt => ?_
    exact precedes_of_steps [] rfl rfl (Nat.compare_eq_lt.2 hlt)
  · rw [calculatedOn_eq]
    refine pairwise_calculated (List.pairwise_lt_range.filter _) fun i hi j hj hlt => ?_
    obtain ⟨hi, hfacet⟩ := List.mem_filter.1 hi
    obtain ⟨hj, hfacet'⟩ := List.mem_filter.1 hj
    refine precedes_of_steps []
      (hcalculated (List.mem_range.1 hi) (beq_iff_eq.1 hfacet))
      (hcalculated (List.mem_range.1 hj) (beq_iff_eq.1 hfacet')) (Nat.compare_eq_lt.2 ?_)
    omega
  · obtain ⟨id, hid, rfl⟩ := List.mem_map.1 hx
    obtain ⟨k, hk, rfl⟩ := List.mem_map.1 hid
    obtain ⟨i, hi, hfacet, rfl⟩ := mem_calculatedOn.1 hy
    refine precedes_of_steps [] rfl (hcalculated hi hfacet) (Nat.compare_eq_lt.2 ?_)
    have hk := List.mem_range.1 hk
    show k < _
    omega

theorem pairwise_facetOrder (hg : Cube.Graph ctx.cube) (hfits : ctx.Fits) (hf : ctx.HasFacet f) :
    (ctx.facetOrder post f).Pairwise (ctx.Precedes post) := by
  cases f with
  | measures => exact pairwise_measures hfits
  | hierarchy h => exact pairwise_walk hg (hg.allMember hf).1

/-- The walk reaches nothing twice. -/
theorem nodup_facetOrder (hg : Cube.Graph ctx.cube) (hfits : ctx.Fits) (hf : ctx.HasFacet f) :
    (ctx.facetOrder post f).Nodup := by
  have hordered : (ctx.facetOrder post f).Pairwise (ctx.Precedes post) :=
    pairwise_facetOrder hg hfits hf
  refine hordered.imp ?_
  rintro x _ h rfl
  rw [Precedes, compareDescents_self] at h
  cases h

end Context

end CubeQuery
