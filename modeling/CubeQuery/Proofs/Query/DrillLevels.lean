import CubeQuery.Proofs.Query.DrillSteps

/-!
Drilling down by level. Where the first members of all tuples are on one hierarchy, drilling those
on a level is drilling the members of the level: depth and hierarchy tell a level, and the members
of a level have no place in a tuple but the first.
-/

namespace CubeQuery

open CubeQuery.Language

theorem interleave_congr {block block' : TupleSet → Tuple → TupleSet} {emitted set : TupleSet}
    (h : ∀ t ∈ set, ∀ emitted, block emitted t = block' emitted t) :
    interleave block emitted set = interleave block' emitted set := by
  induction set generalizing emitted with
  | nil => rfl
  | cons t rest ih =>
    obtain ⟨ht, hrest⟩ := List.forall_mem_cons.1 h
    rw [interleave, interleave, ht, ih hrest]

theorem interleave_of_eq_nil {block : TupleSet → Tuple → TupleSet} {emitted set : TupleSet}
    (h : ∀ t ∈ set, ∀ emitted, block emitted t = []) : interleave block emitted set = set := by
  induction set generalizing emitted with
  | nil => rfl
  | cons t rest ih =>
    obtain ⟨ht, hrest⟩ := List.forall_mem_cons.1 h
    rw [interleave, ht, ih hrest]
    rfl

namespace Context

variable {ctx : Context} {targets : List Element} {fs : List Facet} {set present emitted : TupleSet}
  {t rest : Tuple} {e : Element} {h : HierarchyId} {l : LevelId}

/-- The block of a tuple that can hold no target but at its first position. -/
theorem drillTuple_first (hg : Cube.Graph ctx.cube) (honly : ctx.OnlyAt targets fs 0)
    (ht : ctx.On fs (e :: rest)) :
    ctx.drillTuple targets present false (ctx.levelsBelow (e :: rest)) emitted (e :: rest) =
      if e ∈ targets then
        childTuples present (fun _ _ _ => []) (e :: rest) 0 emitted (ctx.childrenOf e)
      else [] := by
  have he : ctx.levelsUnder e ≤ ctx.levelsBelow (e :: rest) := levelsUnder_le List.mem_cons_self
  split
  · next htarget =>
    have hfirst : FirstTarget targets (e :: rest) 0 e := ⟨rfl, htarget, by simp⟩
    cases hlevels : ctx.levelsBelow (e :: rest) with
    | zero =>
      have hnone : ctx.childrenOf e = [] := by
        rw [List.eq_nil_iff_forall_not_mem]
        intro d hd
        have := levelsUnder_child hg (ht.2 e List.mem_cons_self) hd
        omega
      rw [hnone]
      rfl
    | succ levels =>
      rw [drillTuple, hfirst.findIdx?]
      rfl
  · next htarget =>
    refine drillTuple_eq_nil honly ht fun u hu => ?_
    obtain ⟨x, hx, hat, -⟩ := mem_offspring.1 hu
    exact absurd (Option.some.inj hat ▸ hx) htarget

theorem mem_levelMembers (hg : Cube.Graph ctx.cube) (hl : ctx.cube.Has (.level l)) :
    e ∈ (ctx.levelMembers l).flatten ↔
      ∃ m, e = .member m ∧ ctx.cube.Has (.member m) ∧ (ctx.cube.member m).level = l := by
  have hmem (m : MemberId) : m ∈ (ctx.cube.level l).members ↔
      ctx.cube.Has (.member m) ∧ (ctx.cube.member m).level = l := by
    constructor
    · intro hm
      obtain ⟨i, hi⟩ := Array.mem_iff_getElem?.1 hm
      obtain ⟨hhas, hlevel, -⟩ := (hg.members_at l hl m i).1 hi
      exact ⟨hhas, hlevel⟩
    · rintro ⟨hhas, rfl⟩
      exact hg.mem_members hhas
  simp [levelMembers, hmem, eq_comm, and_comm]

/-- A level is told by its depth and its hierarchy. -/
theorem drillFirst_eq (hg : Cube.Graph ctx.cube) (hnodup : (.hierarchy h :: fs).Nodup)
    (hset : ∀ t ∈ set, ctx.On (.hierarchy h :: fs) t) (hl : ctx.cube.Has (.level l))
    (hlevel : (ctx.cube.level l).hierarchy = h) {hierarchy? : Option HierarchyId}
    (hsame : hierarchy?.all (· = h) = true) :
    ctx.drillFirst set (ctx.cube.level l).ordinal hierarchy? =
      ctx.drilldownMember set (ctx.levelMembers l) false := by
  have honly : ctx.OnlyAt (ctx.levelMembers l).flatten (.hierarchy h :: fs) 0 := by
    have hfacet : ∀ e ∈ (ctx.levelMembers l).flatten, ctx.facetOf e = .hierarchy h := by
      intro e he
      obtain ⟨m, rfl, hm, rfl⟩ := (mem_levelMembers hg hl).1 he
      rw [facetOf, ← hlevel, (hg.member_level m hm).2]
    simpa using onlyAt_of_facet hnodup hfacet
  refine interleave_congr fun t ht emitted => ?_
  have hon := hset t ht
  cases t with
  | nil => cases hon.1
  | cons e rest =>
    have he := hon.2 e List.mem_cons_self
    have hfacet : ctx.facetOf e = .hierarchy h := (List.cons.inj hon.1).1
    rw [drillTuple_first hg honly hon]
    cases e with
    | member m =>
      -- On its hierarchy a level is the only one of its depth.
      have hh : (ctx.cube.member m).hierarchy = h := Facet.hierarchy.inj hfacet
      have htarget : Element.member m ∈ (ctx.levelMembers l).flatten ↔
          ctx.cube.depth m = (ctx.cube.level l).ordinal ∧
            hierarchy?.all (· = (ctx.cube.member m).hierarchy) := by
        rw [mem_levelMembers hg hl, hh]
        constructor
        · rintro ⟨_, ⟨⟩, -, rfl⟩
          exact ⟨rfl, hsame⟩
        · rintro ⟨hdepth, -⟩
          exact ⟨m, rfl, he, hg.level_eq hl he (hlevel.trans hh.symm) hdepth.symm⟩
      simp only [htarget]
    | measure id => cases hfacet
    | calculated i =>
      have htarget : Element.calculated i ∉ (ctx.levelMembers l).flatten := by
        rw [mem_levelMembers hg hl]
        rintro ⟨_, ⟨⟩, -⟩
      rw [if_neg htarget]

/-- Some tuple has its first member on the level, a stored one. -/
def FirstOn (ctx : Context) (set : TupleSet) (l : LevelId) : Prop :=
  ∃ t ∈ set, ∃ m, t.head? = some (.member m) ∧ (ctx.cube.member m).level = l

/-- The deepest level with a stored first member. -/
def DeepestFirst (ctx : Context) (set : TupleSet) (l : LevelId) : Prop :=
  ctx.FirstOn set l ∧
    ∀ l', ctx.FirstOn set l' → (ctx.cube.level l').ordinal ≤ (ctx.cube.level l).ordinal

/-- The depth of a first member that is stored. -/
def firstDepth? (ctx : Context) : Tuple → Option Nat
  | .member id :: _ => some (ctx.cube.depth id)
  | _ => none

theorem deepestFirst?_eq : ctx.deepestFirst? set = (set.filterMap ctx.firstDepth?).max? := rfl

theorem mem_firstDepths {depth : Nat} : depth ∈ set.filterMap ctx.firstDepth? ↔
    ∃ l, ctx.FirstOn set l ∧ (ctx.cube.level l).ordinal = depth := by
  rw [List.mem_filterMap]
  constructor
  · rintro ⟨t, ht, hdepth⟩
    unfold firstDepth? at hdepth
    split at hdepth
    · next m rest => exact ⟨_, ⟨_, ht, m, rfl, rfl⟩, Option.some.inj hdepth⟩
    · cases hdepth
  · rintro ⟨l, ⟨t, ht, m, hm, rfl⟩, rfl⟩
    obtain ⟨rest, rfl⟩ := List.head?_eq_some_iff.1 hm
    exact ⟨_, ht, rfl⟩

theorem deepestFirst?_eq_some_iff {depth : Nat} : ctx.deepestFirst? set = some depth ↔
    ∃ l, ctx.DeepestFirst set l ∧ (ctx.cube.level l).ordinal = depth := by
  rw [deepestFirst?_eq, List.max?_eq_some_iff]
  simp only [mem_firstDepths]
  constructor
  · rintro ⟨⟨l, hl, rfl⟩, hmax⟩
    exact ⟨l, ⟨hl, fun l' hl' => hmax _ ⟨l', hl', rfl⟩⟩, rfl⟩
  · rintro ⟨l, ⟨hl, hmax⟩, rfl⟩
    exact ⟨⟨l, hl, rfl⟩, fun _ ⟨l', hl', heq⟩ => heq ▸ hmax l' hl'⟩

theorem level_of_firstOn (hg : Cube.Graph ctx.cube)
    (hset : ∀ t ∈ set, ctx.On (.hierarchy h :: fs) t) (hl : ctx.FirstOn set l) :
    ctx.cube.Has (.level l) ∧ (ctx.cube.level l).hierarchy = h := by
  obtain ⟨t, ht, m, hm, rfl⟩ := hl
  obtain ⟨rest, rfl⟩ := List.head?_eq_some_iff.1 hm
  obtain ⟨hfacets, hhas⟩ := hset _ ht
  obtain ⟨hlevel, hsame⟩ := hg.member_level m (hhas _ List.mem_cons_self)
  exact ⟨hlevel, hsame.trans (Facet.hierarchy.inj (List.cons.inj hfacets).1)⟩

/-- The deepest level is one of the hierarchy, and the only one. -/
theorem exists_deepestFirst (hg : Cube.Graph ctx.cube)
    (hset : ∀ t ∈ set, ctx.On (.hierarchy h :: fs) t) (hfirst : ∃ l, ctx.FirstOn set l) :
    ∃ l, (∀ l', ctx.DeepestFirst set l' ↔ l' = l) ∧
      ctx.deepestFirst? set = some (ctx.cube.level l).ordinal ∧
      ctx.cube.Has (.level l) ∧ (ctx.cube.level l).hierarchy = h := by
  cases hdepth : ctx.deepestFirst? set with
  | none =>
    obtain ⟨l, hl⟩ := hfirst
    have hmem := mem_firstDepths.2 ⟨l, hl, rfl⟩
    rw [List.max?_eq_none_iff.1 (deepestFirst?_eq.symm.trans hdepth)] at hmem
    cases hmem
  | some depth =>
    obtain ⟨l, hl, rfl⟩ := deepestFirst?_eq_some_iff.1 hdepth
    obtain ⟨hlevel, hh⟩ := level_of_firstOn hg hset hl.1
    refine ⟨l, fun l' => ⟨fun hl' => ?_, fun heq => heq ▸ hl⟩, rfl, hlevel, hh⟩
    obtain ⟨hlevel', hh'⟩ := level_of_firstOn hg hset hl'.1
    have hordinal := Nat.le_antisymm (hl.2 l' hl'.1) (hl'.2 l hl.1)
    exact hg.level_ext hlevel' hlevel (hh'.trans hh.symm) hordinal

/-- Drilling the first members on a level is drilling the members of the level. Without a level it
is the deepest one that has stored first members, and where there are none, or on another
hierarchy, nothing is added. -/
theorem drilldownLevel_eq_drilldownMember {layout : CubeLayout} {catalog : Catalog} {c : Cube}
    (hbuild : Cube.build layout catalog = .ok c) {s : Scope} {set : TupleSet}
    (hhas : HasSet ⟨c, s⟩ set) {h : HierarchyId} {fs : List Facet}
    (hnodup : (.hierarchy h :: fs).Nodup) (hspans : Spans ⟨c, s⟩ (.hierarchy h :: fs) set) :
    (∀ l, c.Has (.level l) → (c.level l).hierarchy = h → drilldownLevel ⟨c, s⟩ set (some l) =
      drilldownMember ⟨c, s⟩ set (levelMembers ⟨c, s⟩ l) false) ∧
    ((∃ l, FirstOn ⟨c, s⟩ set l) → ∃ l, (∀ l', DeepestFirst ⟨c, s⟩ set l' ↔ l' = l) ∧
      c.Has (.level l) ∧ (c.level l).hierarchy = h ∧ drilldownLevel ⟨c, s⟩ set none =
        drilldownMember ⟨c, s⟩ set (levelMembers ⟨c, s⟩ l) false) ∧
    ((¬ ∃ l, FirstOn ⟨c, s⟩ set l) → drilldownLevel ⟨c, s⟩ set none = set) ∧
    ∀ l, (c.level l).hierarchy ≠ h → drilldownLevel ⟨c, s⟩ set (some l) = set := by
  have hg : Cube.Graph (Context.mk c s).cube := (Cube.built_of_build hbuild).graph
  have hset : ∀ t ∈ set, On ⟨c, s⟩ (.hierarchy h :: fs) t := fun t ht => ⟨hspans t ht, hhas t ht⟩
  refine ⟨fun l hl hlevel => ?_, fun hfirst => ?_, fun hnone => ?_, fun l hother => ?_⟩
  · exact drillFirst_eq hg hnodup hset hl hlevel (by simpa using hlevel)
  · obtain ⟨l, hunique, hdepth, hl, hlevel⟩ := exists_deepestFirst hg hset hfirst
    refine ⟨l, hunique, hl, hlevel, ?_⟩
    rw [drilldownLevel, hdepth]
    exact drillFirst_eq hg hnodup hset hl hlevel rfl
  · have hdepth : deepestFirst? ⟨c, s⟩ set = none := by
      rw [Option.eq_none_iff_forall_ne_some]
      intro depth hdepth
      obtain ⟨l, hl, -⟩ := deepestFirst?_eq_some_iff.1 hdepth
      exact hnone ⟨l, hl.1⟩
    rw [drilldownLevel, hdepth]
  -- No first member lies on the hierarchy of the level.
  · refine interleave_of_eq_nil fun t ht emitted => ?_
    split
    · next m rest =>
      have hh : (c.member m).hierarchy = h := Facet.hierarchy.inj (List.cons.inj (hspans _ ht)).1
      refine if_neg ?_
      simp [hh, hother]
    · rfl

/-- The region of the home side is the deepest first member; the levels of the away side are not
those of first members. -/
theorem drilldownLevel_eq_drilldownMember_games :
    let ctx : Context := ⟨Games.cube, .empty⟩
    let all : Tuple := [.member ⟨0⟩, .member ⟨4⟩]
    let region : Tuple := [.member ⟨1⟩, .member ⟨4⟩]
    ctx.HasSet [all, region] ∧ ctx.Spans [.hierarchy ⟨0⟩, .hierarchy ⟨1⟩] [all, region] ∧
      ctx.drilldownLevel [all, region] (some ⟨1⟩) =
        ctx.drilldownMember [all, region] [[.member ⟨1⟩]] false ∧
      (∃ l, ctx.DeepestFirst [all, region] l ∧ ctx.drilldownLevel [all, region] none =
        ctx.drilldownMember [all, region] (ctx.levelMembers l) false) ∧
      ctx.drilldownLevel [all, region] none = [all, region, [.member ⟨2⟩, .member ⟨4⟩]] ∧
      ctx.drilldownLevel [all, region] (some ⟨4⟩) = [all, region] := by
  intro ctx all region
  have hhas : ctx.HasSet [all, region] := hasSet_games [(0, 4), (1, 4)] (by decide)
  have hspans : ctx.Spans [.hierarchy ⟨0⟩, .hierarchy ⟨1⟩] [all, region] := by
    unfold Spans
    decide
  obtain ⟨hlevel, hdeepest, -, hother⟩ :=
    drilldownLevel_eq_drilldownMember Games.build_eq_cube hhas (by decide) hspans
  have hregion : Games.cube.Has (.level ⟨1⟩) := show 1 < Games.cube.levels.size by decide
  have hmembers : ctx.levelMembers ⟨1⟩ = [[.member ⟨1⟩]] := by decide
  obtain ⟨l, hunique, -, -, hnone⟩ := hdeepest ⟨_, region, by simp, ⟨1⟩, rfl, rfl⟩
  exact ⟨hhas, hspans, hmembers ▸ hlevel ⟨1⟩ hregion (by decide), ⟨l, (hunique l).2 rfl, hnone⟩,
    by decide, hother ⟨4⟩ (by decide)⟩

end Context

end CubeQuery
