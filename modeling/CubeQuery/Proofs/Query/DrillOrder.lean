import CubeQuery.Proofs.Query.Drilling

/-!
Drilling down a reordered set. Each tuple takes its block along; which block a new tuple falls into
depends on the order, but not which tuples there are. Only where a tuple can come about in two ways,
of which one goes on to its children and the other does not, the order decides between them.
-/

namespace CubeQuery

open CubeQuery.Language

/-- Blocks moved to the end of a list leave the list. -/
theorem zipWith_cons_flatten_perm {α : Type} {xs : List α} {blocks : List (List α)}
    (hlength : xs.length = blocks.length) :
    (xs.zipWith List.cons blocks).flatten.Perm (xs ++ blocks.flatten) := by
  induction xs generalizing blocks with
  | nil =>
    obtain rfl := List.length_eq_zero_iff.1 hlength.symm
    exact .refl _
  | cons x xs ih =>
    obtain ⟨block, rest, rfl⟩ := List.exists_cons_of_length_eq_add_one hlength.symm
    rw [List.zipWith_cons_cons, List.flatten_cons, List.flatten_cons, List.cons_append,
      List.cons_append]
    refine .cons x ?_
    calc (block ++ (xs.zipWith List.cons rest).flatten).Perm (block ++ (xs ++ rest.flatten)) :=
          (ih (Nat.succ.inj hlength)).append_left block
      _ |>.Perm (xs ++ (block ++ rest.flatten)) := List.perm_append_comm_assoc ..

namespace Context

variable {ctx : Context} {targets : List Element} {recursive : Bool}
  {set set' : TupleSet} {blocks blocks' : List TupleSet}

theorem Unambiguous.perm (h : ctx.Unambiguous targets set) (hperm : set'.Perm set) :
    ctx.Unambiguous targets set' := by
  intro t ht t' ht' p e d p' e' d' hfirst hputs hfirst' hputs' heq hnew
  exact h t (hperm.subset ht) t' (hperm.subset ht') p e d p' e' d' hfirst hputs hfirst' hputs' heq
    (mt hperm.mem_iff.2 hnew)

/-- No block holds a tuple twice, so that what they hold is all that counts. -/
theorem BlocksDrilled.perm (hg : Cube.Graph ctx.cube) (hhas : ctx.HasSet set)
    (hperm : set'.Perm set) (hsame : recursive = true → ctx.Unambiguous targets set)
    (h : ctx.BlocksDrilled targets recursive set [] set blocks)
    (h' : ctx.BlocksDrilled targets recursive set' [] set' blocks') :
    blocks'.flatten.Perm blocks.flatten := by
  refine (List.perm_ext_iff_of_nodup h'.fresh.nodup h.fresh.nodup).2 fun u => ?_
  have hhas' : ctx.HasSet set' := fun t ht => hhas t (hperm.subset ht)
  have hsame' (hflag : recursive = true) := (hsame hflag).perm hperm
  -- Tuples of the set are in no block, whatever the order.
  by_cases hold : u ∈ set
  · have hold' : u ∈ set' := hperm.mem_iff.2 hold
    exact ⟨fun hu => absurd hold' (h'.fresh.absent u hu),
      fun hu => absurd hold (h.fresh.absent u hu)⟩
  · have hold' : u ∉ set' := mt hperm.mem_iff.1 hold
    rw [h'.mem_iff hg hhas' hsame' hold', h.mem_iff hg hhas hsame hold]
    simp only [hperm.mem_iff]

/-- Drilling down gives the same tuples for all orders of a set, with recursion as long as whatever
leads to a new tuple agrees on whether drilling goes on from it. -/
theorem drilldownMember_perm {layout : CubeLayout} {catalog : Catalog} {c : Cube}
    (hbuild : Cube.build layout catalog = .ok c) {s : Scope} {set set' targets : TupleSet}
    (hhas : HasSet ⟨c, s⟩ set) (hperm : set'.Perm set) {recursive : Bool}
    (hsame : recursive = true → Unambiguous ⟨c, s⟩ targets.flatten set) :
    (drilldownMember ⟨c, s⟩ set' targets recursive).Perm
      (drilldownMember ⟨c, s⟩ set targets recursive) := by
  have hg : Cube.Graph (Context.mk c s).cube := (Cube.built_of_build hbuild).graph
  have hhas' : HasSet ⟨c, s⟩ set' := fun t ht => hhas t (hperm.subset ht)
  have h : BlocksDrilled ⟨c, s⟩ targets.flatten recursive set [] set _ :=
    drilled_blocksOf hg hhas []
  have h' : BlocksDrilled ⟨c, s⟩ targets.flatten recursive set' [] set' _ :=
    drilled_blocksOf hg hhas' []
  have hblocks := h.perm hg hhas hperm hsame h'
  rw [drilldownMember, drilldownMember, interleave_eq, interleave_eq]
  exact (zipWith_cons_flatten_perm h'.stems.length_eq).trans
    ((hperm.append hblocks).trans (zipWith_cons_flatten_perm h.stems.length_eq).symm)

theorem hasSet_games (pairs : List (Nat × Nat)) (h : ∀ p ∈ pairs, p.1 < 6 ∧ p.2 < 6) :
    HasSet ⟨Games.cube, .empty⟩ (pairs.map fun p => [.member ⟨p.1⟩, .member ⟨p.2⟩]) := by
  have hsize : Games.cube.members.size = 6 := by decide
  intro t ht
  obtain ⟨p, hp, rfl⟩ := List.mem_map.1 ht
  obtain ⟨hhome, haway⟩ := h p hp
  refine List.forall_mem_cons.2 ⟨?_, List.forall_mem_singleton.2 ?_⟩
  · exact show p.1 < Games.cube.members.size from hsize ▸ hhome
  · exact show p.2 < Games.cube.members.size from hsize ▸ haway

/-- The targets are on both hierarchies, but those on the first one come first. -/
theorem drilldownMember_perm_games :
    let ctx : Context := ⟨Games.cube, .empty⟩
    let first : Tuple := [.member ⟨0⟩, .member ⟨3⟩]
    let second : Tuple := [.member ⟨0⟩, .member ⟨4⟩]
    let targets : TupleSet := [[.member ⟨0⟩, .member ⟨4⟩], [.member ⟨1⟩, .member ⟨4⟩]]
    ctx.HasSet [first, second] ∧ [second, first].Perm [first, second] ∧
      ctx.Unambiguous targets.flatten [first, second] ∧
      (ctx.drilldownMember [second, first] targets true).Perm
        (ctx.drilldownMember [first, second] targets true) ∧
      (ctx.drilldownMember [first, second] targets true).length = 6 := by
  intro ctx first second targets
  have hhas : ctx.HasSet [first, second] := hasSet_games [(0, 3), (0, 4)] (by decide)
  have hperm : [second, first].Perm [first, second] := .swap ..
  have hsame : ctx.Unambiguous targets.flatten [first, second] := by
    refine unambiguous_of_position (p := 0) fun t ht q e hfirst => ?_
    have hall : FirstTarget targets.flatten t 0 (.member ⟨0⟩) := by
      rcases List.mem_pair.1 ht with rfl | rfl <;> exact ⟨rfl, by decide, by simp⟩
    exact (hfirst.unique hall).1
  exact ⟨hhas, hperm, hsame,
    drilldownMember_perm Games.build_eq_cube hhas hperm fun _ => hsame, by decide⟩

/-- Both tuples lead to that of the two regions: the first one by putting in the home side's, which
is no target, the second one by putting in the away side's, which is one. Where the first tuple
comes first, the city of the away side is left out. -/
theorem drilldownMember_order_matters :
    let ctx : Context := ⟨Games.cube, .empty⟩
    let first : Tuple := [.member ⟨0⟩, .member ⟨4⟩]
    let second : Tuple := [.member ⟨1⟩, .member ⟨3⟩]
    let targets : TupleSet := [[.member ⟨0⟩, .member ⟨3⟩], [.member ⟨0⟩, .member ⟨4⟩]]
    Cube.build Games.layout Games.catalog = .ok Games.cube ∧ ctx.HasSet [first, second] ∧
      ctx.Uniform [first, second] ∧ ctx.Uniform targets ∧ [second, first].Perm [first, second] ∧
      ctx.drilldownMember [first, second] targets true =
        [first, [.member ⟨1⟩, .member ⟨4⟩], second] ∧
      ctx.drilldownMember [second, first] targets true =
        [second, [.member ⟨1⟩, .member ⟨4⟩], [.member ⟨1⟩, .member ⟨5⟩], first] ∧
      ¬ (ctx.drilldownMember [second, first] targets true).Perm
        (ctx.drilldownMember [first, second] targets true) := by
  intro ctx first second targets
  have hfacets : ∀ t ∈ [first, second] ++ targets,
      ctx.facets t = [.hierarchy ⟨0⟩, .hierarchy ⟨1⟩] := by decide
  have hhas : ctx.HasSet [first, second] := hasSet_games [(0, 4), (1, 3)] (by decide)
  have huniform : ctx.Uniform [first, second] :=
    ⟨_, by decide, fun t ht => hfacets t (List.mem_append_left _ ht)⟩
  have htargets : ctx.Uniform targets :=
    ⟨_, by decide, fun t ht => hfacets t (List.mem_append_right _ ht)⟩
  exact ⟨Games.build_eq_cube, hhas, huniform, htargets, .swap .., by decide, by decide,
    fun h => absurd h.length_eq (by decide)⟩

end Context

end CubeQuery
