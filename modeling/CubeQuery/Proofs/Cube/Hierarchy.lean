import CubeQuery.Proofs.Cube.Graph

/-!
Finding one's way in a hierarchy: where its All member stands, and what the place of a member says
about the member.
-/

namespace CubeQuery

namespace Cube

namespace Graph

variable {c : Cube} {h : HierarchyId} {l : LevelId} {m m' p : MemberId}

theorem level_ext {l' : LevelId} (hc : Graph c) (hl : c.Has (.level l)) (hl' : c.Has (.level l'))
    (hhierarchy : (c.level l).hierarchy = (c.level l').hierarchy)
    (hordinal : (c.level l).ordinal = (c.level l').ordinal) : l = l' := by
  have h₁ := (hc.levels_at _ (hc.level_hierarchy l hl) l _).2 ⟨hl, rfl, rfl⟩
  have h₂ := (hc.levels_at _ (hc.level_hierarchy l hl) l' (c.level l).ordinal).2
    ⟨hl', hhierarchy.symm, hordinal.symm⟩
  exact Option.some.inj (h₁.symm.trans h₂)

theorem level_eq (hc : Graph c) (hl : c.Has (.level l)) (hm : c.Has (.member m))
    (hhierarchy : (c.level l).hierarchy = (c.member m).hierarchy)
    (hordinal : (c.level l).ordinal = c.depth m) : (c.member m).level = l := by
  obtain ⟨hlevel, hsame⟩ := hc.member_level m hm
  exact hc.level_ext hlevel hl (hsame.trans hhierarchy.symm) hordinal.symm

/-- A member is determined by its level and its position there. -/
theorem member_ext (hc : Graph c) (hm : c.Has (.member m)) (hm' : c.Has (.member m'))
    (hlevel : (c.member m).level = (c.member m').level)
    (hposition : (c.member m).position = (c.member m').position) : m = m' := by
  have h₁ := (hc.members_at _ (hc.level_has hm) m _).2 ⟨hm, rfl, rfl⟩
  have h₂ := (hc.members_at _ (hc.level_has hm) m' (c.member m).position).2
    ⟨hm', hlevel.symm, hposition.symm⟩
  exact Option.some.inj (h₁.symm.trans h₂)

theorem hierarchy_has (hc : Graph c) (hm : c.Has (.member m)) :
    c.Has (.hierarchy (c.member m).hierarchy) := by
  obtain ⟨hlevel, hsame⟩ := hc.member_level m hm
  exact hsame ▸ hc.level_hierarchy _ hlevel

/-- A member stands at the depth of its level. -/
theorem depth_eq (hc : Graph c) (hl : c.Has (.level l)) (hm : m ∈ (c.level l).members) :
    c.Has (.member m) ∧ (c.member m).hierarchy = (c.level l).hierarchy ∧
      c.depth m = (c.level l).ordinal := by
  obtain ⟨i, hi⟩ := Array.mem_iff_getElem?.1 hm
  obtain ⟨hhas, rfl, -⟩ := (hc.members_at l hl m i).1 hi
  exact ⟨hhas, (hc.member_level m hhas).2.symm, rfl⟩

theorem mem_members (hc : Graph c) (hm : c.Has (.member m)) :
    m ∈ (c.level (c.member m).level).members :=
  Array.mem_iff_getElem?.2
    ⟨_, (hc.members_at _ (hc.level_has hm) m _).2 ⟨hm, rfl, rfl⟩⟩

theorem allMember (hc : Graph c) (hh : c.Has (.hierarchy h)) :
    c.Has (.member (c.hierarchy h).allMember) ∧
      (c.member (c.hierarchy h).allMember).hierarchy = h ∧
      c.depth (c.hierarchy h).allMember = 0 := by
  obtain ⟨t, ht, hmembers⟩ := hc.top_level h hh
  obtain ⟨hlevel, hsame, hordinal⟩ := (hc.levels_at h hh t 0).1 ht
  obtain ⟨hhas, hhierarchy, hdepth⟩ :=
    hc.depth_eq hlevel (m := (c.hierarchy h).allMember) (by simp [hmembers])
  exact ⟨hhas, hhierarchy.trans hsame, hdepth.trans hordinal⟩

/-- Only the All member stands at the top. -/
theorem eq_allMember (hc : Graph c) (hm : c.Has (.member m)) (hdepth : c.depth m = 0) :
    m = (c.hierarchy (c.member m).hierarchy).allMember := by
  obtain ⟨t, ht, hmembers⟩ := hc.top_level _ (hc.hierarchy_has hm)
  obtain ⟨hlevel, hsame, hordinal⟩ := (hc.levels_at _ (hc.hierarchy_has hm) t 0).1 ht
  have hlevel := hc.level_eq hlevel hm hsame (hordinal.trans hdepth.symm)
  have hmem := hc.mem_members hm
  rw [hlevel, hmembers] at hmem
  simpa using hmem

theorem parent?_eq_none_iff (hc : Graph c) (hm : c.Has (.member m)) :
    (c.member m).parent? = none ↔ c.depth m = 0 := by
  constructor
  · exact hc.no_parent m hm
  · intro hdepth
    cases hp : (c.member m).parent? with
    | none => rfl
    | some p => exact absurd (hc.parent m p hm hp).2.2 (by omega)

theorem parent?_eq_none_iff_allMember (hc : Graph c) (hm : c.Has (.member m)) :
    (c.member m).parent? = none ↔ m = (c.hierarchy (c.member m).hierarchy).allMember := by
  rw [hc.parent?_eq_none_iff hm]
  constructor
  · exact hc.eq_allMember hm
  · intro heq
    rw [heq]
    exact (hc.allMember (hc.hierarchy_has hm)).2.2

theorem exists_parent (hc : Graph c) (hm : c.Has (.member m)) (hdepth : c.depth m ≠ 0) :
    ∃ p, (c.member m).parent? = some p :=
  Option.ne_none_iff_exists'.1 fun hp => hdepth (hc.no_parent m hm hp)

/-! ### Children -/

theorem mem_memberChildren (hc : Graph c) (hp : c.Has (.member p)) :
    m ∈ c.memberChildren p ↔ c.Has (.member m) ∧ (c.member m).parent? = some p := by
  have hlevels := hc.levels_at _ (hc.hierarchy_has hp)
  unfold memberChildren levelBelow?
  constructor
  · intro hm
    cases hbelow : (c.hierarchy (c.member p).hierarchy).levels[c.depth p + 1]? with
    | none => simp [hbelow] at hm
    | some below =>
      simp only [hbelow, List.mem_filter, Array.mem_toList_iff, beq_iff_eq] at hm
      exact ⟨(hc.depth_eq ((hlevels below _).1 hbelow).1 hm.1).1, hm.2⟩
  · rintro ⟨hm, hparent⟩
    obtain ⟨-, hhierarchy, hdepth⟩ := hc.parent m p hm hparent
    obtain ⟨hlevel, hsame⟩ := hc.member_level m hm
    have hbelow := (hlevels (c.member m).level (c.depth p + 1)).2
      ⟨hlevel, hsame.trans hhierarchy.symm, hdepth⟩
    simp only [hbelow, List.mem_filter, Array.mem_toList_iff, beq_iff_eq]
    exact ⟨hc.mem_members hm, hparent⟩

theorem pairwise_members (hc : Graph c) (hl : c.Has (.level l)) :
    (c.level l).members.toList.Pairwise fun m m' =>
      (c.member m).position < (c.member m').position := by
  rw [List.pairwise_iff_getElem]
  intro i j hi hj hij
  have hat {k : Nat} (hk : k < (c.level l).members.toList.length) :
      (c.member (c.level l).members.toList[k]).position = k := by
    refine ((hc.members_at l hl _ k).1 ?_).2.2
    rw [← Array.getElem?_toList, List.getElem?_eq_getElem hk]
  rw [hat hi, hat hj]
  exact hij

/-- Children come in the order of their level, each once. -/
theorem pairwise_memberChildren (hc : Graph c) (hp : c.Has (.member p)) :
    (c.memberChildren p).Pairwise fun m m' =>
      (c.member m).position < (c.member m').position := by
  unfold memberChildren levelBelow?
  cases hbelow : (c.hierarchy (c.member p).hierarchy).levels[c.depth p + 1]? with
  | none => exact .nil
  | some below =>
    have hlevel := ((hc.levels_at _ (hc.hierarchy_has hp) below _).1 hbelow).1
    exact (hc.pairwise_members hlevel).filter _

/-- Children belong to the hierarchy of their parent and stand one level below it. -/
theorem memberChildren_below (hc : Graph c) (hp : c.Has (.member p))
    (hm : m ∈ c.memberChildren p) : c.Has (.member m) ∧
      (c.member m).hierarchy = (c.member p).hierarchy ∧ c.depth m = c.depth p + 1 := by
  obtain ⟨hhas, hparent⟩ := (hc.mem_memberChildren hp).1 hm
  obtain ⟨-, hsame, hdepth⟩ := hc.parent m p hhas hparent
  exact ⟨hhas, hsame.symm, hdepth⟩

theorem nodup_memberChildren (hc : Graph c) (hp : c.Has (.member p)) :
    (c.memberChildren p).Nodup :=
  (hc.pairwise_memberChildren hp).imp fun hlt heq => by simp [heq] at hlt

end Graph

end Cube

end CubeQuery
