import CubeQuery.Proofs.Assembly.Changes

/-!
How the objects of a cube refer to each other. Members are created row by row and levels before
their members, so the references hold at every moment of the assembly and not just at its end; this
is what makes them provable change by change.
-/

namespace CubeQuery

open Assembly

namespace Cube

/-- Every number that an object holds is in use, and references in the two directions agree. -/
structure Graph (c : Cube) : Prop where
  dimensions_size : c.dimensions.size = c.hierarchies.size
  dimension_hierarchies : ∀ d, c.Has (.dimension d) → (c.dimension d).hierarchies = [⟨d.index⟩]
  hierarchy_dimension : ∀ h, c.Has (.hierarchy h) → (c.hierarchy h).dimension = ⟨h.index⟩
  level_hierarchy : ∀ l, c.Has (.level l) → c.Has (.hierarchy (c.level l).hierarchy)
  levels_at : ∀ h, c.Has (.hierarchy h) → ∀ l i, (c.hierarchy h).levels[i]? = some l ↔
    c.Has (.level l) ∧ (c.level l).hierarchy = h ∧ (c.level l).ordinal = i
  top_level : ∀ h, c.Has (.hierarchy h) → ∃ l, (c.hierarchy h).levels[0]? = some l ∧
    (c.level l).members = #[(c.hierarchy h).allMember]
  members_at : ∀ l, c.Has (.level l) → ∀ m i, (c.level l).members[i]? = some m ↔
    c.Has (.member m) ∧ (c.member m).level = l ∧ (c.member m).position = i
  member_level : ∀ m, c.Has (.member m) → c.Has (.level (c.member m).level) ∧
    (c.level (c.member m).level).hierarchy = (c.member m).hierarchy
  parent : ∀ m p, c.Has (.member m) → (c.member m).parent? = some p → c.Has (.member p) ∧
    (c.member p).hierarchy = (c.member m).hierarchy ∧ c.depth m = c.depth p + 1
  no_parent : ∀ m, c.Has (.member m) → (c.member m).parent? = none → c.depth m = 0

namespace Graph

theorem empty (name : String) (fact : Table) : Graph (Cube.empty name fact) := by
  constructor <;> simp [Cube.empty, Has]

variable {c : Cube}

theorem level_has (hc : Graph c) {m : MemberId} (hm : c.Has (.member m)) :
    c.Has (.level (c.member m).level) :=
  (hc.member_level m hm).1

/-! ### A level -/

section Level

variable {h : HierarchyId} {name : String} {sourceColumn? : Option String}

theorem depth_withLevel (hc : Graph c) {l : Level} {m : MemberId} (hm : c.Has (.member m)) :
    (c.withLevel l).depth m = c.depth m := by
  rw [depth, depth, member_withLevel, level_withLevel_of_has (hc.level_has hm)]

theorem levels_at_withLevel (hc : Graph c) (hh : c.Has (.hierarchy h)) {i : HierarchyId}
    (hi : c.Has (.hierarchy i)) (l : LevelId) (j : Nat) :
    ((c.withLevel (c.newLevel h name sourceColumn?)).hierarchy i).levels[j]? = some l ↔
      (c.withLevel (c.newLevel h name sourceColumn?)).Has (.level l) ∧
        ((c.withLevel (c.newLevel h name sourceColumn?)).level l).hierarchy = i ∧
        ((c.withLevel (c.newLevel h name sourceColumn?)).level l).ordinal = j := by
  rw [getElem?_levels_withLevel hh, hc.levels_at i hi, has_level_withLevel]
  by_cases hl : l = ⟨c.levels.size⟩
  · subst hl
    have hfresh : ¬ c.Has (.level ⟨c.levels.size⟩) := Nat.lt_irrefl _
    rw [level_withLevel, if_pos rfl]
    constructor
    · rintro (⟨hhas, -, -⟩ | ⟨rfl, rfl, -⟩)
      · exact absurd hhas hfresh
      · exact ⟨.inl rfl, rfl, rfl⟩
    · rintro ⟨-, rfl, rfl⟩
      exact .inr ⟨rfl, rfl, rfl⟩
  · simp only [hl, false_or, and_false, or_false]
    exact and_congr_right fun hhas => by rw [level_withLevel_of_has hhas]

theorem top_level_withLevel (hc : Graph c) (hh : c.Has (.hierarchy h)) {i : HierarchyId}
    (hi : c.Has (.hierarchy i)) :
    ∃ l, ((c.withLevel (c.newLevel h name sourceColumn?)).hierarchy i).levels[0]? = some l ∧
      ((c.withLevel (c.newLevel h name sourceColumn?)).level l).members =
        #[((c.withLevel (c.newLevel h name sourceColumn?)).hierarchy i).allMember] := by
  obtain ⟨t, ht, hmembers⟩ := hc.top_level i hi
  refine ⟨t, (getElem?_levels_withLevel hh).2 (.inl ht), ?_⟩
  rw [level_withLevel_of_has ((hc.levels_at i hi t 0).1 ht).1, hierarchy_withLevel hh]
  split <;> exact hmembers

/-- The new level is the only one without members, since no member says that it is on it. -/
theorem members_at_withLevel (hc : Graph c) {i : LevelId}
    (hi : (c.withLevel (c.newLevel h name sourceColumn?)).Has (.level i)) (m : MemberId) (j : Nat) :
    ((c.withLevel (c.newLevel h name sourceColumn?)).level i).members[j]? = some m ↔
      c.Has (.member m) ∧ (c.member m).level = i ∧ (c.member m).position = j := by
  rcases has_level_withLevel.1 hi with rfl | hi
  · rw [level_withLevel, if_pos rfl]
    refine iff_of_false (by simp) ?_
    rintro ⟨hm, hlevel, -⟩
    exact Nat.lt_irrefl _ (hlevel ▸ hc.level_has hm)
  · rw [level_withLevel_of_has hi]
    exact hc.members_at i hi m j

theorem withLevel (hc : Graph c) (hh : c.Has (.hierarchy h)) :
    Graph (c.withLevel (c.newLevel h name sourceColumn?)) where
  dimensions_size := by simpa using hc.dimensions_size
  dimension_hierarchies := hc.dimension_hierarchies
  hierarchy_dimension i hi := by
    have hold := hc.hierarchy_dimension i (by simpa [Has] using hi)
    rw [hierarchy_withLevel hh]
    split <;> exact hold
  level_hierarchy i hi := by
    rcases has_level_withLevel.1 hi with rfl | hi
    · rw [level_withLevel, if_pos rfl]
      exact hh.withLevel
    · rw [level_withLevel_of_has hi]
      exact (hc.level_hierarchy i hi).withLevel
  levels_at i hi := hc.levels_at_withLevel hh (by simpa [Has] using hi)
  top_level i hi := hc.top_level_withLevel hh (by simpa [Has] using hi)
  members_at i hi := hc.members_at_withLevel hi
  member_level m hm := by
    refine ⟨(hc.level_has hm).withLevel, ?_⟩
    rw [member_withLevel, level_withLevel_of_has (hc.level_has hm)]
    exact (hc.member_level m hm).2
  parent m p hm hp := by
    obtain ⟨hhas, hhierarchy, hdepth⟩ := hc.parent m p hm hp
    rw [hc.depth_withLevel hm, hc.depth_withLevel hhas]
    exact ⟨hhas, hhierarchy, hdepth⟩
  no_parent m hm hp := (hc.depth_withLevel hm).trans (hc.no_parent m hm hp)

end Level

/-! ### A member below another -/

section Child

variable {caption : String} {l : LevelId} {p : MemberId}

theorem depth_withMember {m : Member} (hm : c.Has (.level m.level)) {i : MemberId}
    (hi : c.Has (.member i)) : (c.withMember m).depth i = c.depth i := by
  rw [depth, depth, (place_withMember hm).2, member_withMember_of_has hi]

theorem depth_newChild (hl : c.Has (.level l)) :
    (c.withMember (c.newChild caption l p)).depth ⟨c.members.size⟩ = (c.level l).ordinal := by
  rw [depth, (place_withMember hl).2, member_withMember, if_pos rfl, newChild_level]

/-- A child is never on the top level, so the All member stays the only one there. -/
theorem top_level_withChild (hc : Graph c) (hl : c.Has (.level l))
    (hordinal : (c.level l).ordinal = c.depth p + 1) {h : HierarchyId}
    (hh : c.Has (.hierarchy h)) :
    ∃ t, (c.hierarchy h).levels[0]? = some t ∧
      ((c.withMember (c.newChild caption l p)).level t).members =
        #[(c.hierarchy h).allMember] := by
  obtain ⟨t, ht, hmembers⟩ := hc.top_level h hh
  have htop : (c.level t).ordinal = 0 := ((hc.levels_at h hh t 0).1 ht).2.2
  refine ⟨t, ht, ?_⟩
  rw [level_withMember hl, if_neg, hmembers]
  rintro rfl
  exact Nat.succ_ne_zero _ (hordinal.symm.trans htop)

theorem members_at_withChild (hc : Graph c) (hl : c.Has (.level l)) {i : LevelId}
    (hi : c.Has (.level i)) (m : MemberId) (j : Nat) :
    ((c.withMember (c.newChild caption l p)).level i).members[j]? = some m ↔
      (c.withMember (c.newChild caption l p)).Has (.member m) ∧
        ((c.withMember (c.newChild caption l p)).member m).level = i ∧
        ((c.withMember (c.newChild caption l p)).member m).position = j := by
  rw [getElem?_members_withMember hl, hc.members_at i hi, has_member_withMember]
  by_cases hm : m = ⟨c.members.size⟩
  · subst hm
    have hfresh : ¬ c.Has (.member ⟨c.members.size⟩) := Nat.lt_irrefl _
    rw [member_withMember, if_pos rfl]
    constructor
    · rintro (⟨hhas, -, -⟩ | ⟨rfl, rfl, -⟩)
      · exact absurd hhas hfresh
      · exact ⟨.inl rfl, rfl, rfl⟩
    · rintro ⟨-, rfl, rfl⟩
      exact .inr ⟨rfl, rfl, rfl⟩
  · simp only [hm, false_or, and_false, or_false]
    exact and_congr_right fun hhas => by rw [member_withMember_of_has hhas]

/-- The new member has its parent above it; a member that was there keeps the one it had. -/
theorem parent_withChild (hc : Graph c) (hl : c.Has (.level l)) (hp : c.Has (.member p))
    (hhierarchy : (c.level l).hierarchy = (c.member p).hierarchy)
    (hordinal : (c.level l).ordinal = c.depth p + 1) {m q : MemberId}
    (hm : (c.withMember (c.newChild caption l p)).Has (.member m))
    (hq : ((c.withMember (c.newChild caption l p)).member m).parent? = some q) :
    (c.withMember (c.newChild caption l p)).Has (.member q) ∧
      ((c.withMember (c.newChild caption l p)).member q).hierarchy =
        ((c.withMember (c.newChild caption l p)).member m).hierarchy ∧
      (c.withMember (c.newChild caption l p)).depth m =
        (c.withMember (c.newChild caption l p)).depth q + 1 := by
  rcases has_member_withMember.1 hm with rfl | hm
  · rw [member_withMember, if_pos rfl, newChild_parent?] at hq
    obtain rfl := Option.some.inj hq
    rw [member_withMember_of_has hp, depth_withMember hl hp, depth_newChild hl, member_withMember,
      if_pos rfl]
    exact ⟨hp.withMember, hhierarchy.symm, hordinal⟩
  · rw [member_withMember_of_has hm] at hq
    obtain ⟨hhas, hsame, hbelow⟩ := hc.parent m q hm hq
    rw [member_withMember_of_has hm, member_withMember_of_has hhas, depth_withMember hl hm,
      depth_withMember hl hhas]
    exact ⟨hhas.withMember, hsame, hbelow⟩

theorem withChild (hc : Graph c) (hl : c.Has (.level l)) (hp : c.Has (.member p))
    (hhierarchy : (c.level l).hierarchy = (c.member p).hierarchy)
    (hordinal : (c.level l).ordinal = c.depth p + 1) :
    Graph (c.withMember (c.newChild caption l p)) where
  dimensions_size := hc.dimensions_size
  dimension_hierarchies := hc.dimension_hierarchies
  hierarchy_dimension := hc.hierarchy_dimension
  level_hierarchy i hi := by
    rw [(place_withMember hl).1]
    exact hc.level_hierarchy i (by simpa [Has] using hi)
  levels_at h hh i j := by
    rw [(place_withMember hl).1, (place_withMember hl).2]
    simpa [Has] using hc.levels_at h hh i j
  top_level h hh := hc.top_level_withChild hl hordinal hh
  members_at i hi := hc.members_at_withChild hl (by simpa [Has] using hi)
  member_level m hm := by
    rw [(place_withMember hl).1]
    rcases has_member_withMember.1 hm with rfl | hm
    · rw [member_withMember, if_pos rfl]
      exact ⟨hl.withMember, rfl⟩
    · rw [member_withMember_of_has hm]
      exact ⟨(hc.level_has hm).withMember, (hc.member_level m hm).2⟩
  parent m q hm hq := hc.parent_withChild hl hp hhierarchy hordinal hm hq
  no_parent m hm hq := by
    have hm := has_of_parent?_withChild hm hq
    rw [member_withMember_of_has hm] at hq
    exact (depth_withMember hl hm).trans (hc.no_parent m hm hq)

end Child

/-! ### A hierarchy with its All member -/

section Root

variable {layout : DimensionLayout} {kind : HierarchyKind} {caption : String}

theorem depth_withRoot (hc : Graph c) {m : MemberId} (hm : c.Has (.member m)) :
    (c.withRoot layout kind caption).depth m = c.depth m := by
  rw [depth, depth, member_withRoot_of_has hm, level_withRoot_of_has (hc.level_has hm)]

/-- The new hierarchy lists the new level alone, and the new level is in no other hierarchy. -/
theorem levels_at_withRoot (hc : Graph c) {i : HierarchyId}
    (hi : (c.withRoot layout kind caption).Has (.hierarchy i)) (l : LevelId) (j : Nat) :
    ((c.withRoot layout kind caption).hierarchy i).levels[j]? = some l ↔
      (c.withRoot layout kind caption).Has (.level l) ∧
        ((c.withRoot layout kind caption).level l).hierarchy = i ∧
        ((c.withRoot layout kind caption).level l).ordinal = j := by
  rw [has_level_withRoot]
  by_cases hl : l = ⟨c.levels.size⟩
  · subst hl
    have hfresh : ¬ c.Has (.level ⟨c.levels.size⟩) := Nat.lt_irrefl _
    rw [level_withRoot, if_pos rfl]
    rcases has_hierarchy_withRoot.1 hi with rfl | hi
    · rw [hierarchy_withRoot, if_pos rfl]
      cases j <;> simp
    · have hne : (⟨c.hierarchies.size⟩ : HierarchyId) ≠ i := by
        rintro rfl
        exact Nat.lt_irrefl _ hi
      rw [hierarchy_withRoot_of_has hi, hc.levels_at i hi]
      simp [hfresh, hne]
  · simp only [hl, false_or]
    rcases has_hierarchy_withRoot.1 hi with rfl | hi
    · rw [hierarchy_withRoot, if_pos rfl]
      refine iff_of_false (fun h => hl (by simpa using List.mem_of_getElem? h)) ?_
      rintro ⟨hhas, hhierarchy, -⟩
      rw [level_withRoot_of_has hhas] at hhierarchy
      exact Nat.lt_irrefl _ (hhierarchy ▸ hc.level_hierarchy l hhas)
    · rw [hierarchy_withRoot_of_has hi, hc.levels_at i hi]
      exact and_congr_right fun hhas => by rw [level_withRoot_of_has hhas]

theorem top_level_withRoot (hc : Graph c) {i : HierarchyId}
    (hi : (c.withRoot layout kind caption).Has (.hierarchy i)) :
    ∃ l, ((c.withRoot layout kind caption).hierarchy i).levels[0]? = some l ∧
      ((c.withRoot layout kind caption).level l).members =
        #[((c.withRoot layout kind caption).hierarchy i).allMember] := by
  rcases has_hierarchy_withRoot.1 hi with rfl | hi
  · rw [hierarchy_withRoot, if_pos rfl]
    exact ⟨⟨c.levels.size⟩, rfl, by simp [level_withRoot, newHierarchy]⟩
  · obtain ⟨t, ht, hmembers⟩ := hc.top_level i hi
    rw [hierarchy_withRoot_of_has hi]
    refine ⟨t, ht, ?_⟩
    rwa [level_withRoot_of_has ((hc.levels_at i hi t 0).1 ht).1]

/-- The new level lists the new All member alone, and that member is on no other level. -/
theorem members_at_withRoot (hc : Graph c) {i : LevelId}
    (hi : (c.withRoot layout kind caption).Has (.level i)) (m : MemberId) (j : Nat) :
    ((c.withRoot layout kind caption).level i).members[j]? = some m ↔
      (c.withRoot layout kind caption).Has (.member m) ∧
        ((c.withRoot layout kind caption).member m).level = i ∧
        ((c.withRoot layout kind caption).member m).position = j := by
  rw [has_member_withRoot]
  by_cases hm : m = ⟨c.members.size⟩
  · subst hm
    have hfresh : ¬ c.Has (.member ⟨c.members.size⟩) := Nat.lt_irrefl _
    rw [member_withRoot, if_pos rfl]
    rcases has_level_withRoot.1 hi with rfl | hi
    · rw [level_withRoot, if_pos rfl]
      cases j <;> simp
    · have hne : (⟨c.levels.size⟩ : LevelId) ≠ i := by
        rintro rfl
        exact Nat.lt_irrefl _ hi
      rw [level_withRoot_of_has hi, hc.members_at i hi]
      simp [hfresh, hne]
  · simp only [hm, false_or]
    rcases has_level_withRoot.1 hi with rfl | hi
    · rw [level_withRoot, if_pos rfl]
      refine iff_of_false (fun h => hm (by simpa using Array.mem_of_getElem? h)) ?_
      rintro ⟨hhas, hlevel, -⟩
      rw [member_withRoot_of_has hhas] at hlevel
      exact Nat.lt_irrefl _ (hlevel ▸ hc.level_has hhas)
    · rw [level_withRoot_of_has hi, hc.members_at i hi]
      exact and_congr_right fun hhas => by rw [member_withRoot_of_has hhas]

theorem withRoot (hc : Graph c) : Graph (c.withRoot layout kind caption) where
  dimensions_size := by simp [hc.dimensions_size]
  dimension_hierarchies i hi := by
    rcases has_dimension_withRoot.1 hi with rfl | hi
    · simp [dimension_withRoot, newDimension, hc.dimensions_size]
    · rw [dimension_withRoot_of_has hi]
      exact hc.dimension_hierarchies i hi
  hierarchy_dimension i hi := by
    rcases has_hierarchy_withRoot.1 hi with rfl | hi
    · simp [hierarchy_withRoot, newHierarchy, hc.dimensions_size]
    · rw [hierarchy_withRoot_of_has hi]
      exact hc.hierarchy_dimension i hi
  level_hierarchy i hi := by
    rcases has_level_withRoot.1 hi with rfl | hi
    · rw [level_withRoot, if_pos rfl]
      exact has_hierarchy_withRoot.2 (.inl rfl)
    · rw [level_withRoot_of_has hi]
      exact (hc.level_hierarchy i hi).withRoot
  levels_at i hi := hc.levels_at_withRoot hi
  top_level i hi := hc.top_level_withRoot hi
  members_at i hi := hc.members_at_withRoot hi
  member_level m hm := by
    rcases has_member_withRoot.1 hm with rfl | hm
    · simp [member_withRoot, level_withRoot, Has]
    · rw [member_withRoot_of_has hm, level_withRoot_of_has (hc.level_has hm)]
      exact ⟨(hc.level_has hm).withRoot, (hc.member_level m hm).2⟩
  parent m p hm hp := by
    have hm := has_of_parent?_withRoot hm hp
    rw [member_withRoot_of_has hm] at hp ⊢
    obtain ⟨hhas, hhierarchy, hdepth⟩ := hc.parent m p hm hp
    rw [member_withRoot_of_has hhas, hc.depth_withRoot hm, hc.depth_withRoot hhas]
    exact ⟨hhas.withRoot, hhierarchy, hdepth⟩
  no_parent m hm hp := by
    rcases has_member_withRoot.1 hm with rfl | hm
    · simp [depth, member_withRoot, level_withRoot]
    · rw [member_withRoot_of_has hm] at hp
      exact (hc.depth_withRoot hm).trans (hc.no_parent m hm hp)

end Root

/-! ### Any change -/

theorem withRow {row : Nat} {m : MemberId} (hc : Graph c) : Graph (c.withRow row m) :=
  ⟨hc.1, hc.2, hc.3, hc.4, hc.5, hc.6, hc.7, hc.8, hc.9, hc.10⟩

theorem withMeasure {m : Measure} (hc : Graph c) : Graph (c.withMeasure m) :=
  ⟨hc.1, hc.2, hc.3, hc.4, hc.5, hc.6, hc.7, hc.8, hc.9, hc.10⟩

theorem change {c' : Cube} (hc : Graph c) (h : Change c c') : Graph c' := by
  cases h with
  | root h₁ h₂ h₃ =>
    obtain ⟨-, -, -, rfl⟩ := yields_root h₁ h₂ h₃
    exact hc.withRoot
  | level hh h =>
    obtain ⟨-, -, rfl⟩ := yields_addLevel.1 h
    exact hc.withLevel hh
  | child hl hp hhierarchy hordinal h =>
    obtain ⟨-, -, rfl⟩ := yields_addChild.1 h
    exact hc.withChild hl hp hhierarchy hordinal
  | row hm hrow h =>
    obtain rfl := yields_attachRow.1 h
    exact hc.withRow
  | measure h =>
    obtain ⟨_, _, -, -, -, -, -, rfl⟩ := yields_addMeasure.1 h
    exact hc.withMeasure

theorem grows {c' : Cube} (hc : Graph c) (h : Grows c c') : Graph c' := by
  induction h with
  | refl => exact hc
  | tail _ hchange ih => exact ih.change hchange

end Graph

end Cube

end CubeQuery
