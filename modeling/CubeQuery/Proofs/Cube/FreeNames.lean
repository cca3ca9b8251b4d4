import CubeQuery.Proofs.Cube.Titles

/-!
Which unique names are still free. The name of a new dimension is free if no dimension has its name,
that of a new level if neither another level of the hierarchy nor its All member has it, and that of
a new member if its parent has no other child with this caption.
-/

namespace CubeQuery

open Assembly CubeQuery.Language

namespace Cube

/-- The names of the levels of a hierarchy, from the top down. -/
def levelNames (c : Cube) (h : HierarchyId) : List String :=
  (c.hierarchy h).levels.map fun l => (c.level l).name

theorem Graph.mem_levelNames {c : Cube} {h : HierarchyId} {name : String} (hc : Graph c)
    (hh : c.Has (.hierarchy h)) : name ∈ c.levelNames h ↔
      ∃ l, c.Has (.level l) ∧ (c.level l).hierarchy = h ∧ (c.level l).name = name := by
  rw [levelNames, List.mem_map]
  refine exists_congr fun l => ?_
  rw [← and_assoc]
  refine and_congr_left fun _ => ?_
  rw [List.mem_iff_getElem?]
  simp only [hc.levels_at h hh, exists_and_left, exists_eq', and_true]

/-- All that is known of a cube at every moment of the assembly. -/
structure Coherent (c : Cube) : Prop where
  graph : Graph c
  named : Named c
  content : Content c
  titled : Titled c

namespace Coherent

variable {c c' : Cube} {h : HierarchyId} {l : LevelId} {m p q : MemberId} {e e' : Entity}
  {name caption : String}

theorem empty (name : String) (fact : Table) : Coherent (Cube.empty name fact) :=
  ⟨.empty _ _, .empty _ _, .empty _ _, .empty _ _⟩

theorem grows (hc : Coherent c) (h : Grows c c') : Coherent c' := by
  refine ⟨hc.graph.grows h, hc.named.grows h, hc.content.grows hc.graph h, ?_⟩
  induction h with
  | refl => exact hc.titled
  | tail hgrows hchange ih => exact ih.change (hc.graph.grows hgrows) hchange

theorem title_ne_nil : c.title e ≠ [] := by
  cases e with
  | member m =>
    rw [title]
    split <;> simp
  | _ => simp [title]

theorem title_child (hc : Coherent c) (hm : c.Has (.member m))
    (hp : (c.member m).parent? = some p) : c.title (.member m) =
      c.title (.level (c.member m).level) ++
        ((c.member p).captions ++ [(c.member m).caption]) := by
  rw [title, title, hp, (hc.graph.member_level m hm).2, ← hc.content.captions m p hm hp]
  rfl

theorem uniqueName_eq (hc : Coherent c) (he : c.Has e) :
    c.uniqueName e = bracketedPath (c.title e) := by
  cases e with
  | dimension d => exact (hc.titled.dimension d he).1
  | hierarchy h => exact hc.titled.hierarchy h he
  | level l => exact hc.titled.level l he
  | measure m => exact hc.titled.measure m he
  | member m =>
    cases hp : (c.member m).parent? with
    | none => exact hc.titled.all m he hp
    | some p =>
      rw [uniqueName, hc.content.uniqueName m p he hp, hc.content.captions m p he hp,
        hc.titled.level _ (hc.graph.level_has he), hc.title_child he hp,
        bracketedPath_append title_ne_nil (by simp)]

/-- Different objects have different titles. -/
theorem title_injective (hc : Coherent c) (he : c.Has e) (he' : c.Has e')
    (h : c.title e = c.title e') : e = e' := by
  have hname : c.uniqueName e' = c.uniqueName e := by
    rw [hc.uniqueName_eq he, hc.uniqueName_eq he', h]
  exact Option.some.inj (((hc.named.names_iff _ _).2 ⟨he, rfl⟩).symm.trans
    ((hc.named.names_iff _ _).2 ⟨he', hname⟩))

theorem hierarchy_ext {h' : HierarchyId} (hc : Coherent c) (hh : c.Has (.hierarchy h))
    (hh' : c.Has (.hierarchy h')) (hname : c.hierarchyName h = c.hierarchyName h') : h = h' :=
  Entity.hierarchy.inj (hc.title_injective hh hh' (by rw [title, title, hname]))

theorem names_eq_none_iff (hc : Coherent c) {segments : List String} (hne : segments ≠ []) :
    c.names[bracketedPath segments]? = none ↔ ∀ e, c.Has e → c.title e ≠ segments := by
  rw [Option.eq_none_iff_forall_ne_some]
  refine forall_congr' fun e => ?_
  rw [ne_eq, hc.named.names_iff, not_and]
  refine imp_congr_right fun he => not_congr ?_
  rw [hc.uniqueName_eq he]
  exact ⟨bracketedPath_injective title_ne_nil hne, congrArg _⟩

/-! ### Dimensions and measures -/

theorem title_head (hc : Coherent c) (he : c.Has e) :
    (∃ h, c.Has (.hierarchy h) ∧ (c.title e).head? = some (c.hierarchyName h)) ∨
      ∃ m, e = .measure m ∧ (c.title e).head? = some "Measures" := by
  cases e with
  | dimension d =>
    refine .inl ⟨⟨d.index⟩, by simpa [Has, ← hc.graph.dimensions_size] using he, ?_⟩
    rw [title, (hc.titled.dimension d he).2]
    rfl
  | hierarchy h => exact .inl ⟨h, he, rfl⟩
  | level l => exact .inl ⟨_, hc.graph.level_hierarchy l he, rfl⟩
  | member m =>
    refine .inl ⟨_, hc.graph.hierarchy_has he, ?_⟩
    rw [title]
    split <;> rfl
  | measure m => exact .inr ⟨m, rfl, rfl⟩

/-- Nothing is called after a dimension that is not there yet. -/
theorem free_of_new (hc : Coherent c) (hnew : ∀ h, c.Has (.hierarchy h) → c.hierarchyName h ≠ name)
    (hname : name ≠ "Measures") (rest : List String) :
    c.names[bracketedPath (name :: rest)]? = none := by
  rw [hc.names_eq_none_iff (by simp)]
  intro e he heq
  have hhead := hc.title_head he
  rw [heq] at hhead
  rcases hhead with ⟨h, hh, hsame⟩ | ⟨m, -, hsame⟩
  · exact hnew h hh (Option.some.inj hsame).symm
  · exact hname (Option.some.inj hsame)

theorem free_measure (hc : Coherent c)
    (hnew : ∀ h, c.Has (.hierarchy h) → c.hierarchyName h ≠ "Measures")
    (hother : ∀ m, c.Has (.measure m) → (c.measure m).name ≠ name) :
    c.names[bracketedPath ["Measures", name]]? = none := by
  rw [hc.names_eq_none_iff (by simp)]
  intro e he heq
  cases e with
  | hierarchy h => exact hnew h he (List.cons.inj heq).1
  | measure m => exact hother m he (by simpa [title] using heq)
  | member m =>
    rw [title] at heq
    split at heq <;> simp at heq
  | _ => simp [title] at heq

/-! ### Levels -/

theorem free_level_iff (hc : Coherent c) {sourceColumn? : Option String}
    (hh : c.Has (.hierarchy h)) :
    c.names[(c.newLevel h name sourceColumn?).uniqueName]? = none ↔
      name ∉ c.levelNames h ∧ name ≠ (c.member (c.hierarchy h).allMember).caption := by
  rw [newLevel_uniqueName (hc.titled.hierarchy h hh), hc.names_eq_none_iff (by simp),
    hc.graph.mem_levelNames hh]
  obtain ⟨hall, hhierarchy, hdepth⟩ := hc.graph.allMember hh
  constructor
  · intro hfree
    constructor
    · rintro ⟨l, hl, rfl, rfl⟩
      exact hfree (.level l) hl rfl
    · rintro rfl
      refine hfree (.member _) hall ?_
      rw [title, (hc.graph.parent?_eq_none_iff hall).2 hdepth, hhierarchy]
      rfl
  · rintro ⟨hlevel, hcaption⟩ e he heq
    -- Only levels and All members have titles of this length.
    cases e with
    | level l =>
      simp only [title, List.cons.injEq, and_true] at heq
      exact hlevel
        ⟨l, he, hc.hierarchy_ext (hc.graph.level_hierarchy l he) hh heq.1, heq.2.2⟩
    | member m =>
      cases hp : (c.member m).parent? with
      | none =>
        simp only [title, hp, Option.isNone_none, if_true, List.cons.injEq, and_true] at heq
        have hsame := hc.hierarchy_ext (hc.graph.hierarchy_has he) hh heq.1
        have := (hc.graph.parent?_eq_none_iff_allMember he).1 hp
        rw [hsame] at this
        exact hcaption (this ▸ heq.2.2.symm)
      | some p =>
        rw [hc.title_child he hp] at heq
        simp [title] at heq
    | _ => simp [title] at heq

/-! ### Members -/

theorem newChild_uniqueName (hc : Coherent c) (hl : c.Has (.level l)) :
    (c.newChild caption l p).uniqueName =
      bracketedPath (c.title (.level l) ++ ((c.member p).captions ++ [caption])) := by
  rw [newChild, hc.titled.level l hl, bracketedPath_append title_ne_nil (by simp)]

/-- Captions tell the members of a level apart. -/
theorem member_eq (hc : Coherent c) (hm : c.Has (.member m)) (hp : c.Has (.member p))
    (hhierarchy : (c.member m).hierarchy = (c.member p).hierarchy) (hdepth : c.depth m = c.depth p)
    (hcaptions : (c.member m).captions = (c.member p).captions) : m = p := by
  have hg := hc.graph
  by_cases hzero : c.depth m = 0
  · rw [hg.eq_allMember hm hzero, hg.eq_allMember hp (hdepth ▸ hzero), hhierarchy]
  · obtain ⟨hlevel, hsame⟩ := hg.member_level p hp
    have hlevels := hg.level_eq hlevel hm (hsame.trans hhierarchy.symm) hdepth.symm
    obtain ⟨r, hr⟩ := hg.exists_parent hm hzero
    obtain ⟨s, hs⟩ := hg.exists_parent hp (hdepth ▸ hzero)
    refine Entity.member.inj (hc.title_injective hm hp ?_)
    rw [hc.title_child hm hr, hc.title_child hp hs, ← hc.content.captions m r hm hr,
      ← hc.content.captions p s hp hs, hlevels, hcaptions]

theorem free_child_iff (hc : Coherent c) (hl : c.Has (.level l)) (hp : c.Has (.member p))
    (hhierarchy : (c.level l).hierarchy = (c.member p).hierarchy)
    (hordinal : (c.level l).ordinal = c.depth p + 1) :
    c.names[(c.newChild caption l p).uniqueName]? = none ↔
      ∀ m, c.Has (.member m) → (c.member m).parent? = some p → (c.member m).caption ≠ caption := by
  have hg := hc.graph
  rw [hc.newChild_uniqueName hl, hc.names_eq_none_iff (by simp)]
  constructor
  · rintro hfree m hm hparent rfl
    obtain ⟨-, hsame, hdepth⟩ := hg.parent m p hm hparent
    have hlevel := hg.level_eq hl hm (hhierarchy.trans hsame) (hordinal.trans hdepth.symm)
    refine hfree (.member m) hm ?_
    rw [hc.title_child hm hparent, hlevel]
  · intro hother e he heq
    cases e with
    | member m =>
      cases hq : (c.member m).parent? with
      | none => simp [title, hq] at heq
      | some q =>
        obtain ⟨hhas, hsame, hdepth⟩ := hg.parent m q he hq
        obtain ⟨hlevel, hmember⟩ := hg.member_level m he
        rw [hc.title_child he hq] at heq
        obtain ⟨hlevels, hcaptions⟩ := List.append_inj heq (by simp [title])
        obtain ⟨hcaptions, hcaption⟩ := List.append_inj' hcaptions rfl
        obtain rfl := Entity.level.inj (hc.title_injective hlevel hl hlevels)
        refine hother m he ?_ (by simpa using hcaption)
        rw [hq, hc.member_eq hhas hp (hsame.trans (hmember.symm.trans hhierarchy)) ?_ hcaptions]
        exact Nat.succ.inj (hdepth.symm.trans hordinal)
    | _ => simp [title] at heq

end Coherent

end Cube

end CubeQuery
