import CubeQuery.Proofs.Cube.Content
import CubeQuery.Proofs.Cube.Lineage
import CubeQuery.Proofs.Cube.Names
import CubeQuery.Proofs.Language.Printing

/-!
The names behind unique names. A unique name is a bracketed path, and its segments say which object
it is: the dimension, then what tells the object apart within the dimension. Since a path determines
its segments, a unique name is taken only by an object of the same kind in the same place, and
whether a new object can have its name is a question about its nearest relatives.
-/

namespace CubeQuery

open Assembly CubeQuery.Language

theorem bracketedPath_single {name : String} : bracketedPath [name] = bracketed name := by
  simp [bracketedPath]

@[simp] theorem bracketedPath_cons_inj {x y : String} {xs ys : List String} :
    bracketedPath (x :: xs) = bracketedPath (y :: ys) ↔ x = y ∧ xs = ys := by
  rw [← List.cons.injEq]
  exact ⟨bracketedPath_injective (by simp) (by simp), congrArg _⟩

theorem bracketedPath_append {xs ys : List String} (hxs : xs ≠ []) (hys : ys ≠ []) :
    bracketedPath (xs ++ ys) = bracketedPath xs ++ "." ++ bracketedPath ys := by
  rw [bracketedPath, List.map_append, String.intercalate_append_of_ne_nil (by simpa) (by simpa)]
  rfl

theorem bracketedPath_three {name other : String} :
    bracketedPath [name, name] ++ "." ++ bracketed other = bracketedPath [name, name, other] := by
  rw [← @bracketedPath_single other, ← bracketedPath_append (by simp) (by simp)]
  rfl

namespace Cube

/-- The name of the hierarchy that a number stands for. -/
abbrev hierarchyName (c : Cube) (h : HierarchyId) : String :=
  (c.hierarchy h).name

/-- The segments of the unique name of an object. -/
def title (c : Cube) : Entity → List String
  | .dimension d => [(c.dimension d).name]
  | .hierarchy h => [c.hierarchyName h, c.hierarchyName h]
  | .level l =>
    let name := c.hierarchyName (c.level l).hierarchy
    [name, name, (c.level l).name]
  | .member m =>
    let name := c.hierarchyName (c.member m).hierarchy
    if (c.member m).parent?.isNone then [name, name, (c.member m).caption]
    else [name, name, (c.level (c.member m).level).name] ++ (c.member m).captions
  | .measure m => ["Measures", (c.measure m).name]

theorem title_all {c : Cube} {m : MemberId} (hp : (c.member m).parent? = none) :
    c.title (.member m) = [c.hierarchyName (c.member m).hierarchy,
      c.hierarchyName (c.member m).hierarchy, (c.member m).caption] := by
  rw [title, hp]
  rfl

theorem newLevel_uniqueName {c : Cube} {h : HierarchyId} {name level : String}
    {sourceColumn? : Option String}
    (hname : (c.hierarchy h).uniqueName = bracketedPath [name, name]) :
    (c.newLevel h level sourceColumn?).uniqueName = bracketedPath [name, name, level] := by
  rw [newLevel, hname]
  exact bracketedPath_three

theorem newAllMember_uniqueName {c : Cube} {h : HierarchyId} {l : LevelId} {name caption : String}
    (hname : (c.hierarchy h).uniqueName = bracketedPath [name, name]) :
    (c.newAllMember h l caption).uniqueName = bracketedPath [name, name, caption] := by
  rw [newAllMember, hname]
  exact bracketedPath_three

/-- Unique names are made from names. What the members below an All member are called is left out
here, since it follows from the names of their levels. -/
structure Titled (c : Cube) : Prop where
  dimension : ∀ d, c.Has (.dimension d) →
    (c.dimension d).uniqueName = bracketedPath (c.title (.dimension d)) ∧
      (c.dimension d).name = c.hierarchyName ⟨d.index⟩
  hierarchy : ∀ h, c.Has (.hierarchy h) →
    (c.hierarchy h).uniqueName = bracketedPath (c.title (.hierarchy h))
  level : ∀ l, c.Has (.level l) → (c.level l).uniqueName = bracketedPath (c.title (.level l))
  all : ∀ m, c.Has (.member m) → (c.member m).parent? = none →
    (c.member m).uniqueName = bracketedPath (c.title (.member m))
  measure : ∀ m, c.Has (.measure m) →
    (c.measure m).uniqueName = bracketedPath (c.title (.measure m))

namespace Titled

variable {c c' : Cube}

theorem empty (name : String) (fact : Table) : Titled (Cube.empty name fact) := by
  constructor <;> simp [Cube.empty, Has]

theorem withRoot {layout : DimensionLayout} {kind : HierarchyKind} {caption : String}
    (hg : Graph c) (ht : Titled c) : Titled (c.withRoot layout kind caption) := by
  have hold {h} (hh : c.Has (.hierarchy h)) :
      (c.withRoot layout kind caption).hierarchyName h = c.hierarchyName h := by
    rw [hierarchyName, hierarchy_withRoot_of_has hh]
  have hnew : (c.withRoot layout kind caption).hierarchyName ⟨c.hierarchies.size⟩ =
      layout.name := by
    rw [hierarchyName, hierarchy_withRoot, if_pos rfl]
    rfl
  exact {
    dimension := fun d hd => by
      rw [title]
      rcases has_dimension_withRoot.1 hd with rfl | hd
      · rw [dimension_withRoot, if_pos rfl, hg.dimensions_size, hnew]
        exact ⟨bracketedPath_single.symm, rfl⟩
      · have hh : c.Has (.hierarchy ⟨d.index⟩) := by simpa [Has, ← hg.dimensions_size] using hd
        rw [dimension_withRoot_of_has hd, hold hh]
        exact ht.dimension d hd
    hierarchy := fun h hh => by
      rw [title]
      rcases has_hierarchy_withRoot.1 hh with rfl | hh
      · rw [hnew, hierarchy_withRoot, if_pos rfl]
        rfl
      · rw [hold hh, hierarchy_withRoot_of_has hh]
        exact ht.hierarchy h hh
    level := fun l hl => by
      rw [title]
      rcases has_level_withRoot.1 hl with rfl | hl
      · rw [level_withRoot, if_pos rfl, hnew]
        exact bracketedPath_three
      · rw [level_withRoot_of_has hl, hold (hg.level_hierarchy l hl)]
        exact ht.level l hl
    all := fun m hm hp => by
      rw [title_all hp]
      rcases has_member_withRoot.1 hm with rfl | hm
      · rw [member_withRoot, if_pos rfl, hnew]
        exact bracketedPath_three
      · rw [member_withRoot_of_has hm] at hp ⊢
        rw [hold (hg.hierarchy_has hm)]
        exact (ht.all m hm hp).trans (congrArg bracketedPath (title_all hp))
    measure := fun m hm => by
      rw [title, measure_withRoot]
      exact ht.measure m (by simpa [Has] using hm) }

theorem withLevel {h : HierarchyId} {name : String} {sourceColumn? : Option String}
    (ht : Titled c) (hh : c.Has (.hierarchy h)) :
    Titled (c.withLevel (c.newLevel h name sourceColumn?)) := by
  have hname (i) : (c.withLevel (c.newLevel h name sourceColumn?)).hierarchyName i =
      c.hierarchyName i := by
    rw [hierarchyName, hierarchy_withLevel hh]
    split <;> rfl
  exact {
    dimension := fun d hd => by
      rw [hname]
      exact ht.dimension d hd
    hierarchy := fun i hi => by
      rw [title, hname, hierarchy_withLevel hh]
      have hold := ht.hierarchy i (by simpa [Has] using hi)
      split <;> exact hold
    level := fun l hl => by
      rw [title, hname]
      rcases has_level_withLevel.1 hl with rfl | hl
      · rw [level_withLevel, if_pos rfl]
        exact newLevel_uniqueName (ht.hierarchy h hh)
      · rw [level_withLevel_of_has hl]
        exact ht.level l hl
    all := fun m hm hp => by
      rw [title_all hp, member_withLevel, hname]
      exact (ht.all m hm hp).trans (congrArg bracketedPath (title_all hp))
    measure := ht.measure }

theorem withChild {caption : String} {l : LevelId} {p : MemberId} (ht : Titled c)
    (hl : c.Has (.level l)) : Titled (c.withMember (c.newChild caption l p)) where
  dimension := ht.dimension
  hierarchy := ht.hierarchy
  level i hi := by
    have hold := ht.level i (by simpa [Has] using hi)
    rw [title, level_withMember (show c.Has (.level (newChild c _ l p).level) from hl)]
    split <;> exact hold
  all m hm hp := by
    have hm := has_of_parent?_withChild hm hp
    rw [title_all hp]
    rw [member_withMember_of_has hm] at hp ⊢
    exact (ht.all m hm hp).trans (congrArg bracketedPath (title_all hp))
  measure := ht.measure

theorem withMeasure {layout : MeasureLayout} {columnIndex : Nat} {aggregation : Aggregation}
    (ht : Titled c) : Titled (c.withMeasure (newMeasure layout columnIndex aggregation)) := by
  refine ⟨ht.dimension, ht.hierarchy, ht.level, ht.all, ?_⟩
  intro m hm
  rw [title]
  rcases has_measure_withMeasure.1 hm with rfl | hm
  · rw [measure_withMeasure, if_pos rfl]
    rfl
  · rw [measure_withMeasure, if_neg (Nat.ne_of_lt hm)]
    exact ht.measure m hm

theorem change (hg : Graph c) (ht : Titled c) (h : Change c c') : Titled c' := by
  cases h with
  | root h₁ h₂ h₃ =>
    obtain ⟨-, -, -, rfl⟩ := yields_root h₁ h₂ h₃
    exact ht.withRoot hg
  | level hh h =>
    obtain ⟨-, -, rfl⟩ := yields_addLevel.1 h
    exact ht.withLevel hh
  | child hl hp hhierarchy hordinal h =>
    obtain ⟨-, -, rfl⟩ := yields_addChild.1 h
    exact ht.withChild hl
  | row hm hrow h =>
    obtain rfl := yields_attachRow.1 h
    exact ⟨ht.dimension, ht.hierarchy, ht.level, ht.all, ht.measure⟩
  | measure h =>
    obtain ⟨_, _, -, -, -, -, -, rfl⟩ := yields_addMeasure.1 h
    exact ht.withMeasure

end Titled

end Cube

end CubeQuery
