import CubeQuery.Proofs.Assembly.Steps

/-!
What one reads in a cube after one object has been added to it. Each change touches the object it
adds and at most one object above it; everything else reads as before.
-/

namespace CubeQuery

open CubeQuery.Language

/-- Whether the number of an object is in use. -/
def Cube.Has (c : Cube) : Entity → Prop
  | .dimension id => id.index < c.dimensions.size
  | .hierarchy id => id.index < c.hierarchies.size
  | .level id => id.index < c.levels.size
  | .member id => id.index < c.members.size
  | .measure id => id.index < c.measures.size

namespace Cube

variable {c : Cube}

theorem getD_modify {α : Type} {xs : Array α} {i j : Nat} {f : α → α} {d : α} (hi : i < xs.size) :
    (xs.modify i f).getD j d = if j = i then f (xs.getD j d) else xs.getD j d := by
  simp only [Array.getD_eq_getD_getElem?, Array.getElem?_modify]
  by_cases hji : j = i
  · subst hji
    simp [hi]
  · simp [hji, Ne.symm hji]

theorem getD_push {α : Type} {xs : Array α} {j : Nat} {a d : α} :
    (xs.push a).getD j d = if j = xs.size then a else xs.getD j d := by
  simp only [Array.getD_eq_getD_getElem?, Array.getElem?_push]
  split <;> rfl

theorem getElem?_push_eq_some {α : Type} {xs : Array α} {j : Nat} {a b : α} :
    (xs.push a)[j]? = some b ↔ xs[j]? = some b ∨ j = xs.size ∧ b = a := by
  rw [Array.getElem?_push]
  split
  · next heq => simp [heq, eq_comm]
  · next hne => simp [hne]

theorem getElem?_concat_eq_some {α : Type} {xs : List α} {j : Nat} {a b : α} :
    (xs ++ [a])[j]? = some b ↔ xs[j]? = some b ∨ j = xs.length ∧ b = a := by
  simpa using @getElem?_push_eq_some _ xs.toArray j a b

/-! ### A dimension with its hierarchy -/

section Hierarchy

variable {d : Dimension} {h : Hierarchy}

@[simp] theorem dimensions_size_withHierarchy :
    (c.withHierarchy d h).dimensions.size = c.dimensions.size + 1 := by
  simp [withHierarchy]

@[simp] theorem hierarchies_size_withHierarchy :
    (c.withHierarchy d h).hierarchies.size = c.hierarchies.size + 1 := by
  simp [withHierarchy]

@[simp] theorem levels_withHierarchy : (c.withHierarchy d h).levels = c.levels := rfl

@[simp] theorem members_withHierarchy : (c.withHierarchy d h).members = c.members := rfl

@[simp] theorem measures_withHierarchy : (c.withHierarchy d h).measures = c.measures := rfl

@[simp] theorem factTable_withHierarchy : (c.withHierarchy d h).factTable = c.factTable := rfl

@[simp] theorem factRows_withHierarchy : (c.withHierarchy d h).factRows = c.factRows := rfl

theorem hierarchy_withHierarchy {i : HierarchyId} :
    (c.withHierarchy d h).hierarchy i =
      if i.index = c.hierarchies.size then h else c.hierarchy i :=
  getD_push

@[simp] theorem level_withHierarchy {i : LevelId} : (c.withHierarchy d h).level i = c.level i := rfl

@[simp] theorem member_withHierarchy {i : MemberId} :
    (c.withHierarchy d h).member i = c.member i := rfl

@[simp] theorem measure_withHierarchy {i : MeasureId} :
    (c.withHierarchy d h).measure i = c.measure i := rfl

@[simp] theorem rowsAt_withHierarchy {i : MemberId} :
    (c.withHierarchy d h).rowsAt i = c.rowsAt i := rfl

theorem names_withHierarchy {u : String} :
    (c.withHierarchy d h).names[u]? =
      if h.uniqueName = u then some (.hierarchy ⟨c.hierarchies.size⟩)
      else if d.uniqueName = u then some (.dimension ⟨c.dimensions.size⟩)
      else c.names[u]? := by
  simp [withHierarchy, withName, Std.HashMap.getElem?_insert]

end Hierarchy

/-! ### A level -/

section Level

variable {l : Level}

@[simp] theorem dimensions_withLevel : (c.withLevel l).dimensions = c.dimensions := rfl

@[simp] theorem hierarchies_size_withLevel :
    (c.withLevel l).hierarchies.size = c.hierarchies.size := by
  simp [withLevel]

@[simp] theorem levels_size_withLevel : (c.withLevel l).levels.size = c.levels.size + 1 := by
  simp [withLevel]

@[simp] theorem members_withLevel : (c.withLevel l).members = c.members := rfl

@[simp] theorem measures_withLevel : (c.withLevel l).measures = c.measures := rfl

@[simp] theorem factTable_withLevel : (c.withLevel l).factTable = c.factTable := rfl

@[simp] theorem factRows_withLevel : (c.withLevel l).factRows = c.factRows := rfl

@[simp] theorem dimension_withLevel {i : DimensionId} :
    (c.withLevel l).dimension i = c.dimension i := rfl

theorem hierarchy_withLevel {i : HierarchyId} (hl : c.Has (.hierarchy l.hierarchy)) :
    (c.withLevel l).hierarchy i =
      if i = l.hierarchy then
        { c.hierarchy i with levels := (c.hierarchy i).levels ++ [⟨c.levels.size⟩] }
      else c.hierarchy i := by
  obtain ⟨i⟩ := i
  obtain ⟨name, uniqueName, ⟨j⟩, ordinal, members, column⟩ := l
  simp only [HierarchyId.mk.injEq]
  exact getD_modify hl

theorem kind_withLevel {i : HierarchyId} :
    ((c.withLevel l).hierarchy i).kind = (c.hierarchy i).kind := by
  simp only [withLevel, hierarchy, Array.getD_eq_getD_getElem?, Array.getElem?_modify]
  split
  · cases c.hierarchies[i.index]? <;> rfl
  · rfl

theorem level_withLevel {i : LevelId} :
    (c.withLevel l).level i = if i.index = c.levels.size then l else c.level i :=
  getD_push

@[simp] theorem member_withLevel {i : MemberId} : (c.withLevel l).member i = c.member i := rfl

@[simp] theorem measure_withLevel {i : MeasureId} : (c.withLevel l).measure i = c.measure i := rfl

@[simp] theorem rowsAt_withLevel {i : MemberId} : (c.withLevel l).rowsAt i = c.rowsAt i := rfl

theorem level_withLevel_of_has {i : LevelId} (hi : c.Has (.level i)) :
    (c.withLevel l).level i = c.level i := by
  rw [level_withLevel, if_neg (Nat.ne_of_lt hi)]

theorem Has.withLevel {e : Entity} (he : c.Has e) : (c.withLevel l).Has e := by
  revert he
  rcases e with (i | i | i | i | i) <;> simp [Has]
  omega

theorem has_level_withLevel {i : LevelId} :
    (c.withLevel l).Has (.level i) ↔ i = ⟨c.levels.size⟩ ∨ c.Has (.level i) := by
  obtain ⟨i⟩ := i
  simp only [Has, levels_size_withLevel, LevelId.mk.injEq]
  omega

/-- The new level stands at the end of its hierarchy. -/
theorem getElem?_levels_withLevel {i : HierarchyId} {k : LevelId} {j : Nat}
    (hl : c.Has (.hierarchy l.hierarchy)) :
    ((c.withLevel l).hierarchy i).levels[j]? = some k ↔
      (c.hierarchy i).levels[j]? = some k ∨
        i = l.hierarchy ∧ j = (c.hierarchy i).levels.length ∧ k = ⟨c.levels.size⟩ := by
  rw [hierarchy_withLevel hl]
  split
  · next heq => rw [getElem?_concat_eq_some, and_iff_right heq]
  · next hne => simp [hne]

theorem names_withLevel {u : String} :
    (c.withLevel l).names[u]? =
      if l.uniqueName = u then some (.level ⟨c.levels.size⟩) else c.names[u]? := by
  simp [withLevel, withName, Std.HashMap.getElem?_insert]

end Level

/-! ### A member -/

section Member

variable {m : Member}

@[simp] theorem dimensions_withMember : (c.withMember m).dimensions = c.dimensions := rfl

@[simp] theorem hierarchies_withMember : (c.withMember m).hierarchies = c.hierarchies := rfl

@[simp] theorem levels_size_withMember : (c.withMember m).levels.size = c.levels.size := by
  simp [withMember]

@[simp] theorem members_size_withMember : (c.withMember m).members.size = c.members.size + 1 := by
  simp [withMember]

@[simp] theorem measures_withMember : (c.withMember m).measures = c.measures := rfl

@[simp] theorem factTable_withMember : (c.withMember m).factTable = c.factTable := rfl

@[simp] theorem factRows_size_withMember :
    (c.withMember m).factRows.size = c.factRows.size + 1 := by
  simp [withMember]

@[simp] theorem dimension_withMember {i : DimensionId} :
    (c.withMember m).dimension i = c.dimension i := rfl

@[simp] theorem hierarchy_withMember {i : HierarchyId} :
    (c.withMember m).hierarchy i = c.hierarchy i := rfl

theorem level_withMember {i : LevelId} (hm : c.Has (.level m.level)) :
    (c.withMember m).level i =
      if i = m.level then
        { c.level i with members := (c.level i).members.push ⟨c.members.size⟩ }
      else c.level i := by
  obtain ⟨i⟩ := i
  obtain ⟨caption, uniqueName, ⟨j⟩, hierarchy, parent?, position, captions⟩ := m
  simp only [LevelId.mk.injEq]
  exact getD_modify hm

/-- The level of the new member is the only one that changes, and it stays where it is. -/
theorem place_withMember {i : LevelId} (hm : c.Has (.level m.level)) :
    ((c.withMember m).level i).hierarchy = (c.level i).hierarchy ∧
      ((c.withMember m).level i).ordinal = (c.level i).ordinal := by
  rw [level_withMember hm]
  split <;> exact ⟨rfl, rfl⟩

theorem member_withMember {i : MemberId} :
    (c.withMember m).member i = if i.index = c.members.size then m else c.member i :=
  getD_push

theorem member_withMember_of_has {i : MemberId} (hi : c.Has (.member i)) :
    (c.withMember m).member i = c.member i := by
  rw [member_withMember, if_neg (Nat.ne_of_lt hi)]

theorem Has.withMember {e : Entity} (he : c.Has e) : (c.withMember m).Has e := by
  revert he
  rcases e with (i | i | i | i | i) <;> simp [Has]
  omega

theorem has_member_withMember {i : MemberId} :
    (c.withMember m).Has (.member i) ↔ i = ⟨c.members.size⟩ ∨ c.Has (.member i) := by
  obtain ⟨i⟩ := i
  simp only [Has, members_size_withMember, MemberId.mk.injEq]
  omega

/-- The new member stands at the end of its level. -/
theorem getElem?_members_withMember {i : LevelId} {k : MemberId} {j : Nat}
    (hm : c.Has (.level m.level)) :
    ((c.withMember m).level i).members[j]? = some k ↔
      (c.level i).members[j]? = some k ∨
        i = m.level ∧ j = (c.level i).members.size ∧ k = ⟨c.members.size⟩ := by
  rw [level_withMember hm]
  split
  · next heq => rw [getElem?_push_eq_some, and_iff_right heq]
  · next hne => simp [hne]

/-- A child has a parent, so a member without one was there before. -/
theorem has_of_parent?_withChild {caption : String} {l : LevelId} {p i : MemberId}
    (hi : (c.withMember (c.newChild caption l p)).Has (.member i))
    (hp : ((c.withMember (c.newChild caption l p)).member i).parent? = none) :
    c.Has (.member i) := by
  refine (has_member_withMember.1 hi).resolve_left ?_
  rintro rfl
  rw [member_withMember, if_pos rfl, newChild_parent?] at hp
  cases hp

@[simp] theorem measure_withMember {i : MeasureId} :
    (c.withMember m).measure i = c.measure i := rfl

/-- A new member has no fact rows, and neither has a number that is not in use. -/
@[simp] theorem rowsAt_withMember {i : MemberId} : (c.withMember m).rowsAt i = c.rowsAt i := by
  refine getD_push.trans ?_
  split
  · next h => simp [rowsAt, h, Array.getD_eq_getD_getElem?]
  · rfl

theorem names_withMember {u : String} :
    (c.withMember m).names[u]? =
      if m.uniqueName = u then some (.member ⟨c.members.size⟩) else c.names[u]? := by
  simp [withMember, withName, Std.HashMap.getElem?_insert]

end Member

/-! ### A fact row -/

section Row

variable {row : Nat} {m : MemberId}

@[simp] theorem dimensions_withRow : (c.withRow row m).dimensions = c.dimensions := rfl

@[simp] theorem hierarchies_withRow : (c.withRow row m).hierarchies = c.hierarchies := rfl

@[simp] theorem levels_withRow : (c.withRow row m).levels = c.levels := rfl

@[simp] theorem members_withRow : (c.withRow row m).members = c.members := rfl

@[simp] theorem measures_withRow : (c.withRow row m).measures = c.measures := rfl

@[simp] theorem factTable_withRow : (c.withRow row m).factTable = c.factTable := rfl

@[simp] theorem names_withRow : (c.withRow row m).names = c.names := rfl

@[simp] theorem factRows_size_withRow : (c.withRow row m).factRows.size = c.factRows.size := by
  simp [withRow]

@[simp] theorem dimension_withRow {i : DimensionId} :
    (c.withRow row m).dimension i = c.dimension i := rfl

@[simp] theorem hierarchy_withRow {i : HierarchyId} :
    (c.withRow row m).hierarchy i = c.hierarchy i := rfl

@[simp] theorem level_withRow {i : LevelId} : (c.withRow row m).level i = c.level i := rfl

@[simp] theorem member_withRow {i : MemberId} : (c.withRow row m).member i = c.member i := rfl

@[simp] theorem measure_withRow {i : MeasureId} : (c.withRow row m).measure i = c.measure i := rfl

theorem rowsAt_withRow {i : MemberId} (hm : m.index < c.factRows.size) :
    (c.withRow row m).rowsAt i = if i = m then (c.rowsAt i).push row else c.rowsAt i := by
  obtain ⟨i⟩ := i
  obtain ⟨j⟩ := m
  simp only [MemberId.mk.injEq]
  exact getD_modify hm

end Row

/-! ### A measure -/

section Measure

variable {m : Measure}

@[simp] theorem dimensions_withMeasure : (c.withMeasure m).dimensions = c.dimensions := rfl

@[simp] theorem hierarchies_withMeasure : (c.withMeasure m).hierarchies = c.hierarchies := rfl

@[simp] theorem levels_withMeasure : (c.withMeasure m).levels = c.levels := rfl

@[simp] theorem members_withMeasure : (c.withMeasure m).members = c.members := rfl

@[simp] theorem measures_size_withMeasure :
    (c.withMeasure m).measures.size = c.measures.size + 1 := by
  simp [withMeasure]

@[simp] theorem factTable_withMeasure : (c.withMeasure m).factTable = c.factTable := rfl

@[simp] theorem factRows_withMeasure : (c.withMeasure m).factRows = c.factRows := rfl

@[simp] theorem dimension_withMeasure {i : DimensionId} :
    (c.withMeasure m).dimension i = c.dimension i := rfl

@[simp] theorem hierarchy_withMeasure {i : HierarchyId} :
    (c.withMeasure m).hierarchy i = c.hierarchy i := rfl

@[simp] theorem level_withMeasure {i : LevelId} : (c.withMeasure m).level i = c.level i := rfl

@[simp] theorem member_withMeasure {i : MemberId} : (c.withMeasure m).member i = c.member i := rfl

theorem measure_withMeasure {i : MeasureId} :
    (c.withMeasure m).measure i = if i.index = c.measures.size then m else c.measure i :=
  getD_push

theorem Has.withMeasure {e : Entity} (he : c.Has e) : (c.withMeasure m).Has e := by
  revert he
  rcases e with (i | i | i | i | i) <;> simp [Has]
  omega

theorem has_measure_withMeasure {i : MeasureId} :
    (c.withMeasure m).Has (.measure i) ↔ i = ⟨c.measures.size⟩ ∨ c.Has (.measure i) := by
  obtain ⟨i⟩ := i
  simp only [Has, measures_size_withMeasure, MeasureId.mk.injEq]
  omega

@[simp] theorem rowsAt_withMeasure {i : MemberId} : (c.withMeasure m).rowsAt i = c.rowsAt i := rfl

theorem names_withMeasure {u : String} :
    (c.withMeasure m).names[u]? =
      if m.uniqueName = u then some (.measure ⟨c.measures.size⟩) else c.names[u]? := by
  simp [withMeasure, withName, Std.HashMap.getElem?_insert]

end Measure

/-! ### A new hierarchy with its All member -/

section Root

variable {layout : DimensionLayout} {kind : HierarchyKind} {caption : String}

/-- The cube with one more hierarchy that has nothing but its All member. -/
def withRoot (c : Cube) (layout : DimensionLayout) (kind : HierarchyKind) (caption : String) :
    Cube :=
  let c₁ := c.withHierarchy (c.newDimension layout) (c.newHierarchy layout kind)
  let c₂ := c₁.withLevel (c₁.newLevel ⟨c.hierarchies.size⟩ "(All)" none)
  c₂.withMember (c₂.newAllMember ⟨c.hierarchies.size⟩ ⟨c.levels.size⟩ caption)

@[simp] theorem dimensions_size_withRoot :
    (c.withRoot layout kind caption).dimensions.size = c.dimensions.size + 1 := by
  simp [withRoot]

@[simp] theorem hierarchies_size_withRoot :
    (c.withRoot layout kind caption).hierarchies.size = c.hierarchies.size + 1 := by
  simp [withRoot]

@[simp] theorem levels_size_withRoot :
    (c.withRoot layout kind caption).levels.size = c.levels.size + 1 := by
  simp [withRoot]

@[simp] theorem members_size_withRoot :
    (c.withRoot layout kind caption).members.size = c.members.size + 1 := by
  simp [withRoot]

@[simp] theorem measures_withRoot : (c.withRoot layout kind caption).measures = c.measures := rfl

@[simp] theorem factTable_withRoot :
    (c.withRoot layout kind caption).factTable = c.factTable := rfl

@[simp] theorem factRows_size_withRoot :
    (c.withRoot layout kind caption).factRows.size = c.factRows.size + 1 := by
  simp [withRoot]

theorem dimension_withRoot {i : DimensionId} :
    (c.withRoot layout kind caption).dimension i =
      if i.index = c.dimensions.size then c.newDimension layout else c.dimension i :=
  getD_push

theorem hierarchy_withRoot {i : HierarchyId} :
    (c.withRoot layout kind caption).hierarchy i =
      if i.index = c.hierarchies.size then
        { c.newHierarchy layout kind with levels := [⟨c.levels.size⟩] }
      else c.hierarchy i := by
  obtain ⟨i⟩ := i
  simp only [withRoot, hierarchy_withMember]
  rw [hierarchy_withLevel (by simp [Has]), hierarchy_withHierarchy]
  by_cases h : i = c.hierarchies.size
  · simp [h, newLevel, newHierarchy]
  · simp [h, newLevel]

theorem level_withRoot {i : LevelId} :
    (c.withRoot layout kind caption).level i =
      if i.index = c.levels.size then
        { name := "(All)"
          uniqueName := bracketedPath [layout.name, layout.name] ++ "." ++ bracketed "(All)"
          hierarchy := ⟨c.hierarchies.size⟩, ordinal := 0, members := #[⟨c.members.size⟩]
          sourceColumn? := none }
      else c.level i := by
  obtain ⟨i⟩ := i
  simp only [withRoot]
  rw [level_withMember (by simp [newAllMember, Has]), level_withLevel]
  by_cases h : i = c.levels.size
  · simp [h, newAllMember, newLevel, newHierarchy, hierarchy_withHierarchy]
  · simp [h, newAllMember]

theorem member_withRoot {i : MemberId} :
    (c.withRoot layout kind caption).member i =
      if i.index = c.members.size then
        { caption, level := ⟨c.levels.size⟩, hierarchy := ⟨c.hierarchies.size⟩, parent? := none
          uniqueName := bracketedPath [layout.name, layout.name] ++ "." ++ bracketed caption
          position := 0, captions := [] }
      else c.member i := by
  simp only [withRoot]
  rw [member_withMember]
  by_cases h : i.index = c.members.size
  · simp only [newAllMember, members_withLevel, members_withHierarchy, if_pos h]
    rw [hierarchy_withLevel (by simp [Has]), level_withLevel]
    simp [h, newLevel, newHierarchy, hierarchy_withHierarchy]
  · simp [h]

theorem Has.withRoot {e : Entity} (he : c.Has e) : (c.withRoot layout kind caption).Has e := by
  revert he
  rcases e with (i | i | i | i | i) <;> simp [Has] <;> omega

theorem has_dimension_withRoot {i : DimensionId} :
    (c.withRoot layout kind caption).Has (.dimension i) ↔
      i = ⟨c.dimensions.size⟩ ∨ c.Has (.dimension i) := by
  obtain ⟨i⟩ := i
  simp only [Has, dimensions_size_withRoot, DimensionId.mk.injEq]
  omega

theorem has_hierarchy_withRoot {i : HierarchyId} :
    (c.withRoot layout kind caption).Has (.hierarchy i) ↔
      i = ⟨c.hierarchies.size⟩ ∨ c.Has (.hierarchy i) := by
  obtain ⟨i⟩ := i
  simp only [Has, hierarchies_size_withRoot, HierarchyId.mk.injEq]
  omega

theorem has_level_withRoot {i : LevelId} :
    (c.withRoot layout kind caption).Has (.level i) ↔
      i = ⟨c.levels.size⟩ ∨ c.Has (.level i) := by
  obtain ⟨i⟩ := i
  simp only [Has, levels_size_withRoot, LevelId.mk.injEq]
  omega

theorem has_member_withRoot {i : MemberId} :
    (c.withRoot layout kind caption).Has (.member i) ↔
      i = ⟨c.members.size⟩ ∨ c.Has (.member i) := by
  obtain ⟨i⟩ := i
  simp only [Has, members_size_withRoot, MemberId.mk.injEq]
  omega

theorem dimension_withRoot_of_has {i : DimensionId} (hi : c.Has (.dimension i)) :
    (c.withRoot layout kind caption).dimension i = c.dimension i := by
  rw [dimension_withRoot, if_neg (Nat.ne_of_lt hi)]

theorem hierarchy_withRoot_of_has {i : HierarchyId} (hi : c.Has (.hierarchy i)) :
    (c.withRoot layout kind caption).hierarchy i = c.hierarchy i := by
  rw [hierarchy_withRoot, if_neg (Nat.ne_of_lt hi)]

theorem level_withRoot_of_has {i : LevelId} (hi : c.Has (.level i)) :
    (c.withRoot layout kind caption).level i = c.level i := by
  rw [level_withRoot, if_neg (Nat.ne_of_lt hi)]

theorem member_withRoot_of_has {i : MemberId} (hi : c.Has (.member i)) :
    (c.withRoot layout kind caption).member i = c.member i := by
  rw [member_withRoot, if_neg (Nat.ne_of_lt hi)]

/-- An All member has no parent, so a member with one was there before. -/
theorem has_of_parent?_withRoot {i p : MemberId}
    (hi : (c.withRoot layout kind caption).Has (.member i))
    (hp : ((c.withRoot layout kind caption).member i).parent? = some p) : c.Has (.member i) := by
  refine (has_member_withRoot.1 hi).resolve_left ?_
  rintro rfl
  rw [member_withRoot, if_pos rfl] at hp
  cases hp

@[simp] theorem measure_withRoot {i : MeasureId} :
    (c.withRoot layout kind caption).measure i = c.measure i := rfl

@[simp] theorem rowsAt_withRoot {i : MemberId} :
    (c.withRoot layout kind caption).rowsAt i = c.rowsAt i := by
  simp [withRoot]

end Root

end Cube

namespace Assembly

/-- The steps that begin a dimension, taken together. -/
theorem yields_root {c c₁ c₂ c₃ : Cube} {layout : DimensionLayout} {kind : HierarchyKind}
    {h : HierarchyId} {l : LevelId} {m : MemberId} {caption : String}
    (h₁ : Yields (addHierarchy layout kind) c h c₁) (h₂ : Yields (addLevel h "(All)" none) c₁ l c₂)
    (h₃ : Yields (addAllMember h l caption) c₂ m c₃) :
    h = ⟨c.hierarchies.size⟩ ∧ l = ⟨c.levels.size⟩ ∧ m = ⟨c.members.size⟩ ∧
      c₃ = c.withRoot layout kind caption := by
  obtain ⟨-, -, rfl, rfl⟩ := yields_addHierarchy.1 h₁
  obtain ⟨-, rfl, rfl⟩ := yields_addLevel.1 h₂
  obtain ⟨-, rfl, rfl⟩ := yields_addAllMember.1 h₃
  exact ⟨rfl, rfl, rfl, rfl⟩

end Assembly

end CubeQuery
