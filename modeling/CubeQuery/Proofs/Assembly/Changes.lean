import CubeQuery.Cube.Navigation
import CubeQuery.Proofs.Assembly.Views
import Mathlib.Logic.Relation

/-!
The ways in which a cube changes while it is built. Between a layout and its cube lie only these
changes, each under the conditions that the builder meets when it makes it; whatever they preserve
holds of every cube.
-/

namespace CubeQuery

namespace Assembly

inductive Change : Cube → Cube → Prop
  /-- A hierarchy, the level of its All member and the All member come together. -/
  | root {c c₁ c₂ c₃ : Cube} {layout : DimensionLayout} {kind : HierarchyKind} {h : HierarchyId}
      {l : LevelId} {m : MemberId} {caption : String} :
      Yields (addHierarchy layout kind) c h c₁ → Yields (addLevel h "(All)" none) c₁ l c₂ →
      Yields (addAllMember h l caption) c₂ m c₃ → Change c c₃
  | level {c c' : Cube} {h : HierarchyId} {name : String} {sourceColumn? : Option String}
      {l : LevelId} :
      c.Has (.hierarchy h) → Yields (addLevel h name sourceColumn?) c l c' → Change c c'
  /-- A member goes to the level below that of its parent. -/
  | child {c c' : Cube} {caption : String} {l : LevelId} {p m : MemberId} :
      c.Has (.level l) → c.Has (.member p) → (c.level l).hierarchy = (c.member p).hierarchy →
      (c.level l).ordinal = c.depth p + 1 → Yields (addChild caption l p) c m c' → Change c c'
  | row {c c' : Cube} {row : Nat} {m : MemberId} {u : Unit} :
      c.Has (.member m) → row < c.factTable.rowCount → Yields (attachRow row m) c u c' →
      Change c c'
  | measure {c c' : Cube} {layout : MeasureLayout} {u : Unit} :
      Yields (addMeasure layout) c u c' → Change c c'

/-- Any number of changes. -/
abbrev Grows : Cube → Cube → Prop :=
  Relation.ReflTransGen Change

end Assembly

end CubeQuery
