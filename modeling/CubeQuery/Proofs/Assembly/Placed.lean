import CubeQuery.Proofs.Assembly.Draft
import CubeQuery.Proofs.Cube.Lineage

/-!
The rows of a dimension table in the hierarchy that was made from it. Whatever the kind of the
hierarchy, every row has a member, and which members lie above it can be told from the table.
-/

namespace CubeQuery

namespace Cube

/-- Each row of the table has its member, and `Below row depth position` tells whether this is, or
lies below, the member of that depth and position. -/
structure Placed (c : Cube) (h : HierarchyId) (table : Table) (members : Array MemberId)
    (Below : (row depth position : Nat) → Prop) : Prop where
  size : members.size = table.rowCount
  has : ∀ (row : Nat) m, members[row]? = some m → c.Has (.member m) ∧ (c.member m).hierarchy = h
  below : ∀ (row : Nat) b m, members[row]? = some b → c.Has (.member m) →
    (c.member m).hierarchy = h → c.depth m ≠ 0 →
    ((∃ n, c.ancestor? n b = some m) ↔ Below row (c.depth m) (c.member m).position)

end Cube

end CubeQuery
