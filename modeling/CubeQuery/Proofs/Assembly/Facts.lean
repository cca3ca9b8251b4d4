import CubeQuery.Proofs.Assembly.Nesting
import CubeQuery.Proofs.Assembly.Placed

/-!
Attaching the fact rows. Each row goes to the member of the dimension row with the key that it
refers to, and nothing but the rows of members changes.
-/

namespace CubeQuery

namespace Cube

variable {c c' : Cube}

theorem ancestor?_congr (h : c'.members = c.members) (n : Nat) (m : MemberId) :
    c'.ancestor? n m = c.ancestor? n m := by
  induction n generalizing m with
  | zero => rfl
  | succ n ih => simp only [ancestor?, member, h, funext ih]

end Cube

namespace Assembly

open CubeQuery.Cube

section Facts

variable {c c' : Cube} {h : HierarchyId} {layout : DimensionLayout}
  {table : Table} {rows : KeyRows} {members : Array MemberId}
  {Below : (row depth position : Nat) → Prop}

/-- The member of the dimension row that a fact row refers to. -/
def referred? (rows : KeyRows) (members : Array MemberId) (fact : Table) (foreignKey r : Nat) :
    Option MemberId :=
  (rows[Key.ofValue (fact.cell r foreignKey)]?).bind (members[·]?)

/-- Only the fact rows of members have changed. -/
structure Attached (c c' : Cube) (owner? : Nat → Option MemberId) (rows : Nat) : Prop where
  grows : Grows c c'
  same : ∃ factRows, c' = { c with factRows }
  size : c'.factRows.size = c.factRows.size
  owner : ∀ r < rows, ∃ m, owner? r = some m
  rowsAt : ∀ m, (c'.rowsAt m).toList =
    (c.rowsAt m).toList ++ (List.range rows).filter fun r => owner? r = some m

namespace Attached

variable {owner? : Nat → Option MemberId} {count : Nat}

theorem has_iff (h : Attached c c' owner? count) (e : Entity) : c'.Has e ↔ c.Has e := by
  obtain ⟨_, rfl⟩ := h.same
  rfl

theorem member (h : Attached c c' owner? count) (m : MemberId) : c'.member m = c.member m := by
  obtain ⟨_, rfl⟩ := h.same
  rfl

theorem depth (h : Attached c c' owner? count) (m : MemberId) : c'.depth m = c.depth m := by
  obtain ⟨_, rfl⟩ := h.same
  rfl

theorem ancestor? (h : Attached c c' owner? count) (n : Nat) (m : MemberId) :
    c'.ancestor? n m = c.ancestor? n m := by
  obtain ⟨_, rfl⟩ := h.same
  refine ancestor?_congr ?_ n m
  rfl

theorem hierarchy (h : Attached c c' owner? count) (i : HierarchyId) :
    c'.hierarchy i = c.hierarchy i := by
  obtain ⟨_, rfl⟩ := h.same
  rfl

theorem factTable (h : Attached c c' owner? count) : c'.factTable = c.factTable := by
  obtain ⟨_, rfl⟩ := h.same
  rfl

theorem mem_rowsAt (h : Attached c c' owner? count) {m : MemberId} {r : Nat} :
    r ∈ c'.rowsAt m ↔ r ∈ c.rowsAt m ∨ r < count ∧ owner? r = some m := by
  rw [← Array.mem_toList_iff, h.rowsAt, List.mem_append, Array.mem_toList_iff, List.mem_filter,
    List.mem_range, decide_eq_true_iff]

end Attached

theorem attached_attachFacts {u : Unit}
    (hsize : c.factRows.size = c.members.size) (hp : Placed c h table members Below)
    (hy : Yields (attachFacts layout rows members) c u c') :
    ∃ foreignKey, c.factTable.requireColumn layout.foreignKey = .ok foreignKey ∧
      Attached c c' (referred? rows members c.factTable foreignKey) c.factTable.rowCount := by
  unfold attachFacts at hy
  simp only [yields_bind, yields_get, yields_consult] at hy
  obtain ⟨cube, c₁, ⟨hcube, hc₁⟩, foreignKey, c₂, ⟨hforeign, hc₂⟩, hy⟩ := hy
  subst cube c₂ c₁
  refine ⟨foreignKey, hforeign, ?_⟩
  suffices Attached c c' (referred? rows members c.factTable foreignKey)
      (List.range c.factTable.rowCount).length by
    rwa [List.length_range] at this
  refine forM_induction (motive := fun done c' =>
    Attached c c' (referred? rows members c.factTable foreignKey) done.length) hy ?_ ?_
  · exact ⟨.refl, ⟨c.factRows, rfl⟩, rfl, by simp, by simp⟩
  · rintro done r rest c₁ c₂ hrows ⟨hgrows, ⟨factRows, rfl⟩, hsize₁, howner, hat⟩ hy
    obtain ⟨rfl, hlt⟩ := row_eq_length hrows
    cases hm : referred? rows members c.factTable foreignKey done.length with
    | none =>
      unfold referred? at hm
      rw [hm] at hy
      exact absurd hy yields_fail
    | some m =>
      have hmatch := hm
      unfold referred? at hmatch
      rw [hmatch] at hy
      obtain ⟨row, -, hrow⟩ := Option.bind_eq_some_iff.1 hm
      have hhas : c.Has (.member m) := (hp.has row m hrow).1
      have hchange : Change { c with factRows } c₂ := .row hhas hlt hy
      obtain rfl := yields_attachRow.1 hy
      have hm' : m.index < ({ c with factRows } : Cube).factRows.size := by
        rw [hsize₁, hsize]
        exact hhas
      refine ⟨hgrows.tail hchange, ⟨_, rfl⟩, by rw [factRows_size_withRow]; exact hsize₁, ?_, ?_⟩
      · intro r hr
        rw [List.length_append, List.length_singleton] at hr
        rcases Nat.lt_succ_iff_lt_or_eq.1 hr with hr | rfl
        · exact howner r hr
        · exact ⟨m, hm⟩
      · -- The new row is the greatest so far, so that it comes last in the list of its owner.
        intro i
        rw [rowsAt_withRow hm', List.length_append, List.length_singleton, List.range_succ,
          List.filter_append, ← List.append_assoc, ← hat]
        by_cases hi : i = m
        · rw [if_pos hi, Array.toList_push, hi, List.filter_singleton, hm]
          simp
        · rw [if_neg hi, List.filter_singleton, hm]
          simp [Ne.symm hi]

end Facts

end Assembly

end CubeQuery
