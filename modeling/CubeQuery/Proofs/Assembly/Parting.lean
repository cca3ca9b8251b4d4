import CubeQuery.Proofs.Assembly.Facts
import CubeQuery.Proofs.Assembly.Runs
import CubeQuery.Proofs.Cube.Content

/-!
What attaching the fact rows of a dimension leaves. Each fact row refers to one row of the dimension
table and goes to its member, so that the members of the hierarchy part the fact rows among
themselves. Other dimensions do not change this.
-/

namespace CubeQuery

namespace Cube

/-- Each fact row stands in the list of exactly one member of the hierarchy, and once there. The
lists ascend, and in a regular hierarchy only members of the last level have rows. -/
structure Parted (c : Cube) (h : HierarchyId) : Prop where
  owner : ∀ r < c.factTable.rowCount, ∃ m, c.Has (.member m) ∧ (c.member m).hierarchy = h ∧
    (c.rowsAt m).toList.count r = 1 ∧
    ∀ m', c.Has (.member m') → (c.member m').hierarchy = h → r ∈ c.rowsAt m' → m' = m
  bounded : ∀ m, c.Has (.member m) → (c.member m).hierarchy = h →
    ∀ r ∈ c.rowsAt m, r < c.factTable.rowCount
  ascending : ∀ m, c.Has (.member m) → (c.member m).hierarchy = h →
    (c.rowsAt m).toList.Pairwise (· < ·)
  deepest : (c.hierarchy h).kind = .regular → ∀ m, c.Has (.member m) →
    (c.member m).hierarchy = h → c.rowsAt m ≠ #[] → c.depth m + 1 = (c.hierarchy h).levels.length

namespace Parted

variable {c : Cube} {h : HierarchyId} {m m' : MemberId} {r : Nat}

theorem total (hp : Parted c h) (hr : r < c.factTable.rowCount) :
    ∃ m, c.Has (.member m) ∧ (c.member m).hierarchy = h ∧ r ∈ c.rowsAt m := by
  obtain ⟨m, hm, hh, hcount, -⟩ := hp.owner r hr
  refine ⟨m, hm, hh, Array.mem_toList_iff.1 (List.count_pos_iff.1 ?_)⟩
  omega

theorem unique (hp : Parted c h) (hm : c.Has (.member m)) (hh : (c.member m).hierarchy = h)
    (hm' : c.Has (.member m')) (hh' : (c.member m').hierarchy = h) (hr : r ∈ c.rowsAt m)
    (hr' : r ∈ c.rowsAt m') : m = m' := by
  obtain ⟨o, -, -, -, howner⟩ := hp.owner r (hp.bounded m hm hh r hr)
  rw [howner m hm hh hr, howner m' hm' hh' hr']

end Parted

theorem Keeps.parted {c c' : Cube} {h : HierarchyId} (hk : Keeps c c') (hc : Graph c)
    (hc' : Graph c') (hh : c.Has (.hierarchy h)) (hp : Parted c h) : Parted c' h := by
  have hold {m : MemberId} (hm : c'.Has (.member m)) (hmh : (c'.member m).hierarchy = h) :
      c.Has (.member m) ∧ (c.member m).hierarchy = h := by
    have hhas := hk.member_has hc hc' hm (hmh ▸ hh)
    exact ⟨hhas, by rw [← hk.member m hhas, hmh]⟩
  constructor
  · intro r hr
    rw [hk.factTable] at hr
    obtain ⟨m, hm, hmh, hcount, hunique⟩ := hp.owner r hr
    refine ⟨m, hk.has _ hm, by rw [hk.member m hm, hmh], by rw [hk.rowsAt m hm, hcount], ?_⟩
    intro m' hm' hmh' hr'
    obtain ⟨hm', hmh'⟩ := hold hm' hmh'
    rw [hk.rowsAt m' hm'] at hr'
    exact hunique m' hm' hmh' hr'
  · intro m hm hmh r hr
    obtain ⟨hm, hmh⟩ := hold hm hmh
    rw [hk.rowsAt m hm] at hr
    rw [hk.factTable]
    exact hp.bounded m hm hmh r hr
  · intro m hm hmh
    obtain ⟨hm, hmh⟩ := hold hm hmh
    rw [hk.rowsAt m hm]
    exact hp.ascending m hm hmh
  · intro hkind m hm hmh hrows
    obtain ⟨hm, hmh⟩ := hold hm hmh
    rw [hk.hierarchy h hh] at hkind ⊢
    rw [hk.rowsAt m hm] at hrows
    rw [hk.depth hc hm]
    exact hp.deepest hkind m hm hmh hrows

/-- Members of the new dimension have no rows yet. -/
theorem Draft.rowsAt_eq_empty {c₀ c : Cube} {h : HierarchyId} {a m : MemberId} (hc : Graph c₀)
    (hcontent : Content c₀) (hd : Draft c₀ c h a) (hh : (c.member m).hierarchy = h) :
    c.rowsAt m = #[] := by
  have hnew := hd.member_new hc hh
  rw [Has, Nat.not_lt, ← hcontent.factRows_size] at hnew
  rw [hd.rowsAt, Cube.rowsAt]
  simp [Array.getD_eq_getD_getElem?, hnew]

end Cube

namespace Assembly

open CubeQuery.Cube

variable {c₀ c c' : Cube} {h : HierarchyId} {a : MemberId} {table : Table} {foreignKey : Nat}
  {rows : KeyRows} {members : Array MemberId} {Below : (row depth position : Nat) → Prop}

/-- The fact rows are parted by the member that they refer to. -/
theorem parted_attached (hc : Graph c₀) (hcontent : Content c₀) (hd : Draft c₀ c h a)
    (hp : Placed c h table members Below) (hdeepest : (c.hierarchy h).kind = .regular →
      ∀ (row : Nat) m, members[row]? = some m → c.depth m + 1 = (c.hierarchy h).levels.length)
    (hat : Attached c c' (referred? rows members c.factTable foreignKey) c.factTable.rowCount) :
    Parted c' h := by
  -- Members of this hierarchy had no rows before, so they have what was attached, in its order.
  have hrows {m : MemberId} (hh : (c'.member m).hierarchy = h) : (c'.rowsAt m).toList =
      (List.range c.factTable.rowCount).filter fun r =>
        referred? rows members c.factTable foreignKey r = some m := by
    rw [hat.rowsAt, hd.rowsAt_eq_empty hc hcontent (by rwa [← hat.member])]
    rfl
  have hmem {m : MemberId} {r : Nat} (hh : (c'.member m).hierarchy = h) : r ∈ c'.rowsAt m ↔
      r < c.factTable.rowCount ∧ referred? rows members c.factTable foreignKey r = some m := by
    rw [← Array.mem_toList_iff, hrows hh, List.mem_filter, List.mem_range, decide_eq_true_iff]
  have hseat {m : MemberId} {r : Nat}
      (hm : referred? rows members c.factTable foreignKey r = some m) :
      ∃ row : Nat, members[row]? = some m ∧ c.Has (.member m) ∧ (c.member m).hierarchy = h := by
    obtain ⟨row, -, hrow⟩ := Option.bind_eq_some_iff.1 hm
    exact ⟨row, hrow, hp.has row m hrow⟩
  constructor
  · intro r hr
    rw [hat.factTable] at hr
    obtain ⟨m, howner⟩ := hat.owner r hr
    obtain ⟨-, -, hm, hh⟩ := hseat howner
    rw [← hat.member] at hh
    refine ⟨m, (hat.has_iff _).2 hm, hh, ?_, ?_⟩
    · rw [hrows hh, List.Nodup.count (List.nodup_range.filter _), if_pos]
      exact List.mem_filter.2 ⟨List.mem_range.2 hr, decide_eq_true howner⟩
    · intro m' _ hh' hr'
      have howner' := ((hmem hh').1 hr').2
      exact Option.some.inj (howner'.symm.trans howner)
  · intro m _ hh r hr
    rw [hat.factTable]
    exact ((hmem hh).1 hr).1
  · intro m _ hh
    rw [hrows hh]
    exact List.pairwise_lt_range.filter _
  · intro hkind m _ hh hne
    -- Fact rows go to members of rows of the table, which stand on the last level.
    obtain ⟨r, hr⟩ := Array.exists_mem_of_ne_empty _ hne
    obtain ⟨row, hrow, -⟩ := hseat ((hmem hh).1 hr).2
    rw [hat.hierarchy] at hkind ⊢
    rw [hat.depth]
    exact hdeepest hkind row m hrow

/-! ### The kind of a hierarchy -/

theorem kind_addLevel (h : HierarchyId) (i : HierarchyId) (name : String)
    (sourceColumn? : Option String) :
    Preserves (fun c => (c.hierarchy h).kind) (addLevel i name sourceColumn?) := by
  intro c l c' hy
  obtain ⟨-, -, rfl⟩ := yields_addLevel.1 hy
  exact kind_withLevel

theorem kind_addChild (h : HierarchyId) (caption : String) (l : LevelId) (p : MemberId) :
    Preserves (fun c => (c.hierarchy h).kind) (addChild caption l p) := by
  intro c m c' hy
  obtain ⟨-, -, rfl⟩ := yields_addChild.1 hy
  rfl

end Assembly

end CubeQuery
