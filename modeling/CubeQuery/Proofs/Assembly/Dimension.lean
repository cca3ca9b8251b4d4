import CubeQuery.Proofs.Assembly.Nested
import CubeQuery.Proofs.Assembly.Parting
import CubeQuery.Proofs.Assembly.Regular

/-!
A whole dimension. Its fact rows come to lie below a member exactly if the tables say so, and they
stay there while other dimensions are added.
-/

namespace CubeQuery

namespace DimensionLayout

/-- Whether a row of the dimension table belongs to the member of a depth and position below the All
member. With level columns, the values of the row begin with the path that the member stands for;
with a parent column, the row of the member lies on the way up. -/
def Below (d : DimensionLayout) (table : Table) (key row depth position : Nat) : Prop :=
  match d.parentColumn? with
  | none => ∃ columns : List Nat,
      List.Forall₂ (fun name column => table.requireColumn name = .ok column)
        d.levelColumns columns ∧
      (table.pathsIn columns table.rowCount depth)[position]? =
        some ((table.valuePath columns row).take depth)
  | some name => ∃ parent own : Nat, table.requireColumn name = .ok parent ∧
      (table.rowsOfDepth key parent depth)[position]? = some own ∧
      ∃ n, table.rowUp? key parent n row = some own

/-- Whether a fact row belongs to the member of a depth and position below the All member: the row
of the dimension table that it refers to does. -/
def Covers (d : DimensionLayout) (catalog : Catalog) (fact : Table) (depth position r : Nat) :
    Prop :=
  ∃ table key foreignKey row, catalog.find? d.table = some table ∧
    table.requireColumn d.keyColumn = .ok key ∧
    fact.requireColumn d.foreignKey = .ok foreignKey ∧ row < table.rowCount ∧
    Key.ofValue (table.cell row key) = Key.ofValue (fact.cell r foreignKey) ∧
    d.Below table key row depth position

end DimensionLayout

namespace Cube

/-- Every fact row has its one place in the hierarchy, and lies below those members that the tables
say it belongs to. -/
structure Bound (catalog : Catalog) (d : DimensionLayout) (c : Cube) (h : HierarchyId) : Prop where
  parted : Parted c h
  covers : ∀ m, c.Has (.member m) → (c.member m).hierarchy = h → c.depth m ≠ 0 →
    ∀ r < c.factTable.rowCount, (∃ b n, c.Has (.member b) ∧ c.ancestor? n b = some m ∧
      r ∈ c.rowsAt b) ↔ d.Covers catalog c.factTable (c.depth m) (c.member m).position r

/-! ### Other dimensions -/

namespace Keeps

variable {c c' : Cube}

theorem bound {catalog : Catalog} {d : DimensionLayout} {h : HierarchyId} (hk : Keeps c c')
    (hc : Graph c) (hc' : Graph c') (hh : c.Has (.hierarchy h)) (hb : Bound catalog d c h) :
    Bound catalog d c' h := by
  constructor
  · exact hk.parted hc hc' hh hb.parted
  · intro m hm hmh hdepth r hr
    have hm : c.Has (.member m) := hk.member_has hc hc' hm (hmh ▸ hh)
    rw [hk.member m hm] at hmh ⊢
    rw [hk.depth hc hm] at hdepth ⊢
    rw [hk.factTable] at hr ⊢
    rw [← hb.covers m hm hmh hdepth r hr]
    constructor
    · rintro ⟨b, n, hbhas, hn, hrow⟩
      have hsame := (hc'.ancestor? hbhas hn).2.1
      rw [hk.member m hm, hmh] at hsame
      have hold := hk.member_has hc hc' hbhas (hsame ▸ hh)
      rw [hk.ancestor? hc hold] at hn
      rw [hk.rowsAt b hold] at hrow
      exact ⟨b, n, hold, hn, hrow⟩
    · rintro ⟨b, n, hold, hn, hrow⟩
      rw [← hk.ancestor? hc hold] at hn
      rw [← hk.rowsAt b hold] at hrow
      exact ⟨b, n, hk.has _ hold, hn, hrow⟩

end Keeps

end Cube

namespace Assembly

open CubeQuery.Cube

/-! ### One dimension -/

section Dimension

variable {c c' : Cube} {layout : DimensionLayout} {catalog : Catalog}

theorem yields_checkDimension {u : Unit} (hy : Yields (checkDimension layout) c u c') : c' = c := by
  unfold checkDimension at hy
  simp only [yields_bind, yields_guard, yields_get] at hy
  obtain ⟨-, _, _, ⟨rfl, rfl⟩, -, -, hy⟩ := hy
  split at hy
  · exact absurd hy yields_fail
  · exact (yields_pure.1 hy).2

theorem yields_requireTable {name : String} {table : Table} :
    Yields (requireTable catalog name) c table c' ↔ catalog.find? name = some table ∧ c' = c := by
  unfold requireTable
  cases catalog.find? name <;> simp [eq_comm]

/-- The levels of either kind. -/
theorem placed_addLevels {c₀ : Cube} {h : HierarchyId} {a : MemberId} {top : LevelId}
    {table : Table} {key : Nat} {rows : KeyRows} {u : Unit} (hg : Graph c₀) (hd : Draft c₀ c h a)
    (htop : (c.hierarchy h).levels = [top])
    (hkey : table.requireColumn layout.keyColumn = .ok key)
    (hrows : keyRows table layout.keyColumn key = .ok rows)
    (hy : Yields (match layout.parentColumn? with
      | none => do
        let members ← addRegularLevels layout table h a
        attachFacts layout rows members
      | some column => do
        let members ← addNestedLevels layout column table rows h a
        attachFacts layout rows members) c u c') :
    ∃ members c₁, Draft c₀ c₁ h a ∧ Placed c₁ h table members (layout.Below table key) ∧
      (c₁.hierarchy h).kind = (c.hierarchy h).kind ∧
      (layout.parentColumn? = none → ∀ (row : Nat) m, members[row]? = some m →
        c₁.depth m + 1 = (c₁.hierarchy h).levels.length) ∧
      Yields (attachFacts layout rows members) c₁ u c' := by
  unfold DimensionLayout.Below
  cases hparent : layout.parentColumn? with
  | none =>
    simp only [hparent, yields_bind] at hy
    obtain ⟨members, c₁, hmembers, hy⟩ := hy
    obtain ⟨hd₁, hdeepest, columns, hcolumns, hsize, hhas, hbelow⟩ :=
      placed_addRegularLevels hg hd htop hmembers
    have hkind := preserves_addRegularLevels (kind_addLevel h) (kind_addChild h) _ _ _ hmembers
    refine ⟨members, c₁, hd₁, ⟨hsize, hhas, ?_⟩, hkind, fun _ => hdeepest, hy⟩
    intro row b m hb hm hh hdepth
    rw [hbelow row b m hb hm hh hdepth]
    constructor
    · intro hpath
      exact ⟨columns, hcolumns, hpath⟩
    · rintro ⟨columns', hcolumns', hpath⟩
      -- A column is found by its name, so the paths are those over the columns of the levels.
      obtain rfl : columns = columns' := by
        have hunique : Relator.RightUnique fun (name : String) (column : Nat) =>
            table.requireColumn name = .ok column :=
          fun _ _ _ h₁ h₂ => Except.ok.inj (h₁.symm.trans h₂)
        exact hunique.forall₂ hcolumns hcolumns'
      exact hpath
  | some column =>
    simp only [hparent, yields_bind] at hy
    obtain ⟨members, c₁, hmembers, hy⟩ := hy
    obtain ⟨hd₁, parent, hcolumn, hsize, hhas, hbelow⟩ :=
      placed_addNestedLevels hg hd htop hkey hrows hmembers
    have hkind := preserves_addNestedLevels (kind_addLevel h) (kind_addChild h) _ _ _ hmembers
    refine ⟨members, c₁, hd₁, ⟨hsize, hhas, ?_⟩, hkind,
      fun h => absurd h (Option.some_ne_none column), hy⟩
    intro row b m hb hm hh hdepth
    rw [hbelow row b m hb hm hh hdepth]
    constructor
    · rintro ⟨own, hown, hup⟩
      exact ⟨parent, own, hcolumn, hown, hup⟩
    · rintro ⟨parent', own, hcolumn', hown, hup⟩
      obtain rfl : parent = parent' := Except.ok.inj (hcolumn.symm.trans hcolumn')
      exact ⟨own, hown, hup⟩

section Facts

variable {c₀ : Cube} {h : HierarchyId} {a : MemberId} {table : Table} {key foreignKey : Nat}
  {rows : KeyRows} {members : Array MemberId}

/-- Other dimensions do not notice the new fact rows. -/
theorem keeps_attached {Below : (row depth position : Nat) → Prop} (hc : Graph c₀)
    (hd : Draft c₀ c h a) (hp : Placed c h table members Below)
    (hat : Attached c c' (referred? rows members c.factTable foreignKey) c.factTable.rowCount) :
    Keeps c₀ c' := by
  have hrows (m) (hm : c₀.Has (.member m)) : c'.rowsAt m = c₀.rowsAt m := by
    rw [← hd.rowsAt, ← Array.toList_inj, hat.rowsAt, List.append_right_eq_self,
      List.filter_eq_nil_iff]
    intro r _ howner
    obtain ⟨row, -, hrow⟩ := Option.bind_eq_some_iff.1 (of_decide_eq_true howner)
    exact hd.member_new hc (hp.has row m hrow).2 hm
  obtain ⟨factRows, rfl⟩ := hat.same
  exact ⟨hd.keeps.has, hd.keeps.hierarchy, hd.keeps.level, hd.keeps.member, hrows,
    hd.keeps.factTable⟩

/-- The members of the new dimension get exactly the rows that refer to their own rows. -/
theorem mem_rowsAt_attached {m : MemberId} {r : Nat} (hc : Graph c₀) (hcontent : Content c₀)
    (hd : Draft c₀ c h a) (hrows : keyRows table layout.keyColumn key = .ok rows)
    (hat : Attached c c' (referred? rows members c.factTable foreignKey) c.factTable.rowCount)
    (hh : (c.member m).hierarchy = h) :
    r ∈ c'.rowsAt m ↔ r < c.factTable.rowCount ∧ ∃ row, row < table.rowCount ∧
      Key.ofValue (table.cell row key) = Key.ofValue (c.factTable.cell r foreignKey) ∧
      members[row]? = some m := by
  rw [hat.mem_rowsAt, hd.rowsAt_eq_empty hc hcontent hh]
  simp only [Array.not_mem_empty, false_or, referred?, Option.bind_eq_some_iff,
    keyRows_eq_ok hrows, and_assoc]

theorem bound_attached (hc : Graph c₀) (hcontent : Content c₀) (hd : Draft c₀ c h a)
    (hp : Placed c h table members (layout.Below table key))
    (hdeepest : (c.hierarchy h).kind = .regular → ∀ (row : Nat) m, members[row]? = some m →
      c.depth m + 1 = (c.hierarchy h).levels.length)
    (htable : catalog.find? layout.table = some table)
    (hkey : table.requireColumn layout.keyColumn = .ok key)
    (hrows : keyRows table layout.keyColumn key = .ok rows)
    (hforeign : c.factTable.requireColumn layout.foreignKey = .ok foreignKey)
    (hat : Attached c c' (referred? rows members c.factTable foreignKey) c.factTable.rowCount) :
    Bound catalog layout c' h := by
  constructor
  · exact parted_attached hc hcontent hd hp hdeepest hat
  · intro m hm hh hdepth r hr
    rw [hat.has_iff] at hm
    rw [hat.member] at hh ⊢
    rw [hat.depth] at hdepth ⊢
    rw [hat.factTable] at hr ⊢
    constructor
    -- From the member that owns the fact row to its row of the table, and back.
    · rintro ⟨b, n, hb, hn, hrow⟩
      rw [hat.has_iff] at hb
      rw [hat.ancestor?] at hn
      have hbh := (hd.graph.ancestor? hb hn).2.1.symm.trans hh
      obtain ⟨-, row, hlt, hsame, hmember⟩ :=
        (mem_rowsAt_attached hc hcontent hd hrows hat hbh).1 hrow
      exact ⟨table, key, foreignKey, row, htable, hkey, hforeign, hlt, hsame,
        (hp.below row b m hmember hm hh hdepth).1 ⟨n, hn⟩⟩
    · rintro ⟨table', key', foreignKey', row, htable', hkey', hforeign', hlt, hsame, hbelow⟩
      obtain rfl : table = table' := Option.some.inj (htable.symm.trans htable')
      obtain rfl : key = key' := Except.ok.inj (hkey.symm.trans hkey')
      obtain rfl : foreignKey = foreignKey' := Except.ok.inj (hforeign.symm.trans hforeign')
      obtain ⟨b, hb⟩ : ∃ b, members[row]? = some b :=
        ⟨_, Array.getElem?_eq_getElem (hp.size.symm ▸ hlt)⟩
      obtain ⟨hhas, hbh⟩ := hp.has row b hb
      obtain ⟨n, hn⟩ := (hp.below row b m hb hm hh hdepth).2 hbelow
      exact ⟨b, n, (hat.has_iff _).2 hhas, by rw [hat.ancestor?, hn],
        (mem_rowsAt_attached hc hcontent hd hrows hat hbh).2 ⟨hr, row, hlt, hsame, hb⟩⟩

end Facts

/-- The root of a dimension comes first, then its levels, and the fact rows last. -/
theorem draft_addDimension {u : Unit} (hc : Graph c)
    (hy : Yields (addDimension catalog layout) c u c') :
    ∃ table key rows a top c₁, catalog.find? layout.table = some table ∧
      table.requireColumn layout.keyColumn = .ok key ∧
      keyRows table layout.keyColumn key = .ok rows ∧ Draft c c₁ ⟨c.hierarchies.size⟩ a ∧
      (c₁.hierarchy ⟨c.hierarchies.size⟩).levels = [top] ∧
      (c₁.hierarchy ⟨c.hierarchies.size⟩).kind =
        (if layout.parentColumn?.isSome then .parentChild else .regular) ∧
      Yields (match layout.parentColumn? with
        | none => do
          let members ← addRegularLevels layout table ⟨c.hierarchies.size⟩ a
          attachFacts layout rows members
        | some column => do
          let members ← addNestedLevels layout column table rows ⟨c.hierarchies.size⟩ a
          attachFacts layout rows members) c₁ u c' := by
  unfold addDimension at hy
  simp only [yields_bind, yields_requireTable, yields_guard, yields_consult] at hy
  obtain ⟨_, c₁, hcheck, table, c₂, ⟨htable, hc₂⟩, -, key, c₃, ⟨hkey, hc₃⟩, hy⟩ := hy
  have hc₁ := yields_checkDimension hcheck
  subst c₃ c₂ c₁
  cases hrows : keyRows table layout.keyColumn key with
  | error fault => simp [hrows] at hy
  | ok rows =>
    rw [hrows] at hy
    simp only [yields_bind] at hy
    obtain ⟨⟨h⟩, c₁, h₁, top, c₂, h₂, a, c₃, h₃, hy⟩ := hy
    obtain ⟨hd, htop, hkind⟩ := Draft.root hc h₁ h₂ h₃
    obtain rfl : h = c.hierarchies.size := hd.index
    exact ⟨table, key, rows, a, top, c₃, htable, hkey, hrows, hd, htop, hkind, hy⟩

theorem bound_addDimension {u : Unit} (hc : Graph c) (hcontent : Content c)
    (hy : Yields (addDimension catalog layout) c u c') :
    Grows c c' ∧ Keeps c c' ∧ c'.measures = c.measures ∧
      c'.hierarchies.size = c.hierarchies.size + 1 ∧
      Bound catalog layout c' ⟨c.hierarchies.size⟩ := by
  obtain ⟨table, key, rows, a, top, c₁, htable, hkey, hrows, hd, htop, hkind, hy⟩ :=
    draft_addDimension hc hy
  obtain ⟨members, c₂, hd, hp, hsame, hdeepest, hfacts⟩ := placed_addLevels hc hd htop hkey hrows hy
  have hregular : (c₂.hierarchy ⟨c.hierarchies.size⟩).kind = .regular →
      layout.parentColumn? = none := by
    rw [hsame, hkind]
    cases layout.parentColumn? <;> simp
  obtain ⟨foreignKey, hforeign, hat⟩ :=
    attached_attachFacts (hcontent.grows hc hd.grows).factRows_size hp hfacts
  refine ⟨hd.grows.trans hat.grows, keeps_attached hc hd hp hat, ?_, ?_,
    bound_attached hc hcontent hd hp (hdeepest ∘ hregular) htable hkey hrows hforeign hat⟩ <;>
    obtain ⟨factRows, rfl⟩ := hat.same
  · exact hd.measures
  · exact hd.size

end Dimension

end Assembly

end CubeQuery
