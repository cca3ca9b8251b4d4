import CubeQuery.Proofs.Assembly.Facts
import CubeQuery.Proofs.Assembly.Keys
import CubeQuery.Proofs.Assembly.Runs
import CubeQuery.Proofs.Cube.FreeNames

/-!
When the root of a dimension, its levels and its fact rows can be added. The root of a new dimension
fails only over its All member, the levels fail if two of them or one of them and the All member
have the same name, and the fact rows fail if one of them refers to no row of the dimension table.
-/

namespace CubeQuery

open CubeQuery.Language

namespace Assembly

open CubeQuery.Cube

section Basic

variable {c : Cube}

theorem runs_addLevel {h : HierarchyId} {name : String} {sourceColumn? : Option String} :
    Runs (addLevel h name sourceColumn?) c ↔
      c.names[(c.newLevel h name sourceColumn?).uniqueName]? = none := by
  constructor
  · rintro ⟨_, _, hy⟩
    exact (yields_addLevel.1 hy).1
  · intro hfree
    exact ⟨_, _, yields_addLevel.2 ⟨hfree, rfl, rfl⟩⟩

theorem runs_addChild {caption : String} {l : LevelId} {p : MemberId} :
    Runs (addChild caption l p) c ↔
      c.names[(c.newChild caption l p).uniqueName]? = none := by
  constructor
  · rintro ⟨_, _, hy⟩
    exact (yields_addChild.1 hy).1
  · intro hfree
    exact ⟨_, _, yields_addChild.2 ⟨hfree, rfl, rfl⟩⟩

end Basic

/-! ### The root of a dimension -/

section Root

variable {α : Type} {c : Cube} {layout : DimensionLayout} {kind : HierarchyKind} {caption : String}

/-- What the first steps of a dimension leave for the later ones. -/
theorem levelNames_withRoot :
    (c.withRoot layout kind caption).levelNames ⟨c.hierarchies.size⟩ = ["(All)"] := by
  rw [levelNames, hierarchy_withRoot, if_pos rfl, List.map_singleton, level_withRoot, if_pos rfl]

theorem caption_withRoot :
    ((c.withRoot layout kind caption).member ⟨c.members.size⟩).caption = caption := by
  rw [member_withRoot, if_pos rfl]

theorem runs_addHierarchy
    (hfree : ∀ rest, c.names[bracketedPath (layout.name :: rest)]? = none) :
    Runs (addHierarchy layout kind) c := by
  refine ⟨_, _, yields_addHierarchy.2 ⟨?_, ?_, rfl, rfl⟩⟩
  · rw [← bracketedPath_single]
    exact hfree []
  · rw [← bracketedPath_single, withName, Std.HashMap.getElem?_insert, if_neg (by simp)]
    exact hfree [layout.name]

theorem runs_topLevel {c₁ : Cube} {h : HierarchyId}
    (hfree : ∀ rest, c.names[bracketedPath (layout.name :: rest)]? = none)
    (h₁ : Yields (addHierarchy layout kind) c h c₁) : Runs (addLevel h "(All)" none) c₁ := by
  obtain ⟨-, -, rfl, rfl⟩ := yields_addHierarchy.1 h₁
  rw [runs_addLevel, newLevel_uniqueName (by rw [hierarchy_withHierarchy, if_pos rfl]; rfl),
    names_withHierarchy, newDimension, newHierarchy, ← bracketedPath_single, if_neg (by simp),
    if_neg (by simp)]
  exact hfree _

theorem runs_addAllMember_iff {c₁ c₂ : Cube} {h : HierarchyId} {l : LevelId}
    (hfree : ∀ rest, c.names[bracketedPath (layout.name :: rest)]? = none)
    (h₁ : Yields (addHierarchy layout kind) c h c₁)
    (h₂ : Yields (addLevel h "(All)" none) c₁ l c₂) :
    Runs (addAllMember h l caption) c₂ ↔ "(All)" ≠ caption := by
  obtain ⟨-, -, rfl, rfl⟩ := yields_addHierarchy.1 h₁
  have hname : ((c.withHierarchy (c.newDimension layout) (c.newHierarchy layout kind)).hierarchy
      ⟨c.hierarchies.size⟩).uniqueName = bracketedPath [layout.name, layout.name] := by
    rw [hierarchy_withHierarchy, if_pos rfl]
    rfl
  -- What has been added since takes three names, of which only the last is in the way.
  have hnames (u : String) : c₂.names[u]? = none ↔
      bracketedPath [layout.name, layout.name, "(All)"] ≠ u ∧
      bracketedPath [layout.name, layout.name] ≠ u ∧ bracketedPath [layout.name] ≠ u ∧
      c.names[u]? = none := by
    obtain ⟨-, -, rfl⟩ := yields_addLevel.1 h₂
    rw [names_withLevel, newLevel_uniqueName hname, names_withHierarchy, newDimension,
      newHierarchy, bracketedPath_single]
    grind
  have hall : (c₂.hierarchy ⟨c.hierarchies.size⟩).uniqueName =
      bracketedPath [layout.name, layout.name] := by
    obtain ⟨-, -, rfl⟩ := yields_addLevel.1 h₂
    rw [hierarchy_withLevel (by simp [newLevel, Has])]
    split <;> exact hname
  have hruns : Runs (addAllMember ⟨c.hierarchies.size⟩ l caption) c₂ ↔
      c₂.names[bracketedPath [layout.name, layout.name, caption]]? = none := by
    rw [← newAllMember_uniqueName (l := l) hall]
    constructor
    · rintro ⟨_, _, hy⟩
      exact (yields_addAllMember.1 hy).1
    · intro hnone
      exact ⟨_, _, yields_addAllMember.2 ⟨hnone, rfl, rfl⟩⟩
  rw [hruns, hnames]
  simp [hfree]

theorem runs_root {rest : HierarchyId → MemberId → Assembly α} {Q : Prop}
    (hfree : ∀ rest, c.names[bracketedPath (layout.name :: rest)]? = none)
    (hrest : ∀ h l a c₁ c₂ c₃, Yields (addHierarchy layout kind) c h c₁ →
      Yields (addLevel h "(All)" none) c₁ l c₂ → Yields (addAllMember h l caption) c₂ a c₃ →
      (Runs (rest h a) c₃ ↔ Q)) :
    Runs (do
      let h ← addHierarchy layout kind
      let l ← addLevel h "(All)" none
      let a ← addAllMember h l caption
      rest h a) c ↔ "(All)" ≠ caption ∧ Q := by
  rw [runs_bind_iff (iff_true_intro (runs_addHierarchy hfree)) fun h c₁ h₁ =>
    runs_bind_iff (iff_true_intro (runs_topLevel hfree h₁)) fun l c₂ h₂ =>
      runs_bind_iff (runs_addAllMember_iff hfree h₁ h₂) fun a c₃ h₃ =>
        hrest h l a c₁ c₂ c₃ h₁ h₂ h₃, true_and, true_and]

end Root

/-! ### Further levels -/

section Levels

variable {c₀ c : Cube} {h : HierarchyId} {a : MemberId} {caption : String}

theorem levelNames_withLevel {name : String} {sourceColumn? : Option String} (hg : Graph c)
    (hh : c.Has (.hierarchy h)) :
    (c.withLevel (c.newLevel h name sourceColumn?)).levelNames h = c.levelNames h ++ [name] := by
  have hold : ∀ l ∈ (c.hierarchy h).levels,
      ((c.withLevel (c.newLevel h name sourceColumn?)).level l).name = (c.level l).name := by
    intro l hl
    obtain ⟨i, hi⟩ := List.mem_iff_getElem?.1 hl
    rw [level_withLevel, if_neg (Nat.ne_of_lt ((hg.levels_at h hh l i).1 hi).1)]
  have hin : c.Has (.hierarchy (c.newLevel h name sourceColumn?).hierarchy) := hh
  rw [levelNames, hierarchy_withLevel hin, if_pos newLevel_hierarchy.symm, List.map_append,
    List.map_singleton, List.map_congr_left hold, level_withLevel, if_pos rfl]
  rfl

/-- What is known of the levels that a dimension has so far. -/
structure Titles (c₀ c : Cube) (h : HierarchyId) (a : MemberId) (caption : String)
    (names : List String) : Prop where
  coherent : Coherent c
  draft : Draft c₀ c h a
  levels : c.levelNames h = "(All)" :: names
  caption : (c.member a).caption = caption

/-- At first there is only the level of the All member. -/
theorem Titles.root {c₁ c₂ c₃ : Cube} {l : LevelId} {layout : DimensionLayout}
    {kind : HierarchyKind} (hc : Coherent c₀) (h₁ : Yields (addHierarchy layout kind) c₀ h c₁)
    (h₂ : Yields (Assembly.addLevel h "(All)" none) c₁ l c₂)
    (h₃ : Yields (addAllMember h l caption) c₂ a c₃) : Titles c₀ c₃ h a caption [] := by
  have hcoherent : Coherent c₃ := hc.grows (.single (.root h₁ h₂ h₃))
  obtain ⟨hd, -⟩ := Draft.root hc.graph h₁ h₂ h₃
  obtain ⟨rfl, -, rfl, rfl⟩ := yields_root h₁ h₂ h₃
  exact ⟨hcoherent, hd, levelNames_withRoot, caption_withRoot⟩

/-- One more level gets a name that neither the levels before it nor the All member has. -/
theorem Titles.addLevel {names : List String} (ht : Titles c₀ c h a caption names) (name : String)
    (sourceColumn? : Option String) :
    (Runs (addLevel h name sourceColumn?) c ↔
        (name ≠ "(All)" ∧ name ≠ caption) ∧ ∀ n ∈ names, n ≠ name) ∧
      ∀ l c', Yields (Assembly.addLevel h name sourceColumn?) c l c' →
        Titles c₀ c' h a caption (names ++ [name]) := by
  have hh := ht.draft.has
  constructor
  · rw [runs_addLevel, ht.coherent.free_level_iff hh, ht.levels, ht.draft.allMember, ht.caption]
    grind
  · intro l c' hy
    obtain ⟨hd, -, -, -, -, -, -, hmembers⟩ := ht.draft.level hy
    have hgrows : Grows c c' := .single (.level hh hy)
    obtain ⟨-, -, rfl⟩ := yields_addLevel.1 hy
    refine ⟨ht.coherent.grows hgrows, hd, ?_, ht.caption⟩
    rw [levelNames_withLevel ht.coherent.graph hh, ht.levels, List.cons_append]

/-- A loop that adds levels fails if a name comes twice or, for other reasons, if an item is not
`Ready`. -/
theorem Titles.runs_levels {α β : Type} {f : α → Assembly β} (xs : List α) (nameOf : α → String)
    (Ready : α → Prop) (ht : Titles c₀ c h a caption []) (hcaption : "(All)" ≠ caption)
    (hf : ∀ x c, ∃ column,
      (Runs (f x) c ↔ Ready x ∧ Runs (Assembly.addLevel h (nameOf x) column) c) ∧
      ∀ y c', Yields (f x) c y c' → ∃ l, Yields (Assembly.addLevel h (nameOf x) column) c l c') :
    Runs (xs.mapM f) c ↔
      (∀ x ∈ xs, Ready x) ∧ ("(All)" :: caption :: xs.map nameOf).Nodup := by
  have hloop : Runs (xs.mapM f) c ↔ ∀ done x rest, xs = done ++ x :: rest →
      (Ready x ∧ nameOf x ≠ "(All)" ∧ nameOf x ≠ caption) ∧
        ∀ y ∈ done, nameOf y ≠ nameOf x := by
    refine runs_mapM (motive := fun done _ c => Titles c₀ c h a caption (done.map nameOf)) ht ?_
    rintro done x rest ys c - ht
    obtain ⟨column, hruns, hyields⟩ := hf x c
    obtain ⟨hfree, hnext⟩ := ht.addLevel (nameOf x) column
    refine ⟨by rw [hruns, hfree, List.forall_mem_map, ← and_assoc], fun y c' hy => ?_⟩
    obtain ⟨l, hy⟩ := hyields y c' hy
    simpa using hnext l c' hy
  rw [hloop, forall_split_iff]
  simp only [List.Nodup, List.pairwise_cons, List.pairwise_map, List.mem_cons, List.mem_map]
  grind

end Levels

/-! ### Fact rows -/

section Facts

variable {c : Cube} {layout : DimensionLayout} {table : Table} {key : Nat} {rows : KeyRows}
  {members : Array MemberId}

theorem runs_attachTurn {found? : Option MemberId} {row : Nat} {fault : SchemaFault} :
    Runs (match found? with
      | some member => attachRow row member
      | none => fail fault) c ↔ found?.isSome = true := by
  cases found? with
  | none => simp
  | some member => exact iff_of_true ⟨(), _, yields_attachRow.2 rfl⟩ rfl

theorem runs_attachFacts (hsize : members.size = table.rowCount)
    (hrows : keyRows table layout.keyColumn key = .ok rows) :
    Runs (attachFacts layout rows members) c ↔
      ∃ foreignKey, c.factTable.requireColumn layout.foreignKey = .ok foreignKey ∧
        c.factTable.keys foreignKey ⊆ table.keys key := by
  rw [attachFacts, runs_get_bind, runs_consult_bind]
  refine exists_congr fun foreignKey => and_congr_right fun _ => ?_
  have hfound (row : Nat) : ((rows[Key.ofValue (c.factTable.cell row foreignKey)]?).bind
      (members[·]?)).isSome = true ↔
        Key.ofValue (c.factTable.cell row foreignKey) ∈ table.keys key := by
    rw [mem_keys_iff hrows]
    cases hrow : rows[Key.ofValue (c.factTable.cell row foreignKey)]? with
    | none => simp
    | some found =>
      have hlt := ((keyRows_eq_ok hrows _ _).1 hrow).1
      rw [Option.bind_some, Array.getElem?_eq_getElem (hsize.symm ▸ hlt)]
      exact iff_of_true rfl ⟨found, rfl⟩
  refine (runs_forM (motive := fun _ _ => True) trivial fun _ row _ c' _ _ =>
    ⟨runs_attachTurn.trans (hfound row), fun _ _ => trivial⟩).trans ?_
  rw [forall_split_iff_mem, ← List.forall_mem_map]
  rfl

end Facts

end Assembly

end CubeQuery
