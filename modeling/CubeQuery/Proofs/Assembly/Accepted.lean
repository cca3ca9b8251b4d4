import CubeQuery.Proofs.Assembly.Build
import CubeQuery.Proofs.Assembly.NestedRuns
import CubeQuery.Proofs.Assembly.RegularRuns

/-!
Which layouts are accepted over which tables. Every check of the builder is a condition on the
layout and the tables alone, and a unique name is never taken for any other reason than those given
here.
-/

namespace CubeQuery

open Assembly CubeQuery.Language

namespace DimensionLayout

/-- The levels that a dimension table yields, from its columns or from its nesting. -/
def LevelsFit (d : DimensionLayout) (table : Table) (key : Nat) : Prop :=
  match d.parentColumn? with
  | none => (∀ column ∈ d.levelColumns, ∃ index, table.requireColumn column = .ok index) ∧
      ("(All)" :: d.allCaption :: d.levelColumns).Nodup
  | some column => ∃ parent caption, table.requireColumn column = .ok parent ∧
      table.requireColumn (d.levelColumns.headD "") = .ok caption ∧
      table.Nests key parent caption d.allCaption

theorem LevelsFit.caption_ne {d : DimensionLayout} {table : Table} {key : Nat}
    (h : d.LevelsFit table key) : "(All)" ≠ d.allCaption := by
  have hnodup : ∃ names : List String, ("(All)" :: d.allCaption :: names).Nodup := by
    unfold LevelsFit at h
    split at h
    · exact ⟨_, h.2⟩
    · obtain ⟨_, _, -, -, hnests⟩ := h
      obtain ⟨_, -, hnames⟩ := hnests.names
      exact ⟨_, hnames⟩
  obtain ⟨names, hnodup⟩ := hnodup
  intro heq
  simp [heq] at hnodup

/-- What a dimension and its table must satisfy. -/
structure Fits (d : DimensionLayout) (table : Table) (key : Nat) (fact : Table) (foreignKey : Nat) :
    Prop where
  rows : 0 < table.rowCount
  keys : (table.keys key).Nodup
  levels : d.LevelsFit table key
  facts : fact.keys foreignKey ⊆ table.keys key

/-- What a dimension must satisfy on its own. -/
structure WellFormed (d : DimensionLayout) (catalog : Catalog) (fact : Table) : Prop where
  name : Text.sameName d.name measuresName = false
  levels : d.levelColumns ≠ []
  nested : d.parentColumn?.isSome → d.levelColumns.length = 1
  tables : ∃ table key foreignKey, catalog.find? d.table = some table ∧
    table.requireColumn d.keyColumn = .ok key ∧
    fact.requireColumn d.foreignKey = .ok foreignKey ∧ d.Fits table key fact foreignKey

end DimensionLayout

/-- What a measure must satisfy on its own. -/
def MeasureLayout.WellFormed (m : MeasureLayout) (fact : Table) : Prop :=
  (∃ index, fact.requireColumn m.column = .ok index ∧ fact.columnType? index = some .number) ∧
    (Aggregation.ofName? m.aggregation).isSome

/-- What a layout must satisfy over the tables of a catalog. -/
structure CubeLayout.WellFormed (layout : CubeLayout) (catalog : Catalog) : Prop where
  measures : layout.measures ≠ []
  dimensionNames : layout.dimensions.Pairwise fun d d' => Text.sameName d.name d'.name = false
  measureNames : layout.measures.Pairwise fun m m' => Text.sameName m.name m'.name = false
  tables : ∃ fact, catalog.find? layout.factTable = some fact ∧
    (∀ d ∈ layout.dimensions, d.WellFormed catalog fact) ∧
      ∀ m ∈ layout.measures, m.WellFormed fact

namespace Assembly

open CubeQuery.Cube

/-! ### The dimensions of a cube -/

section Dimensions

variable {c c' : Cube} {layout : DimensionLayout} {catalog : Catalog} {h : HierarchyId}
  {a : MemberId} {l : LevelId} {table : Table}

theorem dimensions_addLevel (h : HierarchyId) (name : String) (sourceColumn? : Option String) :
    Preserves (·.dimensions) (addLevel h name sourceColumn?) := by
  intro c l c' hy
  obtain ⟨-, -, rfl⟩ := yields_addLevel.1 hy
  rfl

theorem dimensions_addAllMember {caption : String} :
    Preserves (·.dimensions) (addAllMember h l caption) := by
  intro c m c' hy
  obtain ⟨-, -, rfl⟩ := yields_addAllMember.1 hy
  rfl

theorem dimensions_addChild (caption : String) (l : LevelId) (p : MemberId) :
    Preserves (·.dimensions) (addChild caption l p) := by
  intro c m c' hy
  obtain ⟨-, -, rfl⟩ := yields_addChild.1 hy
  rfl

theorem dimensions_attachFacts {rows : KeyRows} {members : Array MemberId} :
    Preserves (·.dimensions) (attachFacts layout rows members) := by
  refine .bind .get fun cube => .bind .consult fun foreignKey => .forM (fun row => ?_) _
  dsimp only
  split
  · intro c u c' hy
    obtain rfl := yields_attachRow.1 hy
    rfl
  · exact .fail

theorem dimensions_addDimension {u : Unit} (hy : Yields (addDimension catalog layout) c u c') :
    c'.dimensions = c.dimensions.push (c.newDimension layout) := by
  unfold addDimension at hy
  simp only [yields_bind, yields_requireTable, yields_guard, yields_consult] at hy
  obtain ⟨_, c₁, hcheck, table, c₂, ⟨-, rfl⟩, -, key, c₃, ⟨-, rfl⟩, hy⟩ := hy
  obtain rfl := yields_checkDimension hcheck
  cases hrows : keyRows table layout.keyColumn key with
  | error fault => simp [hrows] at hy
  | ok rows =>
    simp only [hrows] at hy
    obtain ⟨h, c₁, h₁, hy⟩ := yields_bind.1 hy
    have hrest : c'.dimensions = c₁.dimensions := by
      revert hy
      refine Preserves.bind (dimensions_addLevel _ _ _)
        (fun l => .bind dimensions_addAllMember fun a => ?_) c₁ u c'
      split
      · exact .bind (preserves_addRegularLevels dimensions_addLevel dimensions_addChild)
          fun _ => dimensions_attachFacts
      · exact .bind (preserves_addNestedLevels dimensions_addLevel dimensions_addChild)
          fun _ => dimensions_attachFacts
    obtain ⟨-, -, -, rfl⟩ := yields_addHierarchy.1 h₁
    rw [hrest]
    rfl

theorem hierarchyName_mem (hc : Coherent c) (hh : c.Has (.hierarchy h)) :
    c.hierarchyName h ∈ c.dimensions.toList.map (·.name) := by
  have hd : h.index < c.dimensions.size := hc.graph.dimensions_size ▸ hh
  rw [← (hc.titled.dimension ⟨h.index⟩ hd).2]
  refine List.mem_map_of_mem (Array.mem_toList_iff.2 ?_)
  rw [dimension, Array.getD_eq_getD_getElem?, Array.getElem?_eq_getElem hd]
  exact Array.getElem_mem hd

/-! ### One dimension -/

theorem runs_checkDimension : Runs (checkDimension layout) c ↔
    Text.sameName layout.name measuresName = false ∧
      (∀ name ∈ c.dimensions.toList.map (·.name), Text.sameName name layout.name = false) ∧
      layout.levelColumns ≠ [] ∧
      (layout.parentColumn?.isSome → layout.levelColumns.length = 1) := by
  have hlast : Runs (if layout.parentColumn?.isSome && layout.levelColumns.length ≠ 1 then
      fail (.parentChildLevels layout.name) else pure ()) c ↔
        (layout.parentColumn?.isSome → layout.levelColumns.length = 1) := by
    split <;> simp_all
  have hother : (c.dimensions.any fun d => Text.sameName d.name layout.name) = false ↔
      ∀ name ∈ c.dimensions.toList.map (·.name), Text.sameName name layout.name = false := by
    rw [List.forall_mem_map, ← Array.any_toList, List.any_eq_false]
    simp only [Bool.not_eq_true]
  simp only [checkDimension, runs_guard, runs_get_bind, Bool.not_eq_true, hother, hlast, ne_eq]

theorem runs_requireTable_bind {α : Type} {name : String} {f : Table → Assembly α} :
    Runs (requireTable catalog name >>= f) c ↔
      ∃ table, catalog.find? name = some table ∧ Runs (f table) c := by
  rw [runs_bind]
  constructor
  · rintro ⟨table, c₁, hy, hrest⟩
    obtain ⟨htable, rfl⟩ := yields_requireTable.1 hy
    exact ⟨table, htable, hrest⟩
  · rintro ⟨table, htable, hrest⟩
    exact ⟨table, c, yields_requireTable.2 ⟨htable, rfl⟩, hrest⟩

/-- The levels of either kind, and the fact rows. -/
theorem runs_addLevels {c₀ : Cube} {key : Nat} {rows : KeyRows} {top : LevelId}
    (hc : Coherent c₀) (ht : table.Made) (hrowCount : 0 < table.rowCount)
    (hkey : table.requireColumn layout.keyColumn = .ok key)
    (hrows : keyRows table layout.keyColumn key = .ok rows) (hcaption : "(All)" ≠ layout.allCaption)
    (hn : Titles c₀ c h a layout.allCaption []) (htop : (c.hierarchy h).levels = [top]) :
    Runs (match layout.parentColumn? with
      | none => do
        let members ← addRegularLevels layout table h a
        attachFacts layout rows members
      | some column => do
        let members ← addNestedLevels layout column table rows h a
        attachFacts layout rows members) c ↔
      layout.LevelsFit table key ∧ ∃ foreignKey,
        c₀.factTable.requireColumn layout.foreignKey = .ok foreignKey ∧
          c₀.factTable.keys foreignKey ⊆ table.keys key := by
  unfold DimensionLayout.LevelsFit
  cases hparent : layout.parentColumn? with
  | none =>
    refine runs_bind_iff (runs_addRegularLevels hc ht hcaption hn htop) fun members c₁ hy => ?_
    obtain ⟨hd, -, _, -, hp⟩ := placed_addRegularLevels hc.graph hn.draft htop hy
    rw [runs_attachFacts hp.size hrows, hd.keeps.factTable]
  | some column =>
    refine runs_bind_iff (runs_addNestedLevels hc hrowCount hkey hrows hcaption hn htop)
      fun members c₁ hy => ?_
    obtain ⟨hd, _, -, hp⟩ := placed_addNestedLevels hc.graph hn.draft htop hkey hrows hy
    rw [runs_attachFacts hp.size hrows, hd.keeps.factTable]

/-- The whole hierarchy of a dimension whose name is new. -/
theorem runs_addHierarchyOf {kind : HierarchyKind} {key : Nat} {rows : KeyRows} (hc : Coherent c)
    (hfree : ∀ rest, c.names[bracketedPath (layout.name :: rest)]? = none) (ht : table.Made)
    (hrowCount : 0 < table.rowCount) (hkey : table.requireColumn layout.keyColumn = .ok key)
    (hrows : keyRows table layout.keyColumn key = .ok rows) :
    Runs (do
      let h ← addHierarchy layout kind
      let l ← addLevel h "(All)" none
      let a ← addAllMember h l layout.allCaption
      match layout.parentColumn? with
      | none => do
        let members ← addRegularLevels layout table h a
        attachFacts layout rows members
      | some column => do
        let members ← addNestedLevels layout column table rows h a
        attachFacts layout rows members) c ↔
      layout.LevelsFit table key ∧ ∃ foreignKey,
        c.factTable.requireColumn layout.foreignKey = .ok foreignKey ∧
          c.factTable.keys foreignKey ⊆ table.keys key := by
  rw [runs_root hfree fun h l a c₁ c₂ c₃ h₁ h₂ h₃ => ?_]
  · exact and_iff_right_of_imp fun hfits => hfits.1.caption_ne
  · have hcaption := (runs_addAllMember_iff hfree h₁ h₂).1 ⟨a, c₃, h₃⟩
    have htop := (Draft.root hc.graph h₁ h₂ h₃).2.1
    exact runs_addLevels hc ht hrowCount hkey hrows hcaption (.root hc h₁ h₂ h₃) htop

/-- Once the name has passed the check, no unique name begins with it. -/
theorem free_of_checkDimension {u : Unit} {c₁ : Cube} (hc : Coherent c)
    (hcheck : Yields (checkDimension layout) c u c₁) (rest : List String) :
    c.names[bracketedPath (layout.name :: rest)]? = none := by
  obtain ⟨hname, hnew, -⟩ := runs_checkDimension.1 ⟨u, c₁, hcheck⟩
  refine hc.free_of_new (fun h hh heq => ?_) ?_ rest
  · have hother := hnew _ (hierarchyName_mem hc hh)
    rw [heq, Text.sameName_refl] at hother
    cases hother
  · intro heq
    rw [heq, measuresName, Text.sameName_refl] at hname
    cases hname

/-- A dimension with a new name is added if it is well-formed. -/
theorem runs_addDimension (hc : Coherent c) (hmade : ∀ t ∈ catalog.tables, t.Made) :
    Runs (addDimension catalog layout) c ↔ layout.WellFormed catalog c.factTable ∧
      ∀ name ∈ c.dimensions.toList.map (·.name), Text.sameName name layout.name = false := by
  rw [addDimension, runs_bind_iff runs_checkDimension (Q := ∃ table key foreignKey,
    catalog.find? layout.table = some table ∧ table.requireColumn layout.keyColumn = .ok key ∧
    c.factTable.requireColumn layout.foreignKey = .ok foreignKey ∧
    layout.Fits table key c.factTable foreignKey)]
  · constructor
    · rintro ⟨⟨hname, hnew, hlevels, hnested⟩, htables⟩
      exact ⟨⟨hname, hlevels, hnested, htables⟩, hnew⟩
    · rintro ⟨⟨hname, hlevels, hnested, htables⟩, hnew⟩
      exact ⟨⟨hname, hnew, hlevels, hnested⟩, htables⟩
  intro u c₁ hcheck
  obtain rfl := yields_checkDimension hcheck
  have hfree := free_of_checkDimension hc hcheck
  simp only [runs_requireTable_bind, runs_guard, runs_consult_bind]
  refine exists_congr fun table => ?_
  have hrowCount : ¬ table.isEmpty = true ↔ 0 < table.rowCount := by
    rw [Table.isEmpty, beq_iff_eq, Nat.pos_iff_ne_zero]
  rw [hrowCount]
  constructor
  · rintro ⟨htable, hrows, key, hkey, hrest⟩
    have ht := hmade table (List.mem_of_find?_eq_some htable)
    cases hfound : keyRows table layout.keyColumn key with
    | error fault => simp [hfound] at hrest
    | ok rows =>
      rw [hfound] at hrest
      obtain ⟨hlevels, foreignKey, hforeign, hfacts⟩ :=
        (runs_addHierarchyOf hc hfree ht hrows hkey hfound).1 hrest
      exact ⟨key, foreignKey, htable, hkey, hforeign, hrows, exists_keyRows_iff.1 ⟨rows, hfound⟩,
        hlevels, hfacts⟩
  · rintro ⟨key, foreignKey, htable, hkey, hforeign, hfits⟩
    have ht := hmade table (List.mem_of_find?_eq_some htable)
    obtain ⟨rows, hfound⟩ := exists_keyRows_iff.2 hfits.keys
    refine ⟨htable, hfits.rows, key, hkey, ?_⟩
    rw [hfound]
    exact (runs_addHierarchyOf hc hfree ht hfits.rows hkey hfound).2
      ⟨hfits.levels, foreignKey, hforeign, hfits.facts⟩

end Dimensions

/-! ### All dimensions and measures -/

section Loops

variable {c c' : Cube} {catalog : Catalog} {fact : Table} {dimensions : List DimensionLayout}
  {measures : List MeasureLayout}

/-- What dimensions leave for the next one. -/
structure Prepared (c : Cube) (fact : Table) (done : List DimensionLayout) : Prop where
  coherent : Coherent c
  factTable : c.factTable = fact
  measures : c.measures = #[]
  names : c.dimensions.toList.map (·.name) = done.map (·.name)

theorem Prepared.addDimension {done : List DimensionLayout} {d : DimensionLayout}
    (hp : Prepared c fact done) (hy : Yields (addDimension catalog d) c () c') :
    Prepared c' fact (done ++ [d]) := by
  obtain ⟨hgrows, hkeeps, hmeasures, -⟩ :=
    bound_addDimension hp.coherent.graph hp.coherent.content hy
  refine ⟨hp.coherent.grows hgrows, hkeeps.factTable.trans hp.factTable,
    hmeasures.trans hp.measures, ?_⟩
  rw [dimensions_addDimension hy, Array.toList_push, List.map_append, hp.names, List.map_append]
  rfl

theorem runs_addDimensions (dimensions : List DimensionLayout) (hp : Prepared c fact [])
    (hmade : ∀ t ∈ catalog.tables, t.Made) :
    Runs (dimensions.forM (addDimension catalog)) c ↔
      (∀ d ∈ dimensions, d.WellFormed catalog fact) ∧
        dimensions.Pairwise fun d d' => Text.sameName d.name d'.name = false := by
  rw [← forall_split_iff]
  refine runs_forM (motive := fun done c => Prepared c fact done) hp ?_
  intro done d rest c _ hp
  refine ⟨?_, fun c' hy => hp.addDimension hy⟩
  rw [runs_addDimension hp.coherent hmade, hp.factTable, hp.names, List.forall_mem_map]

theorem prepared_addDimensions (hp : Prepared c fact [])
    (hy : Yields (dimensions.forM (addDimension catalog)) c () c') :
    Prepared c' fact dimensions :=
  forM_induction (motive := fun done c => Prepared c fact done) hy hp
    fun _ _ _ _ _ _ hp hy => hp.addDimension hy

/-- What measures leave for the next one. -/
structure Measured (c : Cube) (fact : Table) (done : List MeasureLayout) : Prop where
  coherent : Coherent c
  factTable : c.factTable = fact
  reserved : ∀ h, c.Has (.hierarchy h) → c.hierarchyName h ≠ measuresName
  names : c.measures.toList.map (·.name) = done.map (·.name)

theorem Measured.runs_addMeasure {done : List MeasureLayout} {m : MeasureLayout}
    (hm : Measured c fact done) : Runs (addMeasure m) c ↔
      m.WellFormed fact ∧ ∀ m' ∈ done, Text.sameName m'.name m.name = false := by
  have hother : (c.measures.any fun m' => Text.sameName m'.name m.name) = false ↔
      ∀ m' ∈ done, Text.sameName m'.name m.name = false := by
    rw [← List.forall_mem_map (f := MeasureLayout.name)
      (P := fun name => Text.sameName name m.name = false), ← hm.names, List.forall_mem_map,
      ← Array.any_toList, List.any_eq_false]
    simp only [Bool.not_eq_true]
  have hnumeric (index : Nat) : (fact.columnType? index).any ColumnType.isNumeric = true ↔
      fact.columnType? index = some .number := by
    rcases fact.columnType? index with _ | (_ | _ | _) <;> simp [ColumnType.isNumeric]
  constructor
  · rintro ⟨_, _, hy⟩
    obtain ⟨index, aggregation, hnew, hcolumn, htype, haggregation, -⟩ := yields_addMeasure.1 hy
    rw [hm.factTable] at hcolumn htype
    exact ⟨⟨⟨index, hcolumn, (hnumeric index).1 htype⟩, by simp [haggregation]⟩, hother.1 hnew⟩
  · rintro ⟨⟨⟨index, hcolumn, htype⟩, haggregation⟩, hnew⟩
    obtain ⟨aggregation, haggregation⟩ := Option.isSome_iff_exists.1 haggregation
    -- The unique name of a measure can have been taken by a measure of the same name only.
    have hfree : c.names[bracketedPath ["Measures", m.name]]? = none := by
      refine hm.coherent.free_measure hm.reserved fun i hi heq => ?_
      have hin : (c.measure i).name ∈ done.map (·.name) := by
        rw [← hm.names]
        refine List.mem_map_of_mem (Array.mem_toList_iff.2 ?_)
        rw [Cube.measure, Array.getD_eq_getD_getElem?, Array.getElem?_eq_getElem hi]
        exact Array.getElem_mem hi
      obtain ⟨m', hm', hsame⟩ := List.mem_map.1 hin
      have hdifferent := hnew m' hm'
      rw [hsame, heq, Text.sameName_refl] at hdifferent
      cases hdifferent
    exact ⟨(), _, yields_addMeasure.2 ⟨index, aggregation, hother.2 hnew,
      hm.factTable ▸ hcolumn, by rw [hm.factTable, hnumeric, htype], haggregation, hfree, rfl⟩⟩

theorem Measured.addMeasure {done : List MeasureLayout} {m : MeasureLayout}
    (hm : Measured c fact done) (hy : Yields (addMeasure m) c () c') :
    Measured c' fact (done ++ [m]) := by
  have hgrows : Grows c c' := .single (.measure hy)
  obtain ⟨_, _, -, -, -, -, -, rfl⟩ := yields_addMeasure.1 hy
  refine ⟨hm.coherent.grows hgrows, hm.factTable, hm.reserved, ?_⟩
  rw [withMeasure, Array.toList_push, List.map_append, hm.names, List.map_append]
  rfl

theorem runs_addMeasures (hm : Measured c fact []) :
    Runs (measures.forM addMeasure) c ↔ (∀ m ∈ measures, m.WellFormed fact) ∧
      measures.Pairwise fun m m' => Text.sameName m.name m'.name = false := by
  rw [← forall_split_iff]
  exact runs_forM (motive := fun done c => Measured c fact done) hm
    fun _ _ _ _ _ hm => ⟨hm.runs_addMeasure, fun _ hy => hm.addMeasure hy⟩

/-- No dimension is called like the measures, so that their names are free. -/
theorem Prepared.measured (hp : Prepared c fact dimensions)
    (hwell : ∀ d ∈ dimensions, d.WellFormed catalog fact) : Measured c fact [] := by
  refine ⟨hp.coherent, hp.factTable, fun h hh heq => ?_, by simp [hp.measures]⟩
  have hin := hierarchyName_mem hp.coherent hh
  rw [hp.names] at hin
  obtain ⟨d, hd, hname⟩ := List.mem_map.1 hin
  have hreserved := (hwell d hd).name
  rw [hname, heq, Text.sameName_refl] at hreserved
  cases hreserved

theorem runs_addAll {name : String} (hmade : ∀ t ∈ catalog.tables, t.Made) :
    Runs (do
      dimensions.forM (addDimension catalog)
      measures.forM addMeasure) (Cube.empty name fact) ↔
      ((∀ d ∈ dimensions, d.WellFormed catalog fact) ∧
        dimensions.Pairwise fun d d' => Text.sameName d.name d'.name = false) ∧
      (∀ m ∈ measures, m.WellFormed fact) ∧
        measures.Pairwise fun m m' => Text.sameName m.name m'.name = false := by
  have hp : Prepared (Cube.empty name fact) fact [] := ⟨.empty _ _, rfl, rfl, rfl⟩
  have hdimensions := runs_addDimensions dimensions hp hmade
  refine runs_bind_iff hdimensions fun _ c hy => runs_addMeasures ?_
  exact (prepared_addDimensions hp hy).measured (hdimensions.1 ⟨(), c, hy⟩).1

end Loops

end Assembly

/-- Exactly the well-formed layouts yield a cube. -/
theorem Cube.build_ok_iff_wellFormed {layout : CubeLayout} {catalog : Catalog}
    (hmade : ∀ t ∈ catalog.tables, t.Made) :
    (∃ c, Cube.build layout catalog = .ok c) ↔ layout.WellFormed catalog := by
  constructor
  · rintro ⟨c, hc⟩
    obtain ⟨fact, c₁, hfact, hmeasures, hdimensions, hy⟩ := build_eq_ok_iff.1 hc
    have hruns := (runs_addAll hmade).1 ⟨(), c, yields_bind.2 ⟨(), c₁, hdimensions, hy⟩⟩
    exact ⟨hmeasures, hruns.1.2, hruns.2.2, fact, hfact, hruns.1.1, hruns.2.1⟩
  · rintro ⟨hmeasures, hdimensionNames, hmeasureNames, fact, hfact, hdimensions, hall⟩
    obtain ⟨_, c, hy⟩ :=
      (runs_addAll hmade).2 ⟨⟨hdimensions, hdimensionNames⟩, hall, hmeasureNames⟩
    obtain ⟨_, c₁, hdimensions, hy⟩ := yields_bind.1 hy
    exact ⟨c, build_eq_ok_iff.2 ⟨fact, c₁, hfact, hmeasures, hdimensions, hy⟩⟩

namespace Sample

/-- A table that holds one row. -/
theorem made_of_push {name : String} {schema : List Column} {row : List Value} {t : Table}
    (h : (do (← Table.create name schema).push row) = .ok t) : t.Made := by
  obtain ⟨t₀, hcreate, hpush⟩ := bind_eq_ok_iff.1 h
  exact .push (.create hcreate) hpush

theorem made_of_mem_catalog : ∀ t ∈ catalog.tables, t.Made := by
  have hshops : (do (← Table.create "Shops" shops.schema).push [.text "a", .text "Rome"]) =
      .ok shops := rfl
  have hsales : (do (← Table.create "Sales" sales.schema).push [.text "a", .number 2.0]) =
      .ok sales := rfl
  intro t ht
  rcases List.mem_pair.1 ht with rfl | rfl
  · exact made_of_push hshops
  · exact made_of_push hsales

end Sample

theorem Cube.build_ok_iff_wellFormed_sample : (∀ t ∈ Sample.catalog.tables, t.Made) ∧
    (∃ c, Cube.build Sample.layout Sample.catalog = .ok c) ∧
      Sample.layout.WellFormed Sample.catalog :=
  ⟨Sample.made_of_mem_catalog, ⟨_, Sample.build_eq_cube⟩,
    (Cube.build_ok_iff_wellFormed Sample.made_of_mem_catalog).1 ⟨_, Sample.build_eq_cube⟩⟩

end CubeQuery
