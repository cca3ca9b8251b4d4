import CubeQuery.Proofs.Assembly.Dimension
import CubeQuery.Proofs.Cube.Names
import Mathlib.Tactic.IntervalCases

/-!
What is known of a cube that has been built. Every later theorem on cubes starts from here.
-/

namespace CubeQuery

open Assembly

namespace Cube

/-- The cube of a layout over loaded tables. -/
structure Built (layout : CubeLayout) (catalog : Catalog) (c : Cube) : Prop where
  graph : Graph c
  named : Named c
  content : Content c
  factTable : catalog.find? layout.factTable = some c.factTable
  dimensions : c.hierarchies.size = layout.dimensions.length
  bound : ∀ (i : Nat) d, layout.dimensions[i]? = some d → Bound catalog d c ⟨i⟩
  measures : c.measures.size = layout.measures.length
  measures_ne_nil : layout.measures ≠ []
  measure : ∀ (i : Nat) m, layout.measures[i]? = some m → ∃ columnIndex aggregation,
    c.factTable.requireColumn m.column = .ok columnIndex ∧
      c.factTable.columnType? columnIndex = some .number ∧
      Aggregation.ofName? m.aggregation = some aggregation ∧
      c.measure ⟨i⟩ = newMeasure m columnIndex aggregation

section Loops

variable {c c' : Cube} {layout : CubeLayout} {catalog : Catalog} {u : Unit}

/-- What each dimension brings with it and later ones keep holds of all of them in the end. -/
theorem each_addDimensions {P : DimensionLayout → Cube → HierarchyId → Prop}
    (hkeep : ∀ d c c' h, Keeps c c' → Grows c c' → Graph c → c.Has (.hierarchy h) → P d c h →
      P d c' h)
    (hnew : ∀ d c c', Graph c → Content c → Yields (addDimension catalog d) c () c' →
      P d c' ⟨c.hierarchies.size⟩)
    (hg : Graph c) (hcontent : Content c) (hempty : c.hierarchies.size = 0)
    (hy : Yields (layout.dimensions.forM (addDimension catalog)) c u c') :
    Grows c c' ∧ c'.factTable = c.factTable ∧ c'.measures = c.measures ∧
      c'.hierarchies.size = layout.dimensions.length ∧
      ∀ (i : Nat) d, layout.dimensions[i]? = some d → P d c' ⟨i⟩ := by
  refine forM_induction (motive := fun done c' => Grows c c' ∧ c'.factTable = c.factTable ∧
    c'.measures = c.measures ∧ c'.hierarchies.size = done.length ∧
    ∀ (i : Nat) d, done[i]? = some d → P d c' ⟨i⟩) hy ?_ ?_
  · exact ⟨.refl, rfl, rfl, hempty, by simp⟩
  · rintro done d rest c₁ c₂ - ⟨hgrows, hfact, hmeasures, hsize, heach⟩ hy
    have hg₁ := hg.grows hgrows
    have hcontent₁ := hcontent.grows hg hgrows
    obtain ⟨hgrows₂, hkeeps, hmeasures₂, hsize₂, -⟩ := bound_addDimension hg₁ hcontent₁ hy
    refine ⟨hgrows.trans hgrows₂, hkeeps.factTable.trans hfact, hmeasures₂.trans hmeasures,
      by simp [hsize₂, hsize], ?_⟩
    intro i d' hi
    rcases getElem?_concat_eq_some.1 hi with hi | ⟨rfl, rfl⟩
    · have hh : c₁.Has (.hierarchy ⟨i⟩) := by
        simpa [Has, hsize] using (List.getElem?_eq_some_iff.1 hi).1
      exact hkeep d' c₁ c₂ ⟨i⟩ hkeeps hgrows₂ hg₁ hh (heach i d' hi)
    · simpa [hsize] using hnew d' c₁ c₂ hg₁ hcontent₁ hy

theorem bound_addDimensions (hg : Graph c) (hcontent : Content c) (hempty : c.hierarchies.size = 0)
    (hy : Yields (layout.dimensions.forM (addDimension catalog)) c u c') :
    Grows c c' ∧ c'.factTable = c.factTable ∧ c'.measures = c.measures ∧
      c'.hierarchies.size = layout.dimensions.length ∧
      ∀ (i : Nat) d, layout.dimensions[i]? = some d → Bound catalog d c' ⟨i⟩ :=
  each_addDimensions (fun _ _ _ _ hk hgrows hc hh hb => hk.bound hc (hc.grows hgrows) hh hb)
    (fun _ _ _ hc hcontent hy => (bound_addDimension hc hcontent hy).2.2.2.2) hg hcontent hempty hy

theorem measure_addMeasures (hempty : c.measures = #[])
    (hy : Yields (layout.measures.forM addMeasure) c u c') :
    Grows c c' ∧ Keeps c c' ∧ c'.hierarchies = c.hierarchies ∧
      c'.measures.size = layout.measures.length ∧
      ∀ (i : Nat) m, layout.measures[i]? = some m → ∃ columnIndex aggregation,
        c.factTable.requireColumn m.column = .ok columnIndex ∧
          c.factTable.columnType? columnIndex = some .number ∧
          Aggregation.ofName? m.aggregation = some aggregation ∧
          c'.measure ⟨i⟩ = newMeasure m columnIndex aggregation := by
  refine forM_induction (motive := fun done c' => Grows c c' ∧ Keeps c c' ∧
    c'.hierarchies = c.hierarchies ∧ c'.measures.size = done.length ∧
    ∀ (i : Nat) m, done[i]? = some m → ∃ columnIndex aggregation,
      c.factTable.requireColumn m.column = .ok columnIndex ∧
        c.factTable.columnType? columnIndex = some .number ∧
        Aggregation.ofName? m.aggregation = some aggregation ∧
        c'.measure ⟨i⟩ = newMeasure m columnIndex aggregation) hy ?_ ?_
  · exact ⟨.refl, .refl c, rfl, by simp [hempty], by simp⟩
  · rintro done m rest c₁ c₂ - ⟨hgrows, hkeeps, hsame, hsize, hmeasure⟩ hy
    have hchange : Change c₁ c₂ := .measure hy
    obtain ⟨columnIndex, aggregation, -, hcolumn, hnumeric, haggregation, -, rfl⟩ :=
      yields_addMeasure.1 hy
    obtain ⟨type, htype, hnumber⟩ := (Option.any_eq_true _ _).1 hnumeric
    refine ⟨hgrows.tail hchange, hkeeps.trans .withMeasure, hsame, by simp [hsize], ?_⟩
    intro i m' hi
    rw [measure_withMeasure, hsize]
    rcases getElem?_concat_eq_some.1 hi with hi | ⟨rfl, rfl⟩
    · have hlt := (List.getElem?_eq_some_iff.1 hi).1
      rw [if_neg (by simpa using Nat.ne_of_lt hlt)]
      exact hmeasure i m' hi
    · rw [if_pos rfl]
      have htype : c.factTable.columnType? columnIndex = some .number := by
        rw [← hkeeps.factTable, htype, eq_of_beq hnumber]
      exact ⟨columnIndex, aggregation, by simpa [hkeeps.factTable] using hcolumn, by
        simpa using htype, by simpa using haggregation, by simp⟩

end Loops

theorem build_eq_ok_iff {layout : CubeLayout} {catalog : Catalog} {c : Cube} :
    Cube.build layout catalog = .ok c ↔ ∃ fact c₁, catalog.find? layout.factTable = some fact ∧
      layout.measures ≠ [] ∧
      Yields (layout.dimensions.forM (addDimension catalog)) (Cube.empty layout.name fact) () c₁ ∧
      Yields (layout.measures.forM addMeasure) c₁ () c := by
  unfold Cube.build
  cases catalog.find? layout.factTable with
  | none => simp [throw, throwThe, MonadExceptOf.throw]
  | some fact =>
    by_cases hmeasures : layout.measures = []
    · simp [hmeasures, throw, throwThe, MonadExceptOf.throw, bind, Except.bind]
    · simp only [if_neg hmeasures, Option.some.injEq]
      constructor
      · intro h
        -- Both loops are one run from the empty cube, of which only the cube is kept.
        cases hrun : StateT.run (do
            layout.dimensions.forM (addDimension catalog)
            layout.measures.forM addMeasure) (Cube.empty layout.name fact) with
        | error e =>
          rw [hrun] at h
          cases h
        | ok p =>
          rw [hrun] at h
          obtain rfl : p.2 = c := Except.ok.inj h
          obtain ⟨_, c₁, hdimensions, hrest⟩ := yields_bind.1 (show Yields _ _ p.1 p.2 from hrun)
          exact ⟨fact, c₁, rfl, hmeasures, hdimensions, hrest⟩
      · rintro ⟨_, c₁, rfl, -, hdimensions, hrest⟩
        have hrun : StateT.run (do
            layout.dimensions.forM (addDimension catalog)
            layout.measures.forM addMeasure) (Cube.empty layout.name fact) = .ok ((), c) :=
          yields_bind.2 ⟨(), c₁, hdimensions, hrest⟩
        rw [hrun]
        rfl

theorem built_of_build {layout : CubeLayout} {catalog : Catalog} {c : Cube}
    (h : Cube.build layout catalog = .ok c) : Built layout catalog c := by
  obtain ⟨fact, c₁, hfact, hmeasures, hdimensions, hrest⟩ := build_eq_ok_iff.1 h
  have hg := Graph.empty layout.name fact
  have hc := Content.empty layout.name fact
  obtain ⟨hgrows₁, hfact₁, hnone, hsize₁, hbound₁⟩ := bound_addDimensions hg hc rfl hdimensions
  obtain ⟨hgrows₂, hkeeps, hsame, hsize, hmeasure⟩ := measure_addMeasures hnone hrest
  have hgrows := hgrows₁.trans hgrows₂
  have hg₁ := hg.grows hgrows₁
  have hg₂ := hg.grows hgrows
  have hfact₂ : c.factTable = fact := hkeeps.factTable.trans hfact₁
  refine ⟨hg₂, (Named.empty _ _).grows hgrows, hc.grows hg hgrows, hfact₂ ▸ hfact, ?_, ?_, hsize,
    hmeasures, ?_⟩
  · rw [hsame, hsize₁]
  · intro i d hi
    have hh : c₁.Has (.hierarchy ⟨i⟩) := by
      simpa [Has, hsize₁] using (List.getElem?_eq_some_iff.1 hi).1
    exact hkeeps.bound hg₁ hg₂ hh (hbound₁ i d hi)
  · rw [hfact₁] at hmeasure
    rwa [hfact₂]

/-- What each dimension brings with it and all later steps keep holds of all of them in the cube. -/
theorem each_dimension_of_build {P : DimensionLayout → Cube → HierarchyId → Prop}
    {layout : CubeLayout} {catalog : Catalog} {c : Cube}
    (hkeep : ∀ d c c' h, Keeps c c' → Grows c c' → Graph c → c.Has (.hierarchy h) → P d c h →
      P d c' h)
    (hnew : ∀ d c c', Graph c → Content c → Yields (addDimension catalog d) c () c' →
      P d c' ⟨c.hierarchies.size⟩)
    (h : Cube.build layout catalog = .ok c) {i : Nat} {d : DimensionLayout}
    (hi : layout.dimensions[i]? = some d) : P d c ⟨i⟩ := by
  obtain ⟨fact, c₁, -, -, hdimensions, hrest⟩ := build_eq_ok_iff.1 h
  have hg := Graph.empty layout.name fact
  obtain ⟨hgrows₁, -, hnone, hsize, heach⟩ :=
    each_addDimensions hkeep hnew hg (Content.empty layout.name fact) rfl hdimensions
  obtain ⟨hgrows₂, hkeeps, -⟩ := measure_addMeasures hnone hrest
  have hh : c₁.Has (.hierarchy ⟨i⟩) := by
    simpa [Has, hsize] using (List.getElem?_eq_some_iff.1 hi).1
  exact hkeep d c₁ c ⟨i⟩ hkeeps hgrows₂ (hg.grows hgrows₁) hh (heach i d hi)

end Cube

/-! ### Names that are free -/

/-- Names that can be taken one after the other. -/
structure FreeNames (names : Std.HashMap String Entity) (us : List String) : Prop where
  nodup : us.Nodup
  absent : ∀ u ∈ us, names[u]? = none

namespace FreeNames

variable {names : Std.HashMap String Entity} {u : String} {us : List String}

theorem head (h : FreeNames names (u :: us)) : names[u]? = none :=
  h.absent u List.mem_cons_self

theorem insert (h : FreeNames names (u :: us)) (e : Entity) : FreeNames (names.insert u e) us := by
  obtain ⟨hnew, hnodup⟩ := List.nodup_cons.1 h.nodup
  refine ⟨hnodup, fun v hv => ?_⟩
  rw [Std.HashMap.getElem?_insert, if_neg (by simpa using fun heq : u = v => hnew (heq ▸ hv))]
  exact h.absent v (List.mem_cons_of_mem _ hv)

end FreeNames

/-! ### A cube with one member below the All member -/

namespace Sample

open CubeQuery.Cube

def shops : Table :=
  { name := "Shops", schema := [⟨"Id", .text⟩, ⟨"City", .text⟩], rowCount := 1
    columns := [#[.text "a"], #[.text "Rome"]] }

def sales : Table :=
  { name := "Sales", schema := [⟨"Shop", .text⟩, ⟨"Amount", .number⟩], rowCount := 1
    columns := [#[.text "a"], #[.number 2.0]] }

def catalog : Catalog := ⟨[shops, sales]⟩

def dimension : DimensionLayout := .create "Shop" "Shops" "Id" "Shop" ["City"]

def layout : CubeLayout :=
  { name := "Sample", factTable := "Sales", dimensions := [dimension]
    measures := [.create "Amount" "Amount"] }

def start : Cube := Cube.empty "Sample" sales

def withAll : Cube := start.withRoot dimension .regular "All Shop"

def withCity : Cube := withAll.withLevel (withAll.newLevel ⟨0⟩ "City" (some "City"))

def withRome : Cube := withCity.withMember (withCity.newChild "Rome" ⟨1⟩ ⟨0⟩)

def withSale : Cube := withRome.withRow 0 ⟨1⟩

def cube : Cube := withSale.withMeasure (newMeasure (.create "Amount" "Amount") 1 .sum)

theorem start_free (u : String) : start.names[u]? = none := by
  simp [start, Cube.empty]

theorem yields_withAll : ∃ c₁ c₂, Yields (addHierarchy dimension .regular) start ⟨0⟩ c₁ ∧
    Yields (addLevel ⟨0⟩ "(All)" none) c₁ ⟨0⟩ c₂ ∧
    Yields (addAllMember ⟨0⟩ ⟨0⟩ "All Shop") c₂ ⟨0⟩ withAll := by
  refine ⟨_, _, yields_addHierarchy.2 ⟨start_free _, ?_, rfl, rfl⟩,
    yields_addLevel.2 ⟨?_, rfl, rfl⟩, yields_addAllMember.2 ⟨?_, rfl, rfl⟩⟩
  · rw [withName, Std.HashMap.getElem?_insert, if_neg (by decide)]
    exact start_free _
  · simp only [names_withHierarchy]
    repeat rw [if_neg (by decide)]
    exact start_free _
  · simp only [names_withLevel, names_withHierarchy]
    repeat rw [if_neg (by decide)]
    exact start_free _

theorem yields_withCity : Yields (addLevel ⟨0⟩ "City" (some "City")) withAll ⟨1⟩ withCity := by
  refine yields_addLevel.2 ⟨?_, rfl, rfl⟩
  simp only [withAll, withRoot, names_withMember, names_withLevel, names_withHierarchy]
  repeat rw [if_neg (by decide)]
  exact start_free _

theorem yields_withRome : Yields (addChild "Rome" ⟨1⟩ ⟨0⟩) withCity ⟨1⟩ withRome := by
  refine yields_addChild.2 ⟨?_, rfl, rfl⟩
  simp only [withCity, withAll, withRoot, names_withMember, names_withLevel, names_withHierarchy]
  repeat rw [if_neg (by decide)]
  exact start_free _

theorem yields_cube : Yields (addMeasure (.create "Amount" "Amount")) withSale () cube := by
  refine yields_addMeasure.2 ⟨1, .sum, ?_, rfl, rfl, by decide, ?_, rfl⟩
  · simp [withSale, withRome, withCity, withAll, start, Cube.empty]
  · simp only [withSale, withRome, withCity, withAll, withRoot, names_withRow, names_withMember,
      names_withLevel, names_withHierarchy]
    repeat rw [if_neg (by decide)]
    exact start_free _

theorem yields_addDimension : Yields (addDimension catalog dimension) start () withSale := by
  have hname : Text.sameName "Shop" measuresName = false := by decide
  have hcheck : Yields (checkDimension dimension) start () start := by
    simp [checkDimension, dimension, DimensionLayout.create, hname, start, Cube.empty]
  have hrows : keyRows shops dimension.keyColumn 0 = .ok ((∅ : KeyRows).insert (.text "a") 0) := by
    simp [keyRows, shops, Table.cell, Table.cell?, Key.ofValue]
  have hlevels : Yields (dimension.levelColumns.mapM fun column => do
      let index ← consult (shops.requireColumn column)
      let level ← addLevel ⟨0⟩ column (some column)
      return (level, index)) withAll [(⟨1⟩, 1)] withCity := by
    refine yields_bind.2 ⟨(⟨1⟩, 1), withCity, ?_, yields_pure.2 ⟨rfl, rfl⟩⟩
    simp only [yields_bind, yields_consult, yields_pure]
    exact ⟨1, _, ⟨rfl, rfl⟩, _, _, yields_withCity, rfl, rfl⟩
  have hmembers : Yields (membersOfRows shops [(⟨1⟩, 1)] ⟨0⟩) withCity #[⟨1⟩] withRome := by
    simp only [membersOfRows, memberOfRow, childOf, shops, List.range_one, List.foldlM_cons,
      List.foldlM_nil, yields_bind, yields_pure, Std.HashMap.getElem?_empty]
    exact ⟨_, _, ⟨_, _, ⟨_, _, ⟨_, _, ⟨_, _, yields_withRome, rfl, rfl⟩, rfl, rfl⟩, rfl, rfl⟩, rfl,
      rfl⟩, rfl, rfl⟩
  have hfacts : Yields (attachFacts dimension ((∅ : KeyRows).insert (.text "a") 0) #[⟨1⟩]) withRome
      () withSale := by
    have hkey : Key.ofValue (withRome.factTable.cell 0 0) = .text "a" := rfl
    simp only [attachFacts, yields_bind, yields_get, yields_consult]
    refine ⟨_, _, ⟨rfl, rfl⟩, 0, _, ⟨rfl, rfl⟩, ?_⟩
    refine yields_bind.2 ⟨(), withSale, ?_, yields_pure.2 ⟨rfl, rfl⟩⟩
    simp [hkey, attachRow, withSale, withRow]
  obtain ⟨c₁, c₂, h₁, h₂, h₃⟩ := yields_withAll
  simp only [addDimension, yields_bind, yields_requireTable, yields_guard, yields_consult]
  refine ⟨(), _, hcheck, shops, _, ⟨rfl, rfl⟩, by decide, 0, _, ⟨rfl, rfl⟩, ?_⟩
  rw [hrows]
  simp only [yields_bind]
  refine ⟨_, _, h₁, _, _, h₂, _, _, h₃, ?_⟩
  exact yields_bind.2 ⟨#[⟨1⟩], withRome, yields_bind.2 ⟨_, _, hlevels, hmembers⟩, hfacts⟩

theorem build_eq_cube : Cube.build layout catalog = .ok cube :=
  build_eq_ok_iff.2 ⟨sales, withSale, rfl, by decide,
    yields_bind.2 ⟨(), _, yields_addDimension, yields_pure.2 ⟨rfl, rfl⟩⟩,
    yields_bind.2 ⟨(), _, yields_cube, yields_pure.2 ⟨rfl, rfl⟩⟩⟩

end Sample

/-! ### A cube with two dimensions over one table -/

namespace Games

open CubeQuery.Cube CubeQuery.Language

def places : Table :=
  { name := "Places", schema := [⟨"Id", .text⟩, ⟨"Region", .text⟩, ⟨"City", .text⟩], rowCount := 1
    columns := [#[.text "r"], #[.text "North"], #[.text "Rome"]] }

def games : Table :=
  { name := "Games", schema := [⟨"Home", .text⟩, ⟨"Away", .text⟩, ⟨"Goals", .number⟩], rowCount := 0
    columns := [#[], #[], #[]] }

def catalog : Catalog := ⟨[places, games]⟩

/-- The place that one of the two teams comes from. -/
def side (name : String) : DimensionLayout := .create name "Places" "Id" name ["Region", "City"]

def layout : CubeLayout :=
  { name := "Games", factTable := "Games", dimensions := [side "Home", side "Away"]
    measures := [.create "Goals" "Goals"] }

def start : Cube := Cube.empty "Games" games

section Side

variable (c : Cube) (name : String)

def withAll : Cube := c.withRoot (side name) .regular (side name).allCaption

def withRegion : Cube :=
  (withAll c name).withLevel
    ((withAll c name).newLevel ⟨c.hierarchies.size⟩ "Region" (some "Region"))

def withCity : Cube :=
  (withRegion c name).withLevel
    ((withRegion c name).newLevel ⟨c.hierarchies.size⟩ "City" (some "City"))

def withNorth : Cube :=
  (withCity c name).withMember
    ((withCity c name).newChild "North" ⟨c.levels.size + 1⟩ ⟨c.members.size⟩)

/-- The cube with one more side: a region with a city in it. -/
def withSide : Cube :=
  (withNorth c name).withMember
    ((withNorth c name).newChild "Rome" ⟨c.levels.size + 2⟩ ⟨c.members.size + 1⟩)

/-- The names that a side takes, from its dimension down to the city. -/
def newNames : List String :=
  let c₁ := c.withHierarchy (c.newDimension (side name)) (c.newHierarchy (side name) .regular)
  let c₂ := c₁.withLevel (c₁.newLevel ⟨c.hierarchies.size⟩ "(All)" none)
  [bracketed name, bracketedPath [name, name],
    (c₁.newLevel ⟨c.hierarchies.size⟩ "(All)" none).uniqueName,
    (c₂.newAllMember ⟨c.hierarchies.size⟩ ⟨c.levels.size⟩ (side name).allCaption).uniqueName,
    ((withAll c name).newLevel ⟨c.hierarchies.size⟩ "Region" (some "Region")).uniqueName,
    ((withRegion c name).newLevel ⟨c.hierarchies.size⟩ "City" (some "City")).uniqueName,
    ((withCity c name).newChild "North" ⟨c.levels.size + 1⟩ ⟨c.members.size⟩).uniqueName,
    ((withNorth c name).newChild "Rome" ⟨c.levels.size + 2⟩ ⟨c.members.size + 1⟩).uniqueName]

/-- The steps that add a side, none of which takes a name twice. -/
structure AddsSide : Prop where
  check : Yields (checkDimension (side name)) c () c
  all : ∃ c₁ c₂, Yields (addHierarchy (side name) .regular) c ⟨c.hierarchies.size⟩ c₁ ∧
    Yields (addLevel ⟨c.hierarchies.size⟩ "(All)" none) c₁ ⟨c.levels.size⟩ c₂ ∧
    Yields (addAllMember ⟨c.hierarchies.size⟩ ⟨c.levels.size⟩ (side name).allCaption) c₂
      ⟨c.members.size⟩ (withAll c name)
  region : Yields (addLevel ⟨c.hierarchies.size⟩ "Region" (some "Region")) (withAll c name)
    ⟨c.levels.size + 1⟩ (withRegion c name)
  city : Yields (addLevel ⟨c.hierarchies.size⟩ "City" (some "City")) (withRegion c name)
    ⟨c.levels.size + 2⟩ (withCity c name)
  north : Yields (addChild "North" ⟨c.levels.size + 1⟩ ⟨c.members.size⟩) (withCity c name)
    ⟨c.members.size + 1⟩ (withNorth c name)
  rome : Yields (addChild "Rome" ⟨c.levels.size + 2⟩ ⟨c.members.size + 1⟩) (withNorth c name)
    ⟨c.members.size + 2⟩ (withSide c name)

end Side

variable {c : Cube} {name : String}

theorem factTable_withSide : (withSide c name).factTable = c.factTable := by
  simp [withSide, withNorth, withCity, withRegion, withAll]

/-- By taking the names one after the other. -/
theorem AddsSide.of_free {rest : List String} (hcheck : Yields (checkDimension (side name)) c () c)
    (hfree : FreeNames c.names (newNames c name ++ rest)) :
    AddsSide c name ∧ FreeNames (withSide c name).names rest := by
  -- Each list starts with the name that the step it is called after takes.
  have hhierarchy := hfree.insert (.dimension ⟨c.dimensions.size⟩)
  have hlevel := hhierarchy.insert (.hierarchy ⟨c.hierarchies.size⟩)
  have hall := hlevel.insert (.level ⟨c.levels.size⟩)
  have hregion := hall.insert (.member ⟨c.members.size⟩)
  have hcity := hregion.insert (.level ⟨(withAll c name).levels.size⟩)
  have hnorth := hcity.insert (.level ⟨(withRegion c name).levels.size⟩)
  have hrome := hnorth.insert (.member ⟨(withCity c name).members.size⟩)
  have hrest := hrome.insert (.member ⟨(withNorth c name).members.size⟩)
  refine ⟨⟨hcheck, ⟨_, _, yields_addHierarchy.2 ⟨hfree.head, hhierarchy.head, rfl, rfl⟩,
    yields_addLevel.2 ⟨hlevel.head, rfl, rfl⟩, yields_addAllMember.2 ⟨hall.head, ?_, rfl⟩⟩,
    yields_addLevel.2 ⟨hregion.head, ?_, rfl⟩, yields_addLevel.2 ⟨hcity.head, ?_, rfl⟩,
    yields_addChild.2 ⟨hnorth.head, ?_, rfl⟩, yields_addChild.2 ⟨hrome.head, ?_, rfl⟩⟩, hrest⟩
  all_goals simp [withNorth, withCity, withRegion, withAll, withRoot]

theorem AddsSide.yields_levels (h : AddsSide c name) :
    Yields ((side name).levelColumns.mapM fun column => do
      let index ← consult (places.requireColumn column)
      let level ← addLevel ⟨c.hierarchies.size⟩ column (some column)
      return (level, index)) (withAll c name) [(⟨c.levels.size + 1⟩, 1), (⟨c.levels.size + 2⟩, 2)]
      (withCity c name) := by
  have hregion : places.requireColumn "Region" = .ok 1 := rfl
  have hcity : places.requireColumn "City" = .ok 2 := rfl
  simp only [side, DimensionLayout.create, List.mapM_cons, List.mapM_nil, yields_bind,
    yields_consult, yields_pure, hregion, hcity]
  exact ⟨_, _, ⟨1, _, ⟨rfl, rfl⟩, _, _, h.region, rfl, rfl⟩, _, _, ⟨_, _, ⟨2, _, ⟨rfl, rfl⟩, _, _,
    h.city, rfl, rfl⟩, _, _, ⟨rfl, rfl⟩, rfl, rfl⟩, rfl, rfl⟩

theorem AddsSide.yields_members (h : AddsSide c name) :
    Yields (membersOfRows places [(⟨c.levels.size + 1⟩, 1), (⟨c.levels.size + 2⟩, 2)]
      ⟨c.members.size⟩) (withCity c name) #[⟨c.members.size + 2⟩] (withSide c name) := by
  let found : ChildIndex :=
    (∅ : ChildIndex).insert (⟨c.members.size⟩, .text "North") ⟨c.members.size + 1⟩
  have hnorth : Yields (childOf ⟨c.levels.size + 1⟩ (places.cell 0 1) ⟨c.members.size⟩ ∅)
      (withCity c name) (⟨c.members.size + 1⟩, found) (withNorth c name) := by
    rw [childOf, Std.HashMap.getElem?_empty]
    exact yields_bind.2 ⟨_, _, h.north, yields_pure.2 ⟨rfl, rfl⟩⟩
  have hnew : found[((⟨c.members.size + 1⟩ : MemberId), levelKey (places.cell 0 2))]? = none := by
    rw [Std.HashMap.getElem?_insert, if_neg (by simp), Std.HashMap.getElem?_empty]
  have hrome : Yields (childOf ⟨c.levels.size + 2⟩ (places.cell 0 2) ⟨c.members.size + 1⟩ found)
      (withNorth c name) (⟨c.members.size + 2⟩,
        found.insert (⟨c.members.size + 1⟩, .text "Rome") ⟨c.members.size + 2⟩)
      (withSide c name) := by
    rw [childOf, hnew]
    exact yields_bind.2 ⟨_, _, h.rome, yields_pure.2 ⟨rfl, rfl⟩⟩
  have hrow : Yields (memberOfRow places [(⟨c.levels.size + 1⟩, 1), (⟨c.levels.size + 2⟩, 2)]
      ⟨c.members.size⟩ 0 ∅) (withCity c name) (⟨c.members.size + 2⟩,
        found.insert (⟨c.members.size + 1⟩, .text "Rome") ⟨c.members.size + 2⟩)
      (withSide c name) := by
    rw [memberOfRow, List.foldlM_cons]
    refine yields_bind.2 ⟨_, _, hnorth, ?_⟩
    rw [List.foldlM_cons]
    exact yields_bind.2 ⟨_, _, hrome, yields_pure.2 ⟨rfl, rfl⟩⟩
  have hcount : places.rowCount = 1 := rfl
  rw [membersOfRows, hcount, List.range_one, List.foldlM_cons]
  refine yields_bind.2 ⟨(#[⟨c.members.size + 2⟩], _), _, yields_bind.2 ⟨_, _,
    yields_bind.2 ⟨_, _, hrow, yields_pure.2 ⟨rfl, rfl⟩⟩, yields_pure.2 ⟨rfl, rfl⟩⟩,
    yields_pure.2 ⟨rfl, rfl⟩⟩

/-- No game has been played. -/
theorem yields_attachFacts (hfact : c.factTable = games) {foreign : Nat}
    (hforeign : games.requireColumn name = .ok foreign) (rows : KeyRows)
    (members : Array MemberId) :
    Yields (attachFacts (side name) rows members) c () c := by
  have hcount : games.rowCount = 0 := rfl
  simp only [attachFacts, yields_bind, yields_get, yields_consult]
  refine ⟨_, _, ⟨rfl, rfl⟩, foreign, _, ⟨hfact ▸ hforeign, rfl⟩, ?_⟩
  rw [hfact, hcount]
  exact yields_pure.2 ⟨rfl, rfl⟩

theorem AddsSide.yields (h : AddsSide c name) (hfact : c.factTable = games) {foreign : Nat}
    (hforeign : games.requireColumn name = .ok foreign) :
    Yields (addDimension catalog (side name)) c () (withSide c name) := by
  have hrows : keyRows places "Id" 0 = .ok ((∅ : KeyRows).insert (.text "r") 0) := by
    simp [keyRows, places, Table.cell, Table.cell?, Key.ofValue]
  have hgames : (withSide c name).factTable = games := factTable_withSide.trans hfact
  have hfacts := yields_attachFacts hgames hforeign ((∅ : KeyRows).insert (.text "r") 0)
    #[⟨c.members.size + 2⟩]
  obtain ⟨c₁, c₂, h₁, h₂, h₃⟩ := h.all
  simp only [addDimension, yields_bind, yields_requireTable, yields_guard, yields_consult]
  refine ⟨(), _, h.check, places, _, ⟨rfl, rfl⟩, by decide, 0, _, ⟨rfl, rfl⟩, ?_⟩
  have hkey : (side name).keyColumn = "Id" := rfl
  rw [hkey, hrows]
  simp only [yields_bind]
  refine ⟨_, _, h₁, _, _, h₂, _, _, h₃, ?_⟩
  exact yields_bind.2 ⟨_, _, yields_bind.2 ⟨_, _, h.yields_levels, h.yields_members⟩, hfacts⟩

def home : Cube := withSide start "Home"

def bothSides : Cube := withSide home "Away"

def cube : Cube := bothSides.withMeasure (newMeasure (.create "Goals" "Goals") 2 .sum)

/-- All names of the cube are free before it is built. -/
theorem freeNames_start : FreeNames start.names
    (newNames start "Home" ++ (newNames home "Away" ++ [bracketedPath ["Measures", "Goals"]])) where
  nodup := by decide
  absent u _ := by simp [start, Cube.empty]

theorem addsSide_home : AddsSide start "Home" ∧
    FreeNames home.names (newNames home "Away" ++ [bracketedPath ["Measures", "Goals"]]) := by
  have hname : Text.sameName "Home" measuresName = false := by decide
  refine AddsSide.of_free ?_ freeNames_start
  simp [checkDimension, side, DimensionLayout.create, hname, start, Cube.empty]

theorem addsSide_away :
    AddsSide home "Away" ∧ FreeNames bothSides.names [bracketedPath ["Measures", "Goals"]] := by
  have hname : Text.sameName "Away" measuresName = false := by decide
  have hother : Text.sameName "Home" "Away" = false := by decide
  have hdimensions : home.dimensions = #[start.newDimension (side "Home")] := rfl
  refine AddsSide.of_free ?_ addsSide_home.2
  simp [checkDimension, side, DimensionLayout.create, hname, hdimensions, newDimension, hother]

theorem factTable_bothSides : bothSides.factTable = games := by
  rw [bothSides, home, factTable_withSide, factTable_withSide]
  rfl

theorem yields_cube : Yields (addMeasure (.create "Goals" "Goals")) bothSides () cube := by
  refine yields_addMeasure.2 ⟨2, .sum, ?_, ?_, ?_, by decide, addsSide_away.2.head, rfl⟩
  · simp [bothSides, home, withSide, withNorth, withCity, withRegion, withAll, start, Cube.empty]
  · rw [factTable_bothSides]
    rfl
  · rw [factTable_bothSides]
    decide

theorem build_eq_cube : Cube.build layout catalog = .ok cube :=
  build_eq_ok_iff.2 ⟨games, bothSides, rfl, by decide,
    yields_bind.2 ⟨(), _, addsSide_home.1.yields rfl rfl,
      yields_bind.2
        ⟨(), _, addsSide_away.1.yields factTable_withSide rfl, yields_pure.2 ⟨rfl, rfl⟩⟩⟩,
    yields_bind.2 ⟨(), _, yields_cube, yields_pure.2 ⟨rfl, rfl⟩⟩⟩

end Games

end CubeQuery
