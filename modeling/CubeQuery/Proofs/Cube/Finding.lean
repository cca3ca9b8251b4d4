import CubeQuery.Proofs.Assembly.Accepted

/-!
Finding objects by name. Every name leaves its lower-case form in the index, so that a name which
finds nothing differs from all names of the cube in more than case. No dimension is called like the
measures, and no two measures are called alike.
-/

namespace CubeQuery

open Assembly CubeQuery.Language

namespace Cube

/-- Every unique name is known in lower case. -/
def Folded (c : Cube) : Prop :=
  ∀ name, name ∈ c.names → Text.lowercase name ∈ c.foldedNames

namespace Folded

variable {c c' : Cube} {name : String} {entity : Entity}

theorem empty (name : String) (fact : Table) : Folded (Cube.empty name fact) := by
  simp [Folded, Cube.empty]

theorem withName (hc : Folded c) : Folded (c.withName name entity) := by
  intro other hother
  rw [Cube.withName, Std.HashMap.mem_insert, beq_iff_eq] at hother
  rw [Cube.withName, Std.HashMap.mem_insertIfNew, beq_iff_eq]
  exact hother.imp (congrArg _) (hc other)

theorem withHierarchy {d : Dimension} {h : Hierarchy} (hc : Folded c) :
    Folded (c.withHierarchy d h) :=
  hc.withName.withName

theorem withLevel {l : Level} (hc : Folded c) : Folded (c.withLevel l) :=
  hc.withName

theorem withMember {m : Member} (hc : Folded c) : Folded (c.withMember m) :=
  hc.withName

theorem withMeasure {m : Measure} (hc : Folded c) : Folded (c.withMeasure m) :=
  hc.withName

theorem change (hc : Folded c) (h : Change c c') : Folded c' := by
  cases h with
  | root h₁ h₂ h₃ =>
    obtain ⟨-, -, -, rfl⟩ := yields_root h₁ h₂ h₃
    exact hc.withHierarchy.withLevel.withMember
  | level hh h =>
    obtain ⟨-, -, rfl⟩ := yields_addLevel.1 h
    exact hc.withLevel
  | child hl hp hhierarchy hordinal h =>
    obtain ⟨-, -, rfl⟩ := yields_addChild.1 h
    exact hc.withMember
  | row hm hrow h =>
    obtain rfl := yields_attachRow.1 h
    exact hc
  | measure h =>
    obtain ⟨_, _, -, -, -, -, -, rfl⟩ := yields_addMeasure.1 h
    exact hc.withMeasure

theorem grows (hc : Folded c) (h : Grows c c') : Folded c' := by
  induction h with
  | refl => exact hc
  | tail _ hchange ih => exact ih.change hchange

end Folded

variable {c : Cube}

/-- Everything that a cube has. -/
def entities (c : Cube) : List Entity :=
  (List.range c.dimensions.size).map (fun i => .dimension ⟨i⟩) ++
    (List.range c.hierarchies.size).map (fun i => .hierarchy ⟨i⟩) ++
    (List.range c.levels.size).map (fun i => .level ⟨i⟩) ++
    (List.range c.members.size).map (fun i => .member ⟨i⟩) ++
    (List.range c.measures.size).map (fun i => .measure ⟨i⟩)

theorem mem_entities {e : Entity} : e ∈ c.entities ↔ c.Has e := by
  rcases e with (⟨⟨i⟩⟩ | ⟨⟨i⟩⟩ | ⟨⟨i⟩⟩ | ⟨⟨i⟩⟩ | ⟨⟨i⟩⟩)
  all_goals simp [entities, Has]

theorem Named.find?_uniqueName (hn : Named c) {e : Entity} (he : c.Has e) :
    c.find? (c.uniqueName e) = some e := by
  rw [find?, (hn.names_iff _ e).2 ⟨he, rfl⟩]
  rfl

theorem Named.find?_eq_none (hn : Named c) {name : String}
    (h : ∀ e ∈ c.entities, Text.lowercase (c.uniqueName e) ≠ Text.lowercase name) :
    c.find? name = none := by
  rw [find?, Option.or_eq_none_iff, Option.eq_none_iff_forall_ne_some,
    Option.eq_none_iff_forall_ne_some]
  constructor
  · intro e he
    obtain ⟨hhas, hname⟩ := (hn.names_iff name e).1 he
    exact h e (mem_entities.2 hhas) (congrArg _ hname)
  · intro e he
    obtain ⟨hhas, hname⟩ := hn.folded _ e he
    exact h e (mem_entities.2 hhas) hname

/-- A name that finds nothing is not that of an object in any other case. -/
theorem Folded.lowercase_ne (hf : Folded c) (hn : Named c) {name : String}
    (hnone : c.find? name = none) {e : Entity} (he : c.Has e) :
    Text.lowercase (c.uniqueName e) ≠ Text.lowercase name := by
  intro hsame
  have hknown : c.uniqueName e ∈ c.names :=
    Std.HashMap.mem_iff_isSome_getElem?.2
      (Option.isSome_iff_exists.2 ⟨e, (hn.names_iff _ e).2 ⟨he, rfl⟩⟩)
  have hfolded := hf _ hknown
  rw [hsame, Std.HashMap.mem_iff_isSome_getElem?] at hfolded
  rw [find?, Option.or_eq_none_iff] at hnone
  rw [hnone.2] at hfolded
  cases hfolded

/-! ### Names of dimensions and measures -/

theorem sameName_addDimension {catalog : Catalog} {layout : DimensionLayout} {c' : Cube} {u : Unit}
    (hy : Yields (addDimension catalog layout) c u c') :
    Text.sameName layout.name measuresName = false := by
  unfold addDimension at hy
  obtain ⟨_, c₁, hcheck, -⟩ := yields_bind.1 hy
  exact (runs_checkDimension.1 ⟨_, c₁, hcheck⟩).1

theorem reserved_addDimensions {catalog : Catalog} {dimensions : List DimensionLayout} {c' : Cube}
    {u : Unit} (hempty : c.dimensions = #[])
    (hy : Yields (dimensions.forM (addDimension catalog)) c u c') :
    ∀ name ∈ c'.dimensions.toList.map (·.name), Text.sameName name measuresName = false := by
  refine forM_induction (motive := fun _ c' =>
    ∀ name ∈ c'.dimensions.toList.map (·.name), Text.sameName name measuresName = false) hy ?_ ?_
  · simp [hempty]
  · intro done d rest c₁ c₂ _ hreserved hy name hname
    rw [dimensions_addDimension hy, Array.toList_push, List.map_append] at hname
    rcases List.mem_append.1 hname with hold | hnew
    · exact hreserved name hold
    · obtain rfl := List.mem_singleton.1 hnew
      exact sameName_addDimension hy

/-- No two measures are called alike. -/
def MeasuresApart (c : Cube) : Prop :=
  c.measures.toList.Pairwise fun m m' => Text.sameName m.name m'.name = false

theorem apart_addMeasures {measures : List MeasureLayout} {c' : Cube} {u : Unit}
    (hempty : c.measures = #[]) (hy : Yields (measures.forM addMeasure) c u c') :
    c'.MeasuresApart := by
  refine forM_induction (motive := fun _ c' => c'.MeasuresApart) hy ?_ ?_
  · simp [MeasuresApart, hempty]
  · intro done m rest c₁ c₂ _ hapart hy
    obtain ⟨index, aggregation, hnew, -, -, -, -, rfl⟩ := yields_addMeasure.1 hy
    rw [MeasuresApart, Cube.withMeasure, Array.toList_push, List.pairwise_append]
    refine ⟨hapart, List.pairwise_singleton _ _, fun m' hm' other hother => ?_⟩
    obtain rfl := List.mem_singleton.1 hother
    rw [← Array.any_toList, List.any_eq_false] at hnew
    exact Bool.eq_false_iff.2 (hnew m' hm')

/-- All that the search for names relies on. -/
structure Findable (c : Cube) : Prop where
  coherent : Coherent c
  folded : Folded c
  /-- No dimension is called like the measures. -/
  reserved : ∀ h, c.Has (.hierarchy h) → Text.sameName (c.hierarchyName h) measuresName = false
  measures : MeasuresApart c

theorem findable_of_build {layout : CubeLayout} {catalog : Catalog}
    (h : Cube.build layout catalog = .ok c) : Findable c := by
  obtain ⟨fact, c₁, hfact, -, hdimensions, hmeasures⟩ := build_eq_ok_iff.1 h
  have hprepared : Prepared (Cube.empty layout.name fact) fact [] := ⟨.empty _ _, rfl, rfl, rfl⟩
  have hp := prepared_addDimensions hprepared hdimensions
  obtain ⟨hgrows₁, -⟩ := bound_addDimensions (.empty _ _) (.empty _ _) rfl hdimensions
  obtain ⟨hgrows₂, -, hsame, -⟩ := measure_addMeasures hp.measures hmeasures
  refine ⟨hp.coherent.grows hgrows₂, (Folded.empty _ _).grows (hgrows₁.trans hgrows₂), ?_,
    apart_addMeasures hp.measures hmeasures⟩
  intro h hh
  have hh₁ : c₁.Has (.hierarchy h) := by
    rw [Has, ← hsame]
    exact hh
  have hname : c.hierarchyName h = c₁.hierarchyName h := by
    rw [hierarchyName, hierarchyName, hierarchy, hierarchy, hsame]
  rw [hname]
  exact reserved_addDimensions rfl hdimensions _ (hierarchyName_mem hp.coherent hh₁)

namespace Findable

/-- Only the measures are looked for among the measures. -/
theorem head_reserved (hf : Findable c) {e : Entity} (he : c.Has e)
    (hmeasure : ∀ m, e ≠ .measure m) {first : String} {rest : List String}
    (htitle : c.title e = first :: rest) : Text.sameName first measuresName = false := by
  rcases hf.coherent.title_head he with ⟨h, hh, hhead⟩ | ⟨m, rfl, -⟩
  · rw [htitle] at hhead
    obtain rfl := Option.some.inj hhead
    exact hf.reserved h hh
  · exact absurd rfl (hmeasure m)

theorem measureByName? (hf : Findable c) {m : MeasureId} (hm : c.Has (.measure m)) :
    c.measureByName? (c.measure m).name = some m := by
  have hm : m.index < c.measures.size := hm
  have hget : c.measure m = c.measures[m.index] := (Array.getElem_eq_getD _).symm
  rw [Cube.measureByName?, Option.map_eq_some_iff]
  refine ⟨m.index, List.findIdx?_eq_some_iff_getElem.2 ⟨by simpa using hm, ?_, ?_⟩, rfl⟩
  · rw [Array.getElem_toList, hget, Text.sameName_refl]
  · intro j hj
    have hother := List.pairwise_iff_getElem.1 hf.measures j m.index (by simp; omega)
      (by simpa using hm) hj
    rw [Array.getElem_toList, Array.getElem_toList] at hother
    rw [Array.getElem_toList, hget, hother]
    exact Bool.false_ne_true

end Findable

end Cube

end CubeQuery
