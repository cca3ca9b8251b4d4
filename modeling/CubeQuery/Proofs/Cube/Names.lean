import CubeQuery.Cube.Lookup
import CubeQuery.Proofs.Cube.Graph

/-!
Unique names. An object takes its name when it is added and keeps it, so the index of names and the
names that the objects carry say the same at every moment.
-/

namespace CubeQuery

open Assembly CubeQuery.Language

namespace Cube

/-- The index of names has exactly the objects of the cube, each under its own name. -/
structure Named (c : Cube) : Prop where
  names_iff : ∀ u e, c.names[u]? = some e ↔ c.Has e ∧ c.uniqueName e = u
  folded : ∀ u e, c.foldedNames[u]? = some e → c.Has e ∧ Text.lowercase (c.uniqueName e) = u

/-- `c'` has one object more than `c`, under a name that was free. -/
structure Adds (c c' : Cube) (entity : Entity) (name : String) : Prop where
  free : c.names[name]? = none
  has : ∀ e, c'.Has e ↔ c.Has e ∨ e = entity
  uniqueName : c'.uniqueName entity = name
  uniqueName_old : ∀ e, c.Has e → c'.uniqueName e = c.uniqueName e
  names : ∀ u, c'.names[u]? = if name = u then some entity else c.names[u]?
  folded : ∀ u e, c'.foldedNames[u]? = some e →
    c.foldedNames[u]? = some e ∨ e = entity ∧ Text.lowercase name = u

theorem foldedNames_insertIfNew {c : Cube} {name u : String} {entity e : Entity}
    (h : (c.foldedNames.insertIfNew (Text.lowercase name) entity)[u]? = some e) :
    c.foldedNames[u]? = some e ∨ e = entity ∧ Text.lowercase name = u := by
  rw [Std.HashMap.getElem?_insertIfNew] at h
  split at h
  · next hnew => exact .inr ⟨(Option.some.inj h).symm, by simpa using hnew.1⟩
  · exact .inl h

namespace Named

variable {c c' : Cube}

theorem empty (name : String) (fact : Table) : Named (Cube.empty name fact) := by
  constructor
  · intro u e
    cases e <;> simp [Cube.empty, Has]
  · intro u e h
    simp [Cube.empty] at h

theorem add {entity : Entity} {name : String} (hc : Named c) (h : Adds c c' entity name) :
    Named c' := by
  constructor
  · intro u e
    rw [h.names]
    constructor
    · split
      · next heq =>
        rintro ⟨rfl⟩
        exact ⟨(h.has _).2 (.inr rfl), h.uniqueName.trans heq⟩
      · intro he
        obtain ⟨hhas, hname⟩ := (hc.names_iff u e).1 he
        exact ⟨(h.has e).2 (.inl hhas), (h.uniqueName_old e hhas).trans hname⟩
    · rintro ⟨hhas, hname⟩
      rcases (h.has e).1 hhas with hold | rfl
      · have he := (hc.names_iff u e).2 ⟨hold, (h.uniqueName_old e hold).symm.trans hname⟩
        rw [if_neg]
        · exact he
        · rintro rfl
          rw [h.free] at he
          cases he
      · rw [if_pos (h.uniqueName.symm.trans hname)]
  · intro u e he
    rcases h.folded u e he with hold | ⟨rfl, rfl⟩
    · obtain ⟨hhas, hname⟩ := hc.folded u e hold
      exact ⟨(h.has e).2 (.inl hhas), by rw [h.uniqueName_old e hhas, hname]⟩
    · exact ⟨(h.has e).2 (.inr rfl), by rw [h.uniqueName]⟩

theorem withHierarchy {d : Dimension} {h : Hierarchy} (hc : Named c)
    (hd : c.names[d.uniqueName]? = none)
    (hh : (c.withName d.uniqueName (.dimension ⟨c.dimensions.size⟩)).names[h.uniqueName]? = none) :
    Named (c.withHierarchy d h) := by
  -- The dimension takes its name first, the hierarchy after it.
  let middle : Cube :=
    { c.withName d.uniqueName (.dimension ⟨c.dimensions.size⟩) with
      dimensions := c.dimensions.push d }
  have hfirst : Adds c middle (.dimension ⟨c.dimensions.size⟩) d.uniqueName := by
    refine ⟨hd, ?_, ?_, ?_, ?_, fun u e => foldedNames_insertIfNew⟩
    · rintro (⟨⟨i⟩⟩ | ⟨⟨i⟩⟩ | ⟨⟨i⟩⟩ | ⟨⟨i⟩⟩ | ⟨⟨i⟩⟩) <;> simp [middle, Has, withName]
      omega
    · simp [middle, uniqueName, Cube.dimension]
    · rintro (i | i | i | i | i) hi <;> try rfl
      exact congrArg Dimension.uniqueName (getD_push.trans (if_neg (Nat.ne_of_lt hi)))
    · intro u
      simp [middle, withName, Std.HashMap.getElem?_insert]
  have hsecond : Adds middle (c.withHierarchy d h) (.hierarchy ⟨c.hierarchies.size⟩)
      h.uniqueName := by
    refine ⟨hh, ?_, ?_, ?_, ?_, fun u e => foldedNames_insertIfNew⟩
    · rintro (⟨⟨i⟩⟩ | ⟨⟨i⟩⟩ | ⟨⟨i⟩⟩ | ⟨⟨i⟩⟩ | ⟨⟨i⟩⟩) <;>
        simp [middle, Has, withName, Cube.withHierarchy]
      omega
    · simp [uniqueName, hierarchy_withHierarchy]
    · rintro (i | i | i | i | i) hi <;> try rfl
      exact congrArg Hierarchy.uniqueName (getD_push.trans (if_neg (Nat.ne_of_lt hi)))
    · intro u
      simp [middle, withName, Cube.withHierarchy, Std.HashMap.getElem?_insert]
  exact (hc.add hfirst).add hsecond

theorem withLevel {l : Level} (hc : Named c) (hl : c.Has (.hierarchy l.hierarchy))
    (hfree : c.names[l.uniqueName]? = none) : Named (c.withLevel l) := by
  suffices Adds c (c.withLevel l) (.level ⟨c.levels.size⟩) l.uniqueName from hc.add this
  refine ⟨hfree, ?_, ?_, ?_, fun u => names_withLevel, fun u e => foldedNames_insertIfNew⟩
  · rintro (⟨⟨i⟩⟩ | ⟨⟨i⟩⟩ | ⟨⟨i⟩⟩ | ⟨⟨i⟩⟩ | ⟨⟨i⟩⟩) <;> simp [Has]
    omega
  · simp [uniqueName, level_withLevel]
  · rintro (i | i | i | i | i) hi <;> try rfl
    · simp only [uniqueName, hierarchy_withLevel hl]
      split <;> rfl
    · simp [uniqueName, level_withLevel, Nat.ne_of_lt (show i.index < c.levels.size from hi)]

theorem withMember {m : Member} (hc : Named c) (hm : c.Has (.level m.level))
    (hfree : c.names[m.uniqueName]? = none) : Named (c.withMember m) := by
  suffices Adds c (c.withMember m) (.member ⟨c.members.size⟩) m.uniqueName from hc.add this
  refine ⟨hfree, ?_, ?_, ?_, fun u => names_withMember, fun u e => foldedNames_insertIfNew⟩
  · rintro (⟨⟨i⟩⟩ | ⟨⟨i⟩⟩ | ⟨⟨i⟩⟩ | ⟨⟨i⟩⟩ | ⟨⟨i⟩⟩) <;> simp [Has]
    omega
  · simp [uniqueName, member_withMember]
  · rintro (i | i | i | i | i) hi <;> try rfl
    · simp only [uniqueName, level_withMember hm]
      split <;> rfl
    · simp [uniqueName, member_withMember, Nat.ne_of_lt (show i.index < c.members.size from hi)]

theorem withMeasure {m : Measure} (hc : Named c) (hfree : c.names[m.uniqueName]? = none) :
    Named (c.withMeasure m) := by
  suffices Adds c (c.withMeasure m) (.measure ⟨c.measures.size⟩) m.uniqueName from hc.add this
  refine ⟨hfree, ?_, ?_, ?_, fun u => names_withMeasure, fun u e => foldedNames_insertIfNew⟩
  · rintro (⟨⟨i⟩⟩ | ⟨⟨i⟩⟩ | ⟨⟨i⟩⟩ | ⟨⟨i⟩⟩ | ⟨⟨i⟩⟩) <;> simp [Has]
    omega
  · simp [uniqueName, measure_withMeasure]
  · rintro (i | i | i | i | i) hi <;> try rfl
    simp [uniqueName, measure_withMeasure, Nat.ne_of_lt (show i.index < c.measures.size from hi)]

theorem root {c₁ c₂ c₃ : Cube} {layout : DimensionLayout} {kind : HierarchyKind}
    {h : HierarchyId} {l : LevelId} {m : MemberId} {caption : String} (hc : Named c)
    (h₁ : Yields (addHierarchy layout kind) c h c₁) (h₂ : Yields (addLevel h "(All)" none) c₁ l c₂)
    (h₃ : Yields (addAllMember h l caption) c₂ m c₃) : Named c₃ := by
  obtain ⟨hd, hh, rfl, hc₁⟩ := yields_addHierarchy.1 h₁
  obtain ⟨hl, rfl, hc₂⟩ := yields_addLevel.1 h₂
  obtain ⟨hm, rfl, hc₃⟩ := yields_addAllMember.1 h₃
  have hhierarchy : Named c₁ := hc₁ ▸ hc.withHierarchy hd hh
  have hlevel : Named c₂ := by
    rw [hc₂]
    refine hhierarchy.withLevel ?_ hl
    simp [hc₁, Has]
  rw [hc₃]
  refine hlevel.withMember ?_ hm
  simp [hc₂, Has, newAllMember]

theorem change (hc : Named c) (h : Change c c') : Named c' := by
  cases h with
  | root h₁ h₂ h₃ => exact hc.root h₁ h₂ h₃
  | level hh h =>
    obtain ⟨hfree, -, rfl⟩ := yields_addLevel.1 h
    exact hc.withLevel hh hfree
  | child hl hp hhierarchy hordinal h =>
    obtain ⟨hfree, -, rfl⟩ := yields_addChild.1 h
    exact hc.withMember hl hfree
  | row hm hrow h =>
    obtain rfl := yields_attachRow.1 h
    exact ⟨hc.1, hc.2⟩
  | measure h =>
    obtain ⟨_, _, -, -, -, -, hfree, rfl⟩ := yields_addMeasure.1 h
    exact hc.withMeasure hfree

theorem grows (hc : Named c) (h : Grows c c') : Named c' := by
  induction h with
  | refl => exact hc
  | tail _ hchange ih => exact ih.change hchange

end Named

end Cube

end CubeQuery
