import CubeQuery.Proofs.Cube.Graph

/-!
What members, measures and fact rows say about themselves: the captions and the names of members
follow those of their parents, and rows and columns are those of the fact table.
-/

namespace CubeQuery

open Assembly CubeQuery.Language

namespace Cube

structure Content (c : Cube) : Prop where
  factRows_size : c.factRows.size = c.members.size
  rows : ∀ m, ∀ row ∈ c.rowsAt m, row < c.factTable.rowCount
  no_captions : ∀ m, c.Has (.member m) → (c.member m).parent? = none → (c.member m).captions = []
  captions : ∀ m p, c.Has (.member m) → (c.member m).parent? = some p →
    (c.member m).captions = (c.member p).captions ++ [(c.member m).caption]
  uniqueName : ∀ m p, c.Has (.member m) → (c.member m).parent? = some p →
    (c.member m).uniqueName = (c.level (c.member m).level).uniqueName ++ "." ++
      bracketedPath (c.member m).captions
  column : ∀ m, c.Has (.measure m) → (c.measure m).columnIndex < c.factTable.schema.length

namespace Content

variable {c : Cube}

theorem empty (name : String) (fact : Table) : Content (Cube.empty name fact) := by
  constructor <;> simp [Cube.empty, Has, rowsAt]

theorem withRoot {layout : DimensionLayout} {kind : HierarchyKind} {caption : String}
    (hg : Graph c) (hc : Content c) : Content (c.withRoot layout kind caption) where
  factRows_size := by simp [hc.factRows_size]
  rows := by simpa using hc.rows
  no_captions m hm hp := by
    rcases has_member_withRoot.1 hm with rfl | hm
    · rw [member_withRoot, if_pos rfl]
    · rw [member_withRoot_of_has hm] at hp ⊢
      exact hc.no_captions m hm hp
  captions m p hm hp := by
    have hm := has_of_parent?_withRoot hm hp
    rw [member_withRoot_of_has hm] at hp ⊢
    rw [member_withRoot_of_has (hg.parent m p hm hp).1]
    exact hc.captions m p hm hp
  uniqueName m p hm hp := by
    have hm := has_of_parent?_withRoot hm hp
    rw [member_withRoot_of_has hm] at hp ⊢
    rw [level_withRoot_of_has (hg.level_has hm)]
    exact hc.uniqueName m p hm hp
  column := hc.column

theorem withLevel {h : HierarchyId} {name : String} {sourceColumn? : Option String}
    (hg : Graph c) (hc : Content c) : Content (c.withLevel (c.newLevel h name sourceColumn?)) := by
  refine ⟨hc.factRows_size, hc.rows, hc.no_captions, hc.captions, ?_, hc.column⟩
  intro m p hm hp
  rw [member_withLevel, level_withLevel_of_has (hg.level_has hm)]
  exact hc.uniqueName m p hm hp

theorem withChild {caption : String} {l : LevelId} {p : MemberId} (hg : Graph c) (hc : Content c)
    (hl : c.Has (.level l)) (hp : c.Has (.member p)) :
    Content (c.withMember (c.newChild caption l p)) where
  factRows_size := by simp [hc.factRows_size]
  rows := by simpa using hc.rows
  no_captions m hm hq := by
    have hm := has_of_parent?_withChild hm hq
    rw [member_withMember_of_has hm] at hq ⊢
    exact hc.no_captions m hm hq
  captions m q hm hq := by
    rcases has_member_withMember.1 hm with rfl | hm
    · rw [member_withMember, if_pos rfl] at hq ⊢
      obtain rfl := Option.some.inj hq
      rw [member_withMember_of_has hp]
      rfl
    · rw [member_withMember_of_has hm] at hq ⊢
      rw [member_withMember_of_has (hg.parent m q hm hq).1]
      exact hc.captions m q hm hq
  uniqueName m q hm hq := by
    have hname {i} : ((c.withMember (c.newChild caption l p)).level i).uniqueName =
        (c.level i).uniqueName := by
      rw [level_withMember hl]
      split <;> rfl
    rw [hname]
    rcases has_member_withMember.1 hm with rfl | hm
    · rw [member_withMember, if_pos rfl]
      rfl
    · rw [member_withMember_of_has hm] at hq ⊢
      exact hc.uniqueName m q hm hq
  column := hc.column

theorem withRow {row : Nat} {m : MemberId} (hc : Content c) (hm : c.Has (.member m))
    (hrow : row < c.factTable.rowCount) : Content (c.withRow row m) := by
  refine ⟨?_, ?_, hc.no_captions, hc.captions, hc.uniqueName, hc.column⟩
  · simp [hc.factRows_size]
  · intro i r hr
    rw [rowsAt_withRow (by rwa [hc.factRows_size])] at hr
    split at hr
    · rcases Array.mem_push.1 hr with hold | rfl
      · exact hc.rows i r hold
      · exact hrow
    · exact hc.rows i r hr

theorem withMeasure {m : Measure} (hc : Content c)
    (hnumeric : (c.factTable.columnType? m.columnIndex).any ColumnType.isNumeric = true) :
    Content (c.withMeasure m) := by
  refine ⟨hc.factRows_size, hc.rows, hc.no_captions, hc.captions, hc.uniqueName, ?_⟩
  intro i hi
  rcases has_measure_withMeasure.1 hi with rfl | hi
  · rw [measure_withMeasure, if_pos rfl]
    by_contra hout
    rw [factTable_withMeasure, Nat.not_lt] at hout
    simp [Table.columnType?, List.getElem?_eq_none hout] at hnumeric
  · rw [measure_withMeasure, if_neg (Nat.ne_of_lt hi)]
    exact hc.column i hi

theorem change {c' : Cube} (hg : Graph c) (hc : Content c) (h : Change c c') : Content c' := by
  cases h with
  | root h₁ h₂ h₃ =>
    obtain ⟨-, -, -, rfl⟩ := yields_root h₁ h₂ h₃
    exact hc.withRoot hg
  | level hh h =>
    obtain ⟨-, -, rfl⟩ := yields_addLevel.1 h
    exact hc.withLevel hg
  | child hl hp hhierarchy hordinal h =>
    obtain ⟨-, -, rfl⟩ := yields_addChild.1 h
    exact hc.withChild hg hl hp
  | row hm hrow h =>
    obtain rfl := yields_attachRow.1 h
    exact hc.withRow hm hrow
  | measure h =>
    obtain ⟨_, _, -, -, hnumeric, -, -, rfl⟩ := yields_addMeasure.1 h
    exact hc.withMeasure hnumeric

theorem grows {c' : Cube} (hg : Graph c) (hc : Content c) (h : Grows c c') : Content c' := by
  induction h with
  | refl => exact hc
  | tail hgrows hchange ih => exact ih.change (hg.grows hgrows) hchange

end Content

end Cube

end CubeQuery
