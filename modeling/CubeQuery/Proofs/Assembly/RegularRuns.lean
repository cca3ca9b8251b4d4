import CubeQuery.Proofs.Assembly.Levels
import CubeQuery.Proofs.Assembly.Regular
import CubeQuery.Proofs.Table.Captions

/-!
When the levels of a regular dimension can be added. The rows of the table never fail: a member is
added only for a value that its parent has no member for, and since all values of a column have one
type, a new value also has a new caption.
-/

namespace CubeQuery

namespace Assembly

open CubeQuery.Cube

section Members

variable {c₀ c : Cube} {h : HierarchyId} {a p : MemberId} {table : Table} {l : LevelId}
  {levels : List (LevelId × Nat)} {found : ChildIndex} {path : MemberId → List Key}
  {columns : List Nat} {column row : Nat}

theorem Shown.runs_childOf (hc : Coherent c) (ht : table.Made)
    (hs : Shown c h table columns found) (hl : c.Has (.level l))
    (hlevel : (c.level l).hierarchy = h) (hordinal : (c.level l).ordinal = c.depth p + 1)
    (hp : c.Has (.member p)) (hhierarchy : (c.member p).hierarchy = h)
    (hcolumn : columns[c.depth p]? = some column) :
    Runs (CubeQuery.childOf l (table.cell row column) p found) c := by
  unfold CubeQuery.childOf
  cases hfound : found[(p, levelKey (table.cell row column))]? with
  | some child => exact runs_pure
  | none =>
    dsimp only
    rw [runs_bind_pure, runs_addChild,
      hc.free_child_iff hl hp (hlevel.trans hhierarchy.symm) hordinal]
    intro i hi hparent hcaption
    have hih := (hc.graph.parent i p hi hparent).2.1.symm.trans hhierarchy
    obtain ⟨row', column', hcolumn', hshown, hin⟩ := hs i p hi hih hparent
    -- The child with this caption would have been found under the value.
    obtain rfl := Option.some.inj (hcolumn.symm.trans hcolumn')
    rw [ht.levelKey_eq (hcaption.symm.trans hshown), hin] at hfound
    cases hfound

/-! ### All rows -/

theorem runs_memberOfRow (hc : Coherent c₀) (ht : table.Made) (hd : Draft c₀ c h a)
    (hf : Filed c h a (levels.map (·.1)) found path (pathsSoFar table (levels.map (·.2)) row 0))
    (hs : Shown c h table (levels.map (·.2)) found) :
    Runs (memberOfRow table levels a row found) c := by
  refine (foldlM_total (l := levels) (s := (a, found)) (c := c)
    (f := fun (s : MemberId × ChildIndex) (x : LevelId × Nat) =>
      childOf x.1 (table.cell row x.2) s.1 s.2)
    (motive := fun done s c => ∃ path, Reached c₀ c h a table levels row done.length s.2 path s.1)
    ⟨path, .start hd hf hs⟩ ?_).1
  rintro done ⟨l, column⟩ rest ⟨p, found⟩ c hlevels ⟨path, hr⟩
  obtain ⟨hl, hcolumn⟩ := hr.level_at hlevels
  obtain ⟨hlevel, hhierarchy, hordinal⟩ := hr.filed.level_has hr.draft hl
  refine ⟨hr.shown.runs_childOf (hc.grows hr.draft.grows) ht hlevel hhierarchy hordinal hr.has
    hr.hierarchy hcolumn, fun s c' hy => ?_⟩
  obtain ⟨-, path', hr', -⟩ := hr.next hc.graph hlevels hy
  rw [List.length_append, List.length_singleton]
  exact ⟨path', hr'⟩

theorem runs_membersOfRows (hc : Coherent c₀) (ht : table.Made) (hd : Draft c₀ c h a)
    (hf : Filed c h a (levels.map (·.1)) ∅ path (table.pathsIn (levels.map (·.2)) 0))
    (hs : Shown c h table (levels.map (·.2)) ∅) : Runs (membersOfRows table levels a) c := by
  rw [membersOfRows, runs_bind_iff (iff_true_intro ?_) fun _ _ _ => iff_of_true runs_pure trivial]
  · exact ⟨trivial, trivial⟩
  · refine (foldlM_total (motive := fun done s c => Draft c₀ c h a ∧
      (∃ path, Filed c h a (levels.map (·.1)) s.2 path
        (table.pathsIn (levels.map (·.2)) done.length)) ∧
      Shown c h table (levels.map (·.2)) s.2) ⟨hd, ⟨path, hf⟩, hs⟩ ?_).1
    rintro done row rest ⟨members, found⟩ c hrows ⟨hd, ⟨path, hf⟩, hs⟩
    obtain ⟨rfl, -⟩ := row_eq_length hrows
    constructor
    · have hruns := runs_memberOfRow hc ht hd hf.begin_row hs
      exact (runs_bind_iff (iff_true_intro hruns) fun _ _ _ => iff_of_true runs_pure trivial).2
        ⟨trivial, trivial⟩
    · intro s' c' hy
      obtain ⟨⟨m, found'⟩, c₁, hy, hpure⟩ := yields_bind.1 hy
      obtain ⟨rfl, rfl⟩ := yields_pure.1 hpure
      obtain ⟨hd', -, path', hf', hs', -⟩ := filed_memberOfRow hc.graph hd hf.begin_row hs hy
      exact ⟨hd', ⟨path', by simpa using hf'.end_row⟩, hs'⟩

/-- The levels of a regular dimension fail over their columns and their names only. -/
theorem runs_addRegularLevels {layout : DimensionLayout} {caption : String} {top : LevelId}
    (hc : Coherent c₀) (ht : table.Made) (hcaption : "(All)" ≠ caption)
    (hn : Titles c₀ c h a caption []) (htop : (c.hierarchy h).levels = [top]) :
    Runs (addRegularLevels layout table h a) c ↔
      (∀ column ∈ layout.levelColumns, ∃ index, table.requireColumn column = .ok index) ∧
        ("(All)" :: caption :: layout.levelColumns).Nodup := by
  have hlevels := hn.runs_levels layout.levelColumns id
    (fun column => ∃ index, table.requireColumn column = .ok index) (f := fun column => do
      let index ← consult (table.requireColumn column)
      let level ← addLevel h column (some column)
      return (level, index)) hcaption (by
        intro column c
        refine ⟨some column, ?_, fun pair c' hy => ?_⟩
        · rw [runs_consult_bind]
          simp only [runs_bind_pure, exists_and_right, id]
        · simp only [yields_bind, yields_consult, yields_pure] at hy
          obtain ⟨index, _, ⟨-, rfl⟩, l, c₂, hy, rfl, rfl⟩ := hy
          exact ⟨l, hy⟩)
  rw [List.map_id] at hlevels
  rw [addRegularLevels, runs_bind_iff hlevels, and_true]
  intro levels c₁ hy
  obtain ⟨hd₁, hf₁, -⟩ := filed_levels hn.draft htop hy
  exact iff_of_true (runs_membersOfRows hc ht hd₁ hf₁ hf₁.shown_empty) trivial

end Members

end Assembly

end CubeQuery
