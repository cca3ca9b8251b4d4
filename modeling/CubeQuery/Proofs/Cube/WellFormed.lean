import CubeQuery.Proofs.Assembly.Build
import CubeQuery.Proofs.Cube.Lineage

/-!
Every cube that is built is well formed: its numbers are in use, levels and members have their
places, parents lead to the All member, children are those of the parent, and names identify
objects. The look-ups of the engine rely on this without any further check.
-/

namespace CubeQuery

open CubeQuery.Language

namespace Cube

/-- Every number that the cube stores anywhere is in use. -/
structure InRange (c : Cube) : Prop where
  dimension : ∀ d, c.Has (.dimension d) → ∀ h ∈ (c.dimension d).hierarchies, c.Has (.hierarchy h)
  hierarchy : ∀ h, c.Has (.hierarchy h) → c.Has (.dimension (c.hierarchy h).dimension) ∧
    c.Has (.member (c.hierarchy h).allMember) ∧ ∀ l ∈ (c.hierarchy h).levels, c.Has (.level l)
  level : ∀ l, c.Has (.level l) → c.Has (.hierarchy (c.level l).hierarchy) ∧
    ∀ m ∈ (c.level l).members, c.Has (.member m)
  member : ∀ m, c.Has (.member m) → c.Has (.level (c.member m).level) ∧
    c.Has (.hierarchy (c.member m).hierarchy) ∧
    ∀ p, (c.member m).parent? = some p → c.Has (.member p)
  measure : ∀ m, c.Has (.measure m) → (c.measure m).columnIndex < c.factTable.schema.length
  defaultMeasure : c.Has (.measure c.defaultMeasure)
  factRows : c.factRows.size = c.members.size
  rowsAt : ∀ m, ∀ row ∈ c.rowsAt m, row < c.factTable.rowCount
  names : ∀ (u : String) e, c.names[u]? = some e → c.Has e
  foldedNames : ∀ (u : String) e, c.foldedNames[u]? = some e → c.Has e

/-- The captions of the members from the top level down to a member, the All member left out. -/
def captionPath (c : Cube) (m : MemberId) : List String :=
  ((c.lineage m).dropLast.map fun a => (c.member a).caption).reverse

structure WellFormed (c : Cube) : Prop where
  inRange : InRange c
  /-- A hierarchy lists its own levels by their ordinals, and nothing else. -/
  levels : ∀ h, c.Has (.hierarchy h) → ∀ l i, (c.hierarchy h).levels[i]? = some l ↔
    c.Has (.level l) ∧ (c.level l).hierarchy = h ∧ (c.level l).ordinal = i
  top : ∀ h, c.Has (.hierarchy h) → ∃ l, (c.hierarchy h).levels[0]? = some l ∧
    (c.level l).members = #[(c.hierarchy h).allMember]
  /-- A member occurs on its own level, at its position, and nowhere else. -/
  members : ∀ m, c.Has (.member m) → ∀ l, c.Has (.level l) → ∀ i : Nat,
    (c.level l).members[i]? = some m ↔ (c.member m).level = l ∧ (c.member m).position = i
  hierarchy : ∀ m, c.Has (.member m) →
    (c.level (c.member m).level).hierarchy = (c.member m).hierarchy
  all : ∀ m, c.Has (.member m) → ((c.member m).parent? = none ↔
    ∃ h, c.Has (.hierarchy h) ∧ (c.hierarchy h).allMember = m)
  parent : ∀ m p, c.Has (.member m) → (c.member m).parent? = some p →
    (c.member p).hierarchy = (c.member m).hierarchy ∧ c.depth m = c.depth p + 1
  /-- Each step up leads one ordinal up, and as many steps as there are ordinals above lead to the
  All member. -/
  chain : ∀ m, c.Has (.member m) → (∀ n ≤ c.depth m, ∃ a, c.ancestor? n m = some a ∧
      c.depth a + n = c.depth m) ∧
    c.ancestor? (c.depth m) m = some (c.hierarchy (c.member m).hierarchy).allMember
  children : ∀ p, c.Has (.member p) →
    (∀ m, m ∈ c.memberChildren p ↔ c.Has (.member m) ∧ (c.member m).parent? = some p) ∧
    (c.memberChildren p).Pairwise fun m m' => (c.member m).position < (c.member m').position
  names : ∀ e e', c.Has e → c.Has e' → c.uniqueName e = c.uniqueName e' → e = e'
  find : ∀ e, c.Has e → c.find? (c.uniqueName e) = some e
  uniqueName : ∀ m, c.Has (.member m) → (c.member m).parent? ≠ none →
    (c.member m).uniqueName = (c.level (c.member m).level).uniqueName ++ "." ++
      bracketedPath (c.captionPath m)

section Parts

variable {c : Cube} {m p : MemberId}

theorem Graph.lineage_of_parent (hc : Graph c) (hm : c.Has (.member m))
    (hp : (c.member m).parent? = some p) : c.lineage m = m :: c.lineage p := by
  rw [lineage, (hc.parent m p hm hp).2.2, lineageWithin, hp]
  rfl

theorem Graph.lineage_of_all (hc : Graph c) (hm : c.Has (.member m))
    (hp : (c.member m).parent? = none) : c.lineage m = [m] := by
  rw [lineage, hc.no_parent m hm hp]
  rfl

theorem lineage_ne_nil : c.lineage m ≠ [] := by
  unfold lineage
  cases c.depth m with
  | zero => simp [lineageWithin]
  | succ n => cases hp : (c.member m).parent? <;> simp [lineageWithin, hp]

/-- The captions that a member carries are those of its line. -/
theorem Content.captions_eq (hg : Graph c) (hc : Content c) (hm : c.Has (.member m)) :
    (c.member m).captions = c.captionPath m := by
  induction hk : c.depth m generalizing m with
  | zero =>
    have hp := (hg.parent?_eq_none_iff hm).2 hk
    rw [hc.no_captions m hm hp, captionPath, hg.lineage_of_all hm hp]
    rfl
  | succ k ih =>
    obtain ⟨p, hp⟩ := hg.exists_parent hm (by omega)
    obtain ⟨hhas, -, hdepth⟩ := hg.parent m p hm hp
    rw [hc.captions m p hm hp, ih hhas (by omega), captionPath, captionPath,
      hg.lineage_of_parent hm hp, List.dropLast_cons_of_ne_nil lineage_ne_nil]
    simp

theorem Built.inRange {layout : CubeLayout} {catalog : Catalog} (h : Built layout catalog c) :
    InRange c := by
  have hg := h.graph
  constructor
  · intro d hd i hi
    rw [hg.dimension_hierarchies d hd, List.mem_singleton] at hi
    simpa [hi, Has, ← hg.dimensions_size] using hd
  · intro i hi
    refine ⟨?_, (hg.allMember hi).1, ?_⟩
    · simpa [hg.hierarchy_dimension i hi, Has, hg.dimensions_size] using hi
    · intro l hl
      obtain ⟨k, hk⟩ := List.mem_iff_getElem?.1 hl
      exact ((hg.levels_at i hi l k).1 hk).1
  · intro l hl
    exact ⟨hg.level_hierarchy l hl, fun m hm => (hg.depth_eq hl hm).1⟩
  · intro m hm
    exact ⟨hg.level_has hm, hg.hierarchy_has hm, fun p hp => (hg.parent m p hm hp).1⟩
  · exact h.content.column
  · have hpos := List.length_pos_of_ne_nil h.measures_ne_nil
    simpa [Has, Cube.defaultMeasure, h.measures] using hpos
  · exact h.content.factRows_size
  · exact h.content.rows
  · intro u e he
    exact ((h.named.names_iff u e).1 he).1
  · intro u e he
    exact (h.named.folded u e he).1

end Parts

theorem wellFormed_of_build {layout : CubeLayout} {catalog : Catalog} {c : Cube}
    (h : Cube.build layout catalog = .ok c) : WellFormed c := by
  have hbuilt := built_of_build h
  have hg := hbuilt.graph
  constructor
  · exact hbuilt.inRange
  · exact hg.levels_at
  · exact hg.top_level
  · intro m hm l hl i
    rw [hg.members_at l hl, and_iff_right hm]
  · exact fun m hm => (hg.member_level m hm).2
  · intro m hm
    constructor
    · intro hp
      exact ⟨_, hg.hierarchy_has hm, ((hg.parent?_eq_none_iff_allMember hm).1 hp).symm⟩
    · rintro ⟨i, hi, rfl⟩
      exact (hg.parent?_eq_none_iff hm).2 (hg.allMember hi).2.2
  · exact fun m p hm hp => (hg.parent m p hm hp).2
  · intro m hm
    refine ⟨fun n hn => ?_, hg.ancestor?_depth hm⟩
    obtain ⟨a, ha⟩ := hg.exists_ancestor? hm hn
    exact ⟨a, ha, (hg.ancestor? hm ha).2.2.symm⟩
  · intro p hp
    exact ⟨fun m => hg.mem_memberChildren hp, hg.pairwise_memberChildren hp⟩
  · intro e e' he he' heq
    have h₁ := (hbuilt.named.names_iff _ e).2 ⟨he, rfl⟩
    have h₂ := (hbuilt.named.names_iff _ e').2 ⟨he', heq.symm⟩
    exact Option.some.inj (h₁.symm.trans h₂)
  · intro e he
    rw [find?, (hbuilt.named.names_iff _ e).2 ⟨he, rfl⟩]
    rfl
  · intro m hm hp
    obtain ⟨p, hp⟩ := Option.ne_none_iff_exists'.1 hp
    rw [hbuilt.content.uniqueName m p hm hp, hbuilt.content.captions_eq hg hm]

theorem wellFormed_sample : WellFormed Sample.cube ∧
    Sample.cube.memberChildren ⟨0⟩ = [⟨1⟩] :=
  ⟨wellFormed_of_build Sample.build_eq_cube, by decide⟩

end Cube

end CubeQuery
