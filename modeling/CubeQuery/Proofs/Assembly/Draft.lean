import CubeQuery.Proofs.Cube.Lineage
import Mathlib.Data.List.Forall2

/-!
A dimension while it is being added. The objects that were there before it stay as they are, and
those that belong to it are not touched any more once the next dimension begins. Between the root
of a dimension and its fact rows there are two kinds of steps, for a level and for a member.
-/

namespace CubeQuery

open CubeQuery.Language

open Assembly

namespace Cube

/-- What `c` has is still the same in `c'`. -/
structure Keeps (c c' : Cube) : Prop where
  has : ∀ e, c.Has e → c'.Has e
  hierarchy : ∀ h, c.Has (.hierarchy h) → c'.hierarchy h = c.hierarchy h
  level : ∀ l, c.Has (.level l) → c'.level l = c.level l
  member : ∀ m, c.Has (.member m) → c'.member m = c.member m
  rowsAt : ∀ m, c.Has (.member m) → c'.rowsAt m = c.rowsAt m
  factTable : c'.factTable = c.factTable

/-- The members of `c` are still the same in `c'`, but their levels may have got others. -/
structure Extends (c c' : Cube) : Prop where
  has : ∀ e, c.Has e → c'.Has e
  level : ∀ l, c.Has (.level l) → (c'.level l).hierarchy = (c.level l).hierarchy ∧
    (c'.level l).ordinal = (c.level l).ordinal
  member : ∀ m, c.Has (.member m) → c'.member m = c.member m

namespace Keeps

variable {c₀ c c' c'' : Cube} {m : MemberId}

theorem refl (c : Cube) : Keeps c c :=
  ⟨fun _ => id, fun _ _ => rfl, fun _ _ => rfl, fun _ _ => rfl, fun _ _ => rfl, rfl⟩

theorem trans (h₁ : Keeps c c') (h₂ : Keeps c' c'') : Keeps c c'' where
  has e he := h₂.has e (h₁.has e he)
  hierarchy i hi := (h₂.hierarchy i (h₁.has _ hi)).trans (h₁.hierarchy i hi)
  level i hi := (h₂.level i (h₁.has _ hi)).trans (h₁.level i hi)
  member i hi := (h₂.member i (h₁.has _ hi)).trans (h₁.member i hi)
  rowsAt i hi := (h₂.rowsAt i (h₁.has _ hi)).trans (h₁.rowsAt i hi)
  factTable := h₂.factTable.trans h₁.factTable

theorem member_has (hk : Keeps c c') (hc : Graph c) (hc' : Graph c') (hm : c'.Has (.member m))
    (hh : c.Has (.hierarchy (c'.member m).hierarchy)) : c.Has (.member m) := by
  obtain ⟨hlevel, hsame⟩ := hc'.member_level m hm
  have hold : c.Has (.level (c'.member m).level) := by
    have hat := (hc'.levels_at _ (hk.has _ hh) (c'.member m).level _).2 ⟨hlevel, hsame, rfl⟩
    rw [hk.hierarchy _ hh] at hat
    exact ((hc.levels_at _ hh _ _).1 hat).1
  have hmem := hc'.mem_members hm
  rw [hk.level _ hold] at hmem
  exact (hc.depth_eq hold hmem).1

theorem depth (hk : Keeps c c') (hc : Graph c) (hm : c.Has (.member m)) :
    c'.depth m = c.depth m := by
  unfold Cube.depth
  rw [hk.member m hm, hk.level _ (hc.level_has hm)]

theorem ancestor? (hk : Keeps c c') (hc : Graph c) (hm : c.Has (.member m)) (n : Nat) :
    c'.ancestor? n m = c.ancestor? n m := by
  induction n generalizing m with
  | zero => rfl
  | succ n ih =>
    simp only [Cube.ancestor?, hk.member m hm]
    cases hp : (c.member m).parent? with
    | none => rfl
    | some p => exact ih (hc.parent m p hm hp).1

theorem withRoot {layout : DimensionLayout} {kind : HierarchyKind} {caption : String} :
    Keeps c (c.withRoot layout kind caption) where
  has _ he := he.withRoot
  hierarchy _ hi := hierarchy_withRoot_of_has hi
  level _ hi := level_withRoot_of_has hi
  member _ hi := member_withRoot_of_has hi
  rowsAt _ _ := rowsAt_withRoot
  factTable := rfl

/-- A level changes its hierarchy, so that one must not have been there. -/
theorem withLevel {l : Level} (hk : Keeps c₀ c) (hh : c.Has (.hierarchy l.hierarchy))
    (hnew : ¬ c₀.Has (.hierarchy l.hierarchy)) : Keeps c₀ (c.withLevel l) where
  has e he := (hk.has e he).withLevel
  hierarchy i hi := by
    rw [hierarchy_withLevel hh, if_neg, hk.hierarchy i hi]
    rintro rfl
    exact hnew hi
  level i hi := (level_withLevel_of_has (hk.has _ hi)).trans (hk.level i hi)
  member := hk.member
  rowsAt := hk.rowsAt
  factTable := hk.factTable

/-- A member changes its level, so that one must not have been there. -/
theorem withMember {m : Member} (hk : Keeps c₀ c) (hl : c.Has (.level m.level))
    (hnew : ¬ c₀.Has (.level m.level)) : Keeps c₀ (c.withMember m) where
  has e he := (hk.has e he).withMember
  hierarchy := hk.hierarchy
  level i hi := by
    rw [level_withMember hl, if_neg, hk.level i hi]
    rintro rfl
    exact hnew hi
  member i hi := (member_withMember_of_has (hk.has _ hi)).trans (hk.member i hi)
  rowsAt i hi := rowsAt_withMember.trans (hk.rowsAt i hi)
  factTable := hk.factTable

theorem withMeasure {m : Measure} : Keeps c (c.withMeasure m) :=
  ⟨fun _ he => he.withMeasure, fun _ _ => rfl, fun _ _ => rfl, fun _ _ => rfl, fun _ _ => rfl, rfl⟩

end Keeps

namespace Extends

variable {c c' c'' : Cube} {m : MemberId}

theorem refl (c : Cube) : Extends c c :=
  ⟨fun _ => id, fun _ _ => ⟨rfl, rfl⟩, fun _ _ => rfl⟩

theorem trans (h₁ : Extends c c') (h₂ : Extends c' c'') : Extends c c'' where
  has e he := h₂.has e (h₁.has e he)
  level i hi := ⟨(h₂.level i (h₁.has _ hi)).1.trans (h₁.level i hi).1,
    (h₂.level i (h₁.has _ hi)).2.trans (h₁.level i hi).2⟩
  member i hi := (h₂.member i (h₁.has _ hi)).trans (h₁.member i hi)

theorem depth (h : Extends c c') (hc : Graph c) (hm : c.Has (.member m)) :
    c'.depth m = c.depth m := by
  unfold Cube.depth
  rw [h.member m hm, (h.level _ (hc.level_has hm)).2]

theorem withMember {m : Member} (hl : c.Has (.level m.level)) : Extends c (c.withMember m) where
  has _ he := he.withMember
  level _ _ := place_withMember hl
  member _ hi := member_withMember_of_has hi

end Extends

/-! ### Drafts -/

/-- `c` is `c₀` with a part of one more dimension, of which `h` is the hierarchy and `a` the All
member. No fact row is attached to it yet. -/
structure Draft (c₀ c : Cube) (h : HierarchyId) (a : MemberId) : Prop where
  graph : Graph c
  grows : Grows c₀ c
  keeps : Keeps c₀ c
  index : h.index = c₀.hierarchies.size
  size : c.hierarchies.size = c₀.hierarchies.size + 1
  allMember : (c.hierarchy h).allMember = a
  rowsAt : ∀ m, c.rowsAt m = c₀.rowsAt m
  measures : c.measures = c₀.measures

namespace Draft

variable {c₀ c c' : Cube} {h : HierarchyId} {a m p : MemberId} {l : LevelId}

theorem has (hd : Draft c₀ c h a) : c.Has (.hierarchy h) := by
  simp [Has, hd.index, hd.size]

theorem all (hd : Draft c₀ c h a) :
    c.Has (.member a) ∧ (c.member a).hierarchy = h ∧ c.depth a = 0 :=
  hd.allMember ▸ hd.graph.allMember hd.has

theorem level_new (hg : Graph c₀) (hd : Draft c₀ c h a) (hh : (c.level l).hierarchy = h) :
    ¬ c₀.Has (.level l) := by
  intro hl
  have hold := hg.level_hierarchy l hl
  rw [← hd.keeps.level l hl, hh] at hold
  exact Nat.ne_of_lt hold hd.index

theorem member_new (hg : Graph c₀) (hd : Draft c₀ c h a) (hh : (c.member m).hierarchy = h) :
    ¬ c₀.Has (.member m) := by
  intro hm
  have hold := hg.hierarchy_has hm
  rw [← hd.keeps.member m hm, hh] at hold
  exact Nat.ne_of_lt hold hd.index

theorem root {c₁ c₂ c₃ : Cube} {layout : DimensionLayout} {kind : HierarchyKind} {caption : String}
    (hg : Graph c₀) (h₁ : Yields (addHierarchy layout kind) c₀ h c₁)
    (h₂ : Yields (addLevel h "(All)" none) c₁ l c₂)
    (h₃ : Yields (addAllMember h l caption) c₂ m c₃) :
    Draft c₀ c₃ h m ∧ (c₃.hierarchy h).levels = [l] ∧ (c₃.hierarchy h).kind = kind := by
  have hchange : Change c₀ c₃ := .root h₁ h₂ h₃
  obtain ⟨rfl, rfl, rfl, rfl⟩ := yields_root h₁ h₂ h₃
  have hkeeps : Keeps c₀ (c₀.withRoot layout kind caption) := .withRoot
  refine ⟨⟨hg.change hchange, .single hchange, hkeeps, rfl, by simp, ?_, by simp, rfl⟩, ?_⟩
  · simp [hierarchy_withRoot, newHierarchy]
  · simp [hierarchy_withRoot, newHierarchy]

theorem level {name : String} {sourceColumn? : Option String} (hd : Draft c₀ c h a)
    (hy : Yields (addLevel h name sourceColumn?) c l c') :
    Draft c₀ c' h a ∧ c'.Has (.level l) ∧ (c'.level l).hierarchy = h ∧
      (c'.level l).ordinal = (c.hierarchy h).levels.length ∧ (c'.level l).members = #[] ∧
      (c'.hierarchy h).levels = (c.hierarchy h).levels ++ [l] ∧ (∀ i, c.Has (.level i) →
        c'.Has (.level i) ∧ c'.level i = c.level i) ∧ c'.members = c.members := by
  have hchange : Change c c' := .level hd.has hy
  obtain ⟨-, rfl, rfl⟩ := yields_addLevel.1 hy
  have hin : c.Has (.hierarchy (c.newLevel h name sourceColumn?).hierarchy) := hd.has
  have hkeeps : Keeps c₀ (c.withLevel (c.newLevel h name sourceColumn?)) :=
    hd.keeps.withLevel hin fun hh => Nat.ne_of_lt hh hd.index
  refine ⟨⟨hd.graph.change hchange, hd.grows.tail hchange, hkeeps, hd.index, by simp [hd.size], ?_,
      hd.rowsAt, hd.measures⟩,
    by simp [Has], by simp [level_withLevel], by simp [level_withLevel],
    by simp [level_withLevel], by simp [hierarchy_withLevel hin],
    fun i hi => ⟨hi.withLevel, level_withLevel_of_has hi⟩, rfl⟩
  rw [hierarchy_withLevel hin]
  split <;> exact hd.allMember

/-- A loop that adds levels to a hierarchy which has only its All member yet. -/
theorem levels {α β : Type} {xs : List α} {ys : List β} {f : α → Assembly β} {top : LevelId}
    (levelOf : β → LevelId) (R : α → β → Prop) (hd : Draft c₀ c h a)
    (htop : (c.hierarchy h).levels = [top])
    (hf : ∀ x c y c', Yields (f x) c y c' →
      ∃ name column, Yields (addLevel h name column) c (levelOf y) c' ∧ R x y)
    (hy : Yields (xs.mapM f) c ys c') :
    Draft c₀ c' h a ∧ (c'.hierarchy h).levels = top :: ys.map levelOf ∧
      (∀ l ∈ ys.map levelOf, (c'.level l).members = #[]) ∧
      (∀ m, c'.Has (.member m) → (c'.member m).hierarchy = h → m = a) ∧ List.Forall₂ R xs ys := by
  have honly (m) (hm : c.Has (.member m)) (hh : (c.member m).hierarchy = h) : m = a := by
    have hlow := hd.graph.depth_lt hm
    rw [hh, htop] at hlow
    have hall := hd.graph.eq_allMember hm (by simpa using hlow)
    rwa [hh, hd.allMember] at hall
  -- Later steps keep the levels of earlier ones only because these are in use.
  suffices Draft c₀ c' h a ∧ (c'.hierarchy h).levels = top :: ys.map levelOf ∧
      (∀ l ∈ ys.map levelOf, c'.Has (.level l) ∧ (c'.level l).members = #[]) ∧
      (∀ m, c'.Has (.member m) → (c'.member m).hierarchy = h → m = a) ∧ List.Forall₂ R xs ys from
    ⟨this.1, this.2.1, fun l hl => (this.2.2.1 l hl).2, this.2.2.2⟩
  refine mapM_induction (motive := fun done ys c' => Draft c₀ c' h a ∧
    (c'.hierarchy h).levels = top :: ys.map levelOf ∧
    (∀ l ∈ ys.map levelOf, c'.Has (.level l) ∧ (c'.level l).members = #[]) ∧
    (∀ m, c'.Has (.member m) → (c'.member m).hierarchy = h → m = a) ∧ List.Forall₂ R done ys)
    hy ?_ ?_
  · exact ⟨hd, htop, by simp, honly, .nil⟩
  · rintro done x rest ys c₁ y c' - ⟨hd₁, hlevels, hempty, honly₁, hR⟩ hy
    obtain ⟨name, column, hy, hxy⟩ := hf x c₁ y c' hy
    obtain ⟨hd', hhas, -, -, hmembers, hpush, hkeep, hsame⟩ := hd₁.level hy
    refine ⟨hd', by simp [hpush, hlevels], ?_, ?_, List.rel_append hR (.cons hxy .nil)⟩
    · intro i hi
      rw [List.map_append, List.mem_append, List.map_singleton, List.mem_singleton] at hi
      rcases hi with hi | rfl
      · obtain ⟨hi, hnone⟩ := hempty i hi
        obtain ⟨hhas, heq⟩ := hkeep i hi
        exact ⟨hhas, heq ▸ hnone⟩
      · exact ⟨hhas, hmembers⟩
    · simpa only [Has, member, hsame] using honly₁

theorem child {caption : String} (hg : Graph c₀) (hd : Draft c₀ c h a) (hl : c.Has (.level l))
    (hlevel : (c.level l).hierarchy = h) (hp : c.Has (.member p))
    (hparent : (c.member p).hierarchy = h) (hordinal : (c.level l).ordinal = c.depth p + 1)
    (hy : Yields (addChild caption l p) c m c') :
    Draft c₀ c' h a ∧ Extends c c' ∧ ¬ c.Has (.member m) ∧ c'.Has (.member m) ∧
      c'.member m = c.newChild caption l p ∧
      (∀ i, c'.Has (.member i) → i = m ∨ c.Has (.member i)) ∧
      (c'.level l).members = (c.level l).members.push m ∧
      (∀ i, i ≠ l → c'.level i = c.level i) ∧ c'.hierarchies = c.hierarchies := by
  have hchange : Change c c' := .child hl hp (hlevel.trans hparent.symm) hordinal hy
  obtain ⟨-, rfl, rfl⟩ := yields_addChild.1 hy
  have hin : c.Has (.level (c.newChild caption l p).level) := hl
  have hkeeps : Keeps c₀ (c.withMember (c.newChild caption l p)) :=
    hd.keeps.withMember hin (hd.level_new hg hlevel)
  refine ⟨⟨hd.graph.change hchange, hd.grows.tail hchange, hkeeps, hd.index, hd.size, hd.allMember,
    by simpa using hd.rowsAt, hd.measures⟩, .withMember hin, Nat.lt_irrefl _,
    has_member_withMember.2 (.inl rfl), by simp [member_withMember],
    fun i => has_member_withMember.1, ?_, ?_, rfl⟩
  · rw [level_withMember hin, if_pos newChild_level.symm]
  · intro i hi
    rw [level_withMember hin, if_neg (by simpa using hi)]

/-! The levels below that of the All member are numbered from zero in the hierarchy `h`. -/

section Below

variable {levels : List LevelId} {i : Nat}

theorem level_below_iff (hd : Draft c₀ c h a)
    (hbelow : ∃ top, (c.hierarchy h).levels = top :: levels) :
    levels[i]? = some l ↔
      c.Has (.level l) ∧ (c.level l).hierarchy = h ∧ (c.level l).ordinal = i + 1 := by
  obtain ⟨top, htop⟩ := hbelow
  rw [← hd.graph.levels_at h hd.has l (i + 1), htop, List.getElem?_cons_succ]

theorem level_of_member (hd : Draft c₀ c h a)
    (hbelow : ∃ top, (c.hierarchy h).levels = top :: levels) (hm : c.Has (.member m))
    (hh : (c.member m).hierarchy = h) (hdepth : c.depth m = i + 1) :
    levels[i]? = some (c.member m).level :=
  (hd.level_below_iff hbelow).2
    ⟨hd.graph.level_has hm, (hd.graph.member_level m hm).2.trans hh, hdepth⟩

/-- A child joins the members of its own level and of no other. -/
theorem members_addChild {caption : String} {j : Nat} {k : LevelId} (hd : Draft c₀ c h a)
    (hbelow : ∃ top, (c.hierarchy h).levels = top :: levels) (hl : levels[i]? = some l)
    (hk : levels[j]? = some k) (hy : Yields (addChild caption l p) c m c') :
    (c'.level k).members.toList =
      (c.level k).members.toList ++ if j = i then [m] else [] := by
  obtain ⟨-, rfl, rfl⟩ := yields_addChild.1 hy
  obtain ⟨hlevel, -, hordinal⟩ := (hd.level_below_iff hbelow).1 hl
  rw [level_withMember hlevel, newChild_level]
  by_cases hj : j = i
  · obtain rfl : k = l := by
      rw [hj, hl] at hk
      exact (Option.some.inj hk).symm
    rw [if_pos rfl, if_pos hj, Array.toList_push]
  · have hne : k ≠ l := by
      rintro rfl
      have hordinal' := ((hd.level_below_iff hbelow).1 hk).2.2
      omega
    rw [if_neg hne, if_neg hj, List.append_nil]

end Below

end Draft

end Cube

end CubeQuery
