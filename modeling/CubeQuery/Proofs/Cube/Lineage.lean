import CubeQuery.Proofs.Cube.Hierarchy

/-!
Lines of ancestors. Walking up from a member takes one step for each level and ends at the All
member; walking down from a member meets exactly those whose way up leads through it.
-/

namespace CubeQuery

namespace Cube

/-- The member so many steps above another one. -/
def ancestor? (c : Cube) : Nat → MemberId → Option MemberId
  | 0, m => some m
  | n + 1, m => (c.member m).parent?.bind (c.ancestor? n)

namespace Graph

variable {c : Cube} {m a p : MemberId} {n k : Nat}

theorem ancestor? (hc : Graph c) (hm : c.Has (.member m)) (ha : c.ancestor? n m = some a) :
    c.Has (.member a) ∧ (c.member a).hierarchy = (c.member m).hierarchy ∧
      c.depth m = c.depth a + n := by
  induction n generalizing m with
  | zero =>
    obtain rfl := Option.some.inj ha
    exact ⟨hm, rfl, rfl⟩
  | succ n ih =>
    obtain ⟨p, hp, ha⟩ := Option.bind_eq_some_iff.1 ha
    obtain ⟨hhas, hhierarchy, hdepth⟩ := hc.parent m p hm hp
    obtain ⟨hhas', hhierarchy', hdepth'⟩ := ih hhas ha
    exact ⟨hhas', hhierarchy'.trans hhierarchy, by omega⟩

theorem exists_ancestor? (hc : Graph c) (hm : c.Has (.member m)) (hn : n ≤ c.depth m) :
    ∃ a, c.ancestor? n m = some a := by
  induction n generalizing m with
  | zero => exact ⟨m, rfl⟩
  | succ n ih =>
    obtain ⟨p, hp⟩ := hc.exists_parent hm (by omega)
    obtain ⟨hhas, -, hdepth⟩ := hc.parent m p hm hp
    obtain ⟨a, ha⟩ := ih hhas (by omega)
    exact ⟨a, Option.bind_eq_some_iff.2 ⟨p, hp, ha⟩⟩

/-- As many steps up as there are levels above lead to the All member. -/
theorem ancestor?_depth (hc : Graph c) (hm : c.Has (.member m)) :
    c.ancestor? (c.depth m) m = some (c.hierarchy (c.member m).hierarchy).allMember := by
  obtain ⟨a, ha⟩ := hc.exists_ancestor? hm (Nat.le_refl _)
  obtain ⟨hhas, hhierarchy, hdepth⟩ := hc.ancestor? hm ha
  rw [ha, ← hhierarchy, ← hc.eq_allMember hhas (by omega)]

end Graph

theorem ancestor?_succ {c : Cube} {m : MemberId} {n : Nat} :
    c.ancestor? (n + 1) m = (c.ancestor? n m).bind fun a => (c.member a).parent? := by
  induction n generalizing m with
  | zero => cases h : (c.member m).parent? <;> simp [ancestor?, h]
  | succ n ih =>
    rw [ancestor?]
    cases h : (c.member m).parent? with
    | none => simp [ancestor?, h]
    | some p => simpa [ancestor?, h] using ih (m := p)

theorem mem_lineageWithin {c : Cube} {m a : MemberId} {n : Nat} :
    a ∈ c.lineageWithin n m ↔ ∃ k ≤ n, c.ancestor? k m = some a := by
  induction n generalizing m with
  | zero => simp [lineageWithin, ancestor?, eq_comm]
  | succ n ih =>
    have hsplit : (∃ k ≤ n + 1, c.ancestor? k m = some a) ↔
        m = a ∨ ∃ k ≤ n, c.ancestor? (k + 1) m = some a := by
      constructor
      · rintro ⟨k, hk, ha⟩
        cases k with
        | zero => exact .inl (Option.some.inj ha)
        | succ k => exact .inr ⟨k, by omega, ha⟩
      · rintro (rfl | ⟨k, hk, ha⟩)
        · exact ⟨0, by omega, rfl⟩
        · exact ⟨k + 1, by omega, ha⟩
    rw [hsplit, lineageWithin]
    cases h : (c.member m).parent? with
    | none => simp [ancestor?, h, eq_comm]
    | some p => simp [ancestor?, h, ih, eq_comm]

namespace Graph

variable {c : Cube} {m a p : MemberId} {n : Nat}

theorem mem_lineage (hc : Graph c) (hm : c.Has (.member m)) :
    a ∈ c.lineage m ↔ ∃ n, c.ancestor? n m = some a := by
  rw [lineage, mem_lineageWithin]
  constructor
  · rintro ⟨k, -, ha⟩
    exact ⟨k, ha⟩
  · rintro ⟨k, ha⟩
    exact ⟨k, by have := (hc.ancestor? hm ha).2.2; omega, ha⟩

theorem mem_generations (hc : Graph c) {ids : List MemberId} (hids : ∀ a ∈ ids, c.Has (.member a)) :
    m ∈ c.generations n ids ↔
      c.Has (.member m) ∧ ∃ k ≤ n, ∃ a ∈ ids, c.ancestor? k m = some a := by
  induction n generalizing ids with
  | zero =>
    simp only [generations, Nat.le_zero, exists_eq_left, Cube.ancestor?, Option.some.injEq]
    constructor
    · intro hm
      exact ⟨hids m hm, m, hm, rfl⟩
    · rintro ⟨-, a, ha, rfl⟩
      exact ha
  | succ n ih =>
    have hchildren : ∀ b ∈ ids.flatMap c.memberChildren, c.Has (.member b) := by
      intro b hb
      obtain ⟨a, ha, hb⟩ := List.mem_flatMap.1 hb
      exact ((hc.mem_memberChildren (hids a ha)).1 hb).1
    rw [generations, List.mem_append, ih hchildren]
    -- The last step of a way up is the first step of the way down.
    constructor
    · rintro (hm | ⟨hm, k, hk, b, hb, hbm⟩)
      · exact ⟨hids m hm, 0, by omega, m, hm, rfl⟩
      · obtain ⟨a, ha, hb⟩ := List.mem_flatMap.1 hb
        have hparent := ((hc.mem_memberChildren (hids a ha)).1 hb).2
        exact ⟨hm, k + 1, by omega, a, ha, by rw [ancestor?_succ, hbm]; exact hparent⟩
    · rintro ⟨hm, k, hk, a, ha, ham⟩
      cases k with
      | zero =>
        obtain rfl := Option.some.inj ham
        exact .inl ha
      | succ k =>
        rw [ancestor?_succ] at ham
        obtain ⟨b, hbm, hparent⟩ := Option.bind_eq_some_iff.1 ham
        have hb := (hc.mem_memberChildren (hids a ha)).2 ⟨(hc.ancestor? hm hbm).1, hparent⟩
        exact .inr ⟨hm, k, by omega, b, List.mem_flatMap.2 ⟨a, ha, hb⟩, hbm⟩

/-- No member of a hierarchy stands below its last level. -/
theorem depth_lt (hc : Graph c) (hm : c.Has (.member m)) :
    c.depth m < (c.hierarchy (c.member m).hierarchy).levels.length := by
  obtain ⟨hlevel, hsame⟩ := hc.member_level m hm
  have hat := (hc.levels_at _ (hc.hierarchy_has hm) (c.member m).level (c.depth m)).2
    ⟨hlevel, hsame, rfl⟩
  exact (List.getElem?_eq_some_iff.1 hat).1

theorem levelsBelow_child (hc : Graph c) (hp : c.Has (.member p)) (hm : m ∈ c.memberChildren p) :
    c.levelsBelow m + 1 = c.levelsBelow p := by
  obtain ⟨hhas, hsame, hdepth⟩ := hc.memberChildren_below hp hm
  have hlow := hc.depth_lt hhas
  rw [hsame] at hlow
  rw [levelsBelow, levelsBelow, hsame]
  omega

/-- A member of the last level has no children. -/
theorem memberChildren_eq_nil (hc : Graph c) (hp : c.Has (.member p))
    (hlevels : c.levelsBelow p = 0) : c.memberChildren p = [] := by
  rw [List.eq_nil_iff_forall_not_mem]
  intro m hm
  have hbelow := hc.levelsBelow_child hp hm
  omega

theorem mem_descendants (hc : Graph c) (ha : c.Has (.member a)) :
    m ∈ c.descendants a ↔ c.Has (.member m) ∧ ∃ n, c.ancestor? n m = some a := by
  rw [descendants, hc.mem_generations (by simpa using ha)]
  refine and_congr_right fun hm => ?_
  constructor
  · rintro ⟨k, -, b, hb, hbm⟩
    obtain rfl := List.mem_singleton.1 hb
    exact ⟨k, hbm⟩
  · rintro ⟨k, ham⟩
    obtain ⟨-, hhierarchy, hdepth⟩ := hc.ancestor? hm ham
    have hlow := hc.depth_lt hm
    refine ⟨k, ?_, a, List.mem_singleton.2 rfl, ham⟩
    rw [levelsBelow, hhierarchy]
    omega

end Graph

end Cube

end CubeQuery
