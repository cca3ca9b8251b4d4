import CubeQuery.Proofs.Cube.WellFormed

/-!
The two ways through a hierarchy. Down from a member leads the scan of a list that grows while it
is read, up from one leads the chain of parents. Both come to an end, and the scan from one member
finds exactly those whose chains lead to it.
-/

namespace CubeQuery

namespace Cube

/-! ### The two loops -/

/-- What remains of a scan: the members that are passed, those still to come, and all members in the
end. Passing a member puts its children behind the last. -/
inductive Scans (c : Cube) : List MemberId → List MemberId → List MemberId → Prop
  | finish {passed : List MemberId} : Scans c passed [] passed
  | pass {passed rest all : List MemberId} {m : MemberId}
      (h : Scans c (passed ++ [m]) (rest ++ c.memberChildren m) all) :
      Scans c passed (m :: rest) all

/-- What remains of a climb: whether `a` is met from the given member on. Past the top nothing is
met. -/
inductive Climbs (c : Cube) (a : MemberId) : Option MemberId → Bool → Prop
  | top : Climbs c a none false
  | here : Climbs c a (some a) true
  | up {m : MemberId} {met : Bool} (hne : m ≠ a) (h : Climbs c a (c.member m).parent? met) :
      Climbs c a (some m) met

variable {c : Cube} {a m p : MemberId} {ids passed rest all all' : List MemberId} {n d : Nat}
  {met met' : Bool} {m? : Option MemberId} {h : HierarchyId}

theorem Scans.unique (h : Scans c passed rest all) (h' : Scans c passed rest all') :
    all = all' := by
  induction h with
  | finish =>
    cases h'
    rfl
  | pass _ ih =>
    cases h' with
    | pass h' => exact ih h'

theorem Climbs.unique (h : Climbs c a m? met) (h' : Climbs c a m? met') : met = met' := by
  induction h with
  | top =>
    cases h'
    rfl
  | here =>
    cases h' with
    | here => rfl
    | up hne => exact absurd rfl hne
  | up hne _ ih =>
    cases h' with
    | here => exact absurd rfl hne
    | up _ h' => exact ih h'

/-- Passing several members puts the children of each behind the last, one after the other. -/
theorem Scans.pass_all (h : Scans c (passed ++ ids) (rest ++ ids.flatMap c.memberChildren) all) :
    Scans c passed (ids ++ rest) all := by
  induction ids generalizing passed rest with
  | nil => simpa using h
  | cons m ids ih =>
    refine .pass ?_
    rw [show ids.append rest = ids ++ rest from rfl, List.append_assoc]
    apply ih
    simpa using h

theorem generations_eq_append : ∃ later, c.generations n ids = ids ++ later := by
  cases n with
  | zero => exact ⟨[], (List.append_nil ids).symm⟩
  | succ n => exact ⟨_, rfl⟩

/-! ### Generations -/

/-- Members of one hierarchy at one depth, each once. -/
structure Generation (c : Cube) (h : HierarchyId) (d : Nat) (ids : List MemberId) : Prop where
  nodup : ids.Nodup
  has : ∀ m ∈ ids, c.Has (.member m)
  hierarchy : ∀ m ∈ ids, (c.member m).hierarchy = h
  depth : ∀ m ∈ ids, c.depth m = d

namespace Generation

theorem single (ha : c.Has (.member a)) :
    Generation c (c.member a).hierarchy (c.depth a) [a] := by
  constructor <;> simp [ha]

/-- The children of a generation are the next one. -/
theorem children (hids : Generation c h d ids) (hc : Graph c) :
    Generation c h (d + 1) (ids.flatMap c.memberChildren) := by
  have hbelow : ∀ m ∈ ids.flatMap c.memberChildren,
      c.Has (.member m) ∧ (c.member m).hierarchy = h ∧ c.depth m = d + 1 := by
    intro m hm
    obtain ⟨p, hp, hm⟩ := List.mem_flatMap.1 hm
    obtain ⟨hhas, hsame, hdepth⟩ := hc.memberChildren_below (hids.has p hp) hm
    exact ⟨hhas, hsame.trans (hids.hierarchy p hp), by rw [hdepth, hids.depth p hp]⟩
  refine ⟨List.pairwise_flatMap.2 ⟨fun p hp => hc.nodup_memberChildren (hids.has p hp),
    hids.nodup.imp_of_mem ?_⟩, fun m hm => (hbelow m hm).1, fun m hm => (hbelow m hm).2.1,
    fun m hm => (hbelow m hm).2.2⟩
  -- A child of two members would have two parents.
  rintro p q hp hq hne m hmp _ hmq rfl
  have hparent := ((hc.mem_memberChildren (hids.has p hp)).1 hmp).2
  have hparent' := ((hc.mem_memberChildren (hids.has q hq)).1 hmq).2
  exact hne (Option.some.inj (hparent.symm.trans hparent'))

theorem memberChildren_eq_nil (hids : Generation c h d ids) (hc : Graph c)
    (hlast : (c.hierarchy h).levels.length = d + 1) (hm : m ∈ ids) : c.memberChildren m = [] := by
  apply hc.memberChildren_eq_nil (hids.has m hm)
  rw [levelsBelow, hids.hierarchy m hm, hids.depth m hm, hlast, Nat.sub_self]

/-- A scan of one generation passes all that follow. -/
theorem scans (hids : Generation c h d ids) (hc : Graph c)
    (hn : (c.hierarchy h).levels.length = d + 1 + n) :
    Scans c passed ids (passed ++ c.generations n ids) := by
  induction n generalizing passed ids d with
  | zero =>
    have hnone : ids.flatMap c.memberChildren = [] :=
      List.flatMap_eq_nil_iff.2 fun m hm => hids.memberChildren_eq_nil hc hn hm
    have hscan : Scans c passed (ids ++ []) (passed ++ ids) := by
      apply Scans.pass_all
      rw [hnone]
      exact .finish
    rwa [List.append_nil] at hscan
  | succ n ih =>
    have hscan : Scans c passed (ids ++ []) (passed ++ c.generations (n + 1) ids) := by
      apply Scans.pass_all
      rw [generations, ← List.append_assoc, List.nil_append]
      exact ih (hids.children hc) (by omega)
    rwa [List.append_nil] at hscan

theorem mem_generations (hids : Generation c h d ids) (hc : Graph c)
    (hm : m ∈ c.generations n ids) : (c.member m).hierarchy = h ∧ d ≤ c.depth m := by
  obtain ⟨hhas, k, -, a, ha, ham⟩ := (hc.mem_generations hids.has).1 hm
  obtain ⟨-, hsame, hdepth⟩ := hc.ancestor? hhas ham
  rw [hids.depth a ha] at hdepth
  exact ⟨hsame.symm.trans (hids.hierarchy a ha), by omega⟩

theorem pairwise_same (hids : Generation c h d ids) :
    ids.Pairwise fun m m' => m ≠ m' ∧ c.depth m ≤ c.depth m' := by
  refine hids.nodup.imp_of_mem fun hm hm' hne => ⟨hne, ?_⟩
  rw [hids.depth _ hm, hids.depth _ hm']

/-- A generation comes before those that follow it, and none of its members comes again. -/
theorem pairwise (hids : Generation c h d ids) (hc : Graph c) :
    (c.generations n ids).Pairwise fun m m' => m ≠ m' ∧ c.depth m ≤ c.depth m' := by
  induction n generalizing ids d with
  | zero => exact hids.pairwise_same
  | succ n ih =>
    refine List.pairwise_append.2
      ⟨hids.pairwise_same, ih (hids.children hc), fun m hm m' hm' => ?_⟩
    have hdepth := hids.depth m hm
    have hlater := ((hids.children hc).mem_generations hc hm').2
    refine ⟨?_, by omega⟩
    rintro rfl
    omega

/-- The children of each member stand together, behind it. -/
theorem exists_block (hids : Generation c h d ids) (hc : Graph c)
    (hn : (c.hierarchy h).levels.length = d + 1 + n) (hp : p ∈ c.generations n ids) :
    ∃ before after, p ∈ before ∧ c.generations n ids = before ++ c.memberChildren p ++ after := by
  induction n generalizing ids d with
  | zero =>
    refine ⟨ids, [], hp, ?_⟩
    rw [hids.memberChildren_eq_nil hc hn hp, List.append_nil, List.append_nil]
    rfl
  | succ n ih =>
    rw [generations] at hp ⊢
    rcases List.mem_append.1 hp with hp | hp
    · obtain ⟨later, hlater⟩ := @generations_eq_append c (ids.flatMap c.memberChildren) n
      obtain ⟨left, right, hsplit⟩ := List.append_of_mem hp
      refine ⟨ids ++ left.flatMap c.memberChildren, right.flatMap c.memberChildren ++ later,
        List.mem_append_left _ hp, ?_⟩
      rw [hlater, hsplit]
      simp
    · obtain ⟨before, after, hbefore, hblock⟩ := ih (hids.children hc) (by omega) hp
      refine ⟨ids ++ before, after, List.mem_append_right _ hbefore, ?_⟩
      rw [hblock]
      simp

end Generation

namespace Graph

/-! ### Where the loops end -/

theorem scans_descendants (hc : Graph c) (ha : c.Has (.member a)) :
    Scans c [] [a] (c.descendants a) := by
  have hlow := hc.depth_lt ha
  refine (Generation.single ha).scans hc ?_
  rw [levelsBelow]
  omega

theorem climbs_isAncestorOrSelf (hc : Graph c) (hm : c.Has (.member m)) :
    Climbs c a (some m) (c.isAncestorOrSelf a m) := by
  induction hd : c.depth m generalizing m with
  | zero =>
    have hp := (hc.parent?_eq_none_iff hm).2 hd
    by_cases hne : m = a
    · obtain rfl := hne
      simpa [isAncestorOrSelf, hc.lineage_of_all hm hp] using Climbs.here
    · refine .up hne ?_
      simpa [isAncestorOrSelf, hc.lineage_of_all hm hp, hp, Ne.symm hne] using Climbs.top
  | succ d ih =>
    obtain ⟨p, hp⟩ := hc.exists_parent hm (by omega)
    obtain ⟨hhas, -, hdepth⟩ := hc.parent m p hm hp
    by_cases hne : m = a
    · obtain rfl := hne
      simpa [isAncestorOrSelf, hc.lineage_of_parent hm hp] using Climbs.here
    · refine .up hne ?_
      rw [hp]
      simpa [isAncestorOrSelf, hc.lineage_of_parent hm hp, Ne.symm hne] using ih hhas (by omega)

theorem isAncestorOrSelf_iff (hc : Graph c) (ha : c.Has (.member a)) (hm : c.Has (.member m)) :
    c.isAncestorOrSelf a m = true ↔ m ∈ c.descendants a := by
  rw [isAncestorOrSelf, List.contains_iff_mem, hc.mem_lineage hm, hc.mem_descendants ha]
  exact (and_iff_right hm).symm

end Graph

/-- The order in which a member and all below it are listed. -/
structure LevelByLevel (c : Cube) (a : MemberId) (listed : List MemberId) : Prop where
  first : listed.head? = some a
  once : listed.Nodup
  hierarchy : ∀ m ∈ listed, c.Has (.member m) ∧ (c.member m).hierarchy = (c.member a).hierarchy
  levels : listed.Pairwise fun m m' => c.depth m ≤ c.depth m'
  /-- The children of a member follow it, with nothing between them. -/
  block : ∀ p ∈ listed, ∃ before after, p ∈ before ∧
    listed = before ++ c.memberChildren p ++ after
  children : ∀ p ∈ listed,
    (∀ m, m ∈ c.memberChildren p ↔ c.Has (.member m) ∧ (c.member m).parent? = some p) ∧
    (c.memberChildren p).Pairwise fun m m' => (c.member m).position < (c.member m').position

theorem Graph.levelByLevel (hc : Graph c) (ha : c.Has (.member a)) :
    LevelByLevel c a (c.descendants a) := by
  have hlow := hc.depth_lt ha
  have hsingle := Generation.single ha
  have hhas {m} (hm : m ∈ c.descendants a) := ((hc.mem_descendants ha).1 hm).1
  refine ⟨?_, ?_, ?_, ?_, ?_, ?_⟩
  · obtain ⟨later, hlater⟩ := @generations_eq_append c [a] (c.levelsBelow a)
    rw [descendants, hlater]
    rfl
  · exact (hsingle.pairwise hc).imp And.left
  · intro m hm
    exact ⟨hhas hm, (hsingle.mem_generations hc hm).1⟩
  · exact (hsingle.pairwise hc).imp And.right
  · intro p hp
    refine hsingle.exists_block hc ?_ hp
    rw [levelsBelow]
    omega
  · intro p hp
    exact ⟨fun m => hc.mem_memberChildren (hhas hp), hc.pairwise_memberChildren (hhas hp)⟩

end Cube

open CubeQuery.Cube

/-- The climb from `m` meets `a` exactly when the scan from `a` lists `m`. The scan ends, with the
levels in their order, each member behind its parent and beside the other children. -/
theorem climb_meets_iff_scan_lists {layout : CubeLayout} {catalog : Catalog} {c : Cube}
    {a m : MemberId} (hbuild : Cube.build layout catalog = .ok c) (ha : c.Has (.member a))
    (hm : c.Has (.member m)) :
    (c.isAncestorOrSelf a m = true ↔ m ∈ c.descendants a) ∧
      LevelByLevel c a (c.descendants a) ∧
      (∀ listed, Scans c [] [a] listed ↔ listed = c.descendants a) ∧
      ∀ met, Climbs c a (some m) met ↔ met = c.isAncestorOrSelf a m := by
  have hc := (built_of_build hbuild).graph
  have hscan := hc.scans_descendants ha
  have hclimb := hc.climbs_isAncestorOrSelf (a := a) hm
  refine ⟨hc.isAncestorOrSelf_iff ha hm, hc.levelByLevel ha, fun listed => ?_, fun met => ?_⟩
  · constructor
    · exact fun h => h.unique hscan
    · rintro rfl
      exact hscan
  · constructor
    · exact fun h => h.unique hclimb
    · rintro rfl
      exact hclimb

/-- The region and the city of the first side: the scan from the one lists the other, and the climb
from the other meets the one. -/
theorem climb_meets_iff_scan_lists_games :
    Cube.build Games.layout Games.catalog = .ok Games.cube ∧
      Games.cube.Has (.member ⟨1⟩) ∧ Games.cube.Has (.member ⟨2⟩) ∧
      Games.cube.descendants ⟨1⟩ = [⟨1⟩, ⟨2⟩] ∧
      Games.cube.isAncestorOrSelf ⟨1⟩ ⟨2⟩ = true := by
  have hregion : Games.cube.Has (.member ⟨1⟩) :=
    show 1 < Games.cube.members.size by decide
  have hcity : Games.cube.Has (.member ⟨2⟩) :=
    show 2 < Games.cube.members.size by decide
  have hlisted : Games.cube.descendants ⟨1⟩ = [⟨1⟩, ⟨2⟩] := by decide
  refine ⟨Games.build_eq_cube, hregion, hcity, hlisted, ?_⟩
  rw [(climb_meets_iff_scan_lists Games.build_eq_cube hregion hcity).1, hlisted]
  exact List.mem_cons_of_mem _ (List.mem_singleton.2 rfl)

end CubeQuery
