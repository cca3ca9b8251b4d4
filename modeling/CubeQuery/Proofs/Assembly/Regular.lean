import CubeQuery.Proofs.Assembly.Paths
import CubeQuery.Proofs.Assembly.Placed

/-!
Adding the levels and members of a regular dimension. Members of different levels come mixed, row
by row. That each of them stands for one path of values is kept along the way by naming the path of
every member so far: a level then lists the paths that have appeared, and the children found so far
are the members by their parents and last values.
-/

namespace CubeQuery

namespace Assembly

open CubeQuery.Cube

section Found

variable {c c' : Cube} {l : LevelId} {p m : MemberId} {value : Value} {found found' : ChildIndex}

/-- A child is found, or it is added and found from then on. -/
theorem yields_childOf :
    Yields (childOf l value p found) c (m, found') c' ↔
      (found[(p, levelKey value)]? = some m ∧ found' = found ∧ c' = c) ∨
        (found[(p, levelKey value)]? = none ∧ Yields (addChild (captionOf value) l p) c m c' ∧
          found' = found.insert (p, levelKey value) m) := by
  unfold childOf
  cases hfound : found[(p, levelKey value)]? with
  | some child => simp [and_assoc, eq_comm]
  | none =>
    simp only [yields_bind, yields_pure, Prod.mk.injEq, reduceCtorEq, false_and, false_or, true_and]
    constructor
    · rintro ⟨_, _, hy, ⟨rfl, rfl⟩, rfl⟩
      exact ⟨hy, rfl⟩
    · rintro ⟨hy, rfl⟩
      exact ⟨m, c', hy, ⟨rfl, rfl⟩, rfl⟩

/-- An entry for a child that was not there hides no other entry. -/
theorem getElem?_insert_of_none {k k' : MemberId × Key} (hnone : found[k]? = none)
    (hin : found[k']? = some m) : (found.insert k p)[k']? = some m := by
  rw [Std.HashMap.getElem?_insert, if_neg]
  · exact hin
  · intro heq
    rw [← eq_of_beq heq, hnone] at hin
    cases hin

end Found

/-- `path` tells what the members of the hierarchy `h` stand for. `levels` are the levels below that
of the All member `a`, and `known` the paths of each depth that have a member. -/
structure Filed (c : Cube) (h : HierarchyId) (a : MemberId) (levels : List LevelId)
    (found : ChildIndex) (path : MemberId → List Key) (known : Nat → List (List Key)) : Prop where
  below : ∃ top, (c.hierarchy h).levels = top :: levels
  members : ∀ i l, levels[i]? = some l → (c.level l).members.toList.map path = known (i + 1)
  nodup : ∀ i, (known i).Nodup
  top : path a = []
  child : ∀ m p, c.Has (.member m) → (c.member m).hierarchy = h → (c.member m).parent? = some p →
    ∃ key, path m = path p ++ [key] ∧ found[(p, key)]? = some m
  sound : ∀ p key m, found[(p, key)]? = some m → c.Has (.member m) ∧ (c.member m).hierarchy = h ∧
    (c.member m).parent? = some p ∧ path m = path p ++ [key]

namespace Filed

variable {c₀ c c' : Cube} {h : HierarchyId} {a m m' p : MemberId} {levels : List LevelId}
  {l : LevelId} {found found' : ChildIndex} {path : MemberId → List Key}
  {known : Nat → List (List Key)}

theorem level_has (hd : Draft c₀ c h a) (hf : Filed c h a levels found path known) {i : Nat}
    (hl : levels[i]? = some l) :
    c.Has (.level l) ∧ (c.level l).hierarchy = h ∧ (c.level l).ordinal = i + 1 := by
  exact (hd.level_below_iff hf.below).1 hl

theorem length_path (hd : Draft c₀ c h a) (hf : Filed c h a levels found path known)
    (hm : c.Has (.member m)) (hh : (c.member m).hierarchy = h) :
    (path m).length = c.depth m := by
  induction hk : c.depth m generalizing m with
  | zero =>
    have hall := hd.graph.eq_allMember hm hk
    rw [hh, hd.allMember] at hall
    simp [hall, hf.top]
  | succ k ih =>
    obtain ⟨p, hp⟩ := hd.graph.exists_parent hm (by omega)
    obtain ⟨hhas, hhierarchy, hdepth⟩ := hd.graph.parent m p hm hp
    obtain ⟨key, hkey, -⟩ := hf.child m p hm hh hp
    have hlength := ih hhas (hhierarchy.trans hh) (by omega)
    simp [hkey, hlength]

theorem mem_known_iff (hd : Draft c₀ c h a) (hf : Filed c h a levels found path known) {i : Nat}
    (hl : levels[i]? = some l) (x : List Key) :
    x ∈ known (i + 1) ↔ ∃ m, c.Has (.member m) ∧ (c.member m).level = l ∧ path m = x := by
  rw [← hf.members i l hl, List.mem_map]
  obtain ⟨hlevel, -, -⟩ := hf.level_has hd hl
  constructor
  · rintro ⟨m, hm, rfl⟩
    obtain ⟨j, hj⟩ := Array.mem_iff_getElem?.1 (Array.mem_toList_iff.1 hm)
    obtain ⟨hhas, hsame, -⟩ := (hd.graph.members_at l hlevel m j).1 hj
    exact ⟨m, hhas, hsame, rfl⟩
  · rintro ⟨m, hm, rfl, rfl⟩
    exact ⟨m, Array.mem_toList_iff.2 (hd.graph.mem_members hm), rfl⟩

/-- The path of a member stands at its position. -/
theorem known_position (hd : Draft c₀ c h a) (hf : Filed c h a levels found path known)
    (hm : c.Has (.member m)) (hh : (c.member m).hierarchy = h) (hdepth : c.depth m ≠ 0) :
    (known (c.depth m))[(c.member m).position]? = some (path m) := by
  obtain ⟨k, hk⟩ := Nat.exists_eq_succ_of_ne_zero hdepth
  have hat := (hd.graph.members_at _ (hd.graph.level_has hm) m _).2 ⟨hm, rfl, rfl⟩
  rw [hk, ← hf.members k _ (hd.level_of_member hf.below hm hh hk), List.getElem?_map,
    Array.getElem?_toList, hat]
  rfl

/-- No two members stand for one path. -/
theorem path_inj (hd : Draft c₀ c h a) (hf : Filed c h a levels found path known)
    (hm : c.Has (.member m)) (hh : (c.member m).hierarchy = h) (hm' : c.Has (.member m'))
    (hh' : (c.member m').hierarchy = h) (hpath : path m = path m') : m = m' := by
  have hdepth : c.depth m = c.depth m' := by
    rw [← hf.length_path hd hm hh, ← hf.length_path hd hm' hh', hpath]
  by_cases hzero : c.depth m = 0
  · have h₁ := hd.graph.eq_allMember hm hzero
    have h₂ := hd.graph.eq_allMember hm' (hdepth ▸ hzero)
    rw [hh] at h₁
    rw [hh'] at h₂
    exact h₁.trans h₂.symm
  · have h₁ := hf.known_position hd hm hh hzero
    have h₂ := hf.known_position hd hm' hh' (hdepth ▸ hzero)
    rw [← hdepth, ← hpath] at h₂
    have hposition : (c.member m).position = (c.member m').position :=
      (List.getElem?_inj (List.getElem?_eq_some_iff.1 h₁).1 (hf.nodup _)).1 (h₁.trans h₂.symm)
    refine hd.graph.member_ext hm hm' ?_ hposition
    obtain ⟨hlevel, hsame⟩ := hd.graph.member_level m' hm'
    exact hd.graph.level_eq hlevel hm (hsame.trans (hh'.trans hh.symm)) hdepth.symm

/-- The path of a member begins with those of the members above it. -/
theorem path_ancestor (hd : Draft c₀ c h a) (hf : Filed c h a levels found path known) {n : Nat}
    (hm : c.Has (.member m)) (hh : (c.member m).hierarchy = h)
    (hup : c.ancestor? n m = some m') : path m' = (path m).take (c.depth m') := by
  induction n generalizing m' with
  | zero =>
    obtain rfl := Option.some.inj hup
    rw [← hf.length_path hd hm hh, List.take_length]
  | succ n ih =>
    rw [ancestor?_succ] at hup
    obtain ⟨q, hq, hparent⟩ := Option.bind_eq_some_iff.1 hup
    obtain ⟨hhas, hhierarchy, -⟩ := hd.graph.ancestor? hm hq
    obtain ⟨hhas', hhierarchy', hdepth⟩ := hd.graph.parent q m' hhas hparent
    obtain ⟨key, hkey, -⟩ := hf.child q m' hhas (hhierarchy.trans hh) hparent
    have hlength := hf.length_path hd hhas' (hhierarchy'.trans (hhierarchy.trans hh))
    have htake := congrArg (List.take (c.depth m')) ((ih hq).symm.trans hkey)
    rw [List.take_take, hdepth, Nat.min_eq_left (Nat.le_succ _)] at htake
    rw [htake, ← hlength, List.take_left]

/-- A member lies on the way up from another one if it stands for the first part of its path. -/
theorem exists_ancestor_iff (hd : Draft c₀ c h a) (hf : Filed c h a levels found path known)
    (hm : c.Has (.member m)) (hh : (c.member m).hierarchy = h) (hm' : c.Has (.member m'))
    (hh' : (c.member m').hierarchy = h) (hdepth : c.depth m' ≠ 0) :
    (∃ n, c.ancestor? n m = some m') ↔
      (known (c.depth m'))[(c.member m').position]? = some ((path m).take (c.depth m')) := by
  rw [hf.known_position hd hm' hh' hdepth, Option.some.injEq]
  constructor
  · rintro ⟨n, hn⟩
    exact hf.path_ancestor hd hm hh hn
  · intro hpath
    have hle : c.depth m' ≤ c.depth m := by
      have hlength := congrArg List.length hpath
      rw [List.length_take, hf.length_path hd hm hh, hf.length_path hd hm' hh'] at hlength
      omega
    obtain ⟨b, hb⟩ := hd.graph.exists_ancestor? hm (Nat.sub_le (c.depth m) (c.depth m'))
    obtain ⟨hhas, hhierarchy, hsum⟩ := hd.graph.ancestor? hm hb
    have hsame : c.depth b = c.depth m' := by omega
    have hbpath := hf.path_ancestor hd hm hh hb
    rw [hsame, ← hpath] at hbpath
    exact ⟨_, hf.path_inj hd hhas (hhierarchy.trans hh) hm' hh' hbpath ▸ hb⟩

theorem congr {known' : Nat → List (List Key)} (hf : Filed c h a levels found path known)
    (hsame : ∀ i < levels.length, known' (i + 1) = known (i + 1)) (hnodup : ∀ i, (known' i).Nodup) :
    Filed c h a levels found path known' := by
  refine ⟨hf.below, ?_, hnodup, hf.top, hf.child, hf.sound⟩
  intro i l hl
  rw [hf.members i l hl, hsame i (List.getElem?_eq_some_iff.1 hl).1]

/-- A child that has been found stands for the path of its parent, one value longer. -/
theorem mem_known_of_found {key : Key} (hd : Draft c₀ c h a)
    (hf : Filed c h a levels found path known) (hl : levels[c.depth p]? = some l)
    (hfound : found[(p, key)]? = some m) : path p ++ [key] ∈ known (c.depth p + 1) := by
  obtain ⟨hlevel, hlevel_hierarchy, hordinal⟩ := hf.level_has hd hl
  obtain ⟨hhas, hhierarchy, hup, hpath⟩ := hf.sound p key m hfound
  have hdepth := (hd.graph.parent m p hhas hup).2.2
  exact (hf.mem_known_iff hd hl _).2 ⟨m, hhas, hd.graph.level_eq hlevel hhas
    (hlevel_hierarchy.trans hhierarchy.symm) (hordinal.trans hdepth.symm), hpath⟩

/-- No member stands for the path of a child that is not found, since it would have been found. -/
theorem not_mem_known_of_none {key : Key} (hd : Draft c₀ c h a)
    (hf : Filed c h a levels found path known) (hp : c.Has (.member p))
    (hparent : (c.member p).hierarchy = h) (hl : levels[c.depth p]? = some l)
    (hnone : found[(p, key)]? = none) : path p ++ [key] ∉ known (c.depth p + 1) := by
  obtain ⟨-, hlevel_hierarchy, hordinal⟩ := hf.level_has hd hl
  rw [hf.mem_known_iff hd hl]
  rintro ⟨i, hi, hil, hpath⟩
  have hih : (c.member i).hierarchy = h := by
    rw [← (hd.graph.member_level i hi).2, hil, hlevel_hierarchy]
  obtain ⟨q, hq⟩ := hd.graph.exists_parent hi (by rw [depth, hil, hordinal]; omega)
  obtain ⟨hhasq, hhq, -⟩ := hd.graph.parent i q hi hq
  obtain ⟨last, hlast, hin⟩ := hf.child i q hi hih hq
  obtain ⟨hsame, hkey⟩ := List.append_inj' (hpath.symm.trans hlast) rfl
  obtain rfl := hf.path_inj hd hp hparent hhasq (hhq.trans hih) hsame
  obtain rfl : key = last := by simpa using hkey
  rw [hnone] at hin
  cases hin

/-- A child that was not found is added: it takes the path of its parent, one value longer, and all
other members keep theirs. -/
theorem addChild {key : Key} {caption : String} {known' : Nat → List (List Key)} (hg : Graph c₀)
    (hd : Draft c₀ c h a) (hf : Filed c h a levels found path known) (hp : c.Has (.member p))
    (hparent : (c.member p).hierarchy = h) (hl : levels[c.depth p]? = some l)
    (hnone : found[(p, key)]? = none)
    (hother : ∀ k, k ≠ c.depth p + 1 → known' k = known k)
    (hthis : known' (c.depth p + 1) = known (c.depth p + 1) ++ [path p ++ [key]])
    (hnodup : ∀ k, (known' k).Nodup) (hy : Yields (addChild caption l p) c m c') :
    Filed c' h a levels (found.insert (p, key) m) (Function.update path m (path p ++ [key]))
      known' := by
  obtain ⟨hlevel, hlevel_hierarchy, hordinal⟩ := hf.level_has hd hl
  obtain ⟨-, hext, hnew, hhas, hmember, hback, -, -, hlevels⟩ :=
    hd.child hg hlevel hlevel_hierarchy hp hparent hordinal hy
  have hold {i : MemberId} (hi : c.Has (.member i)) :
      Function.update path m (path p ++ [key]) i = path i := by
    refine Function.update_of_ne ?_ _ _
    rintro rfl
    exact hnew hi
  have hself : Function.update path m (path p ++ [key]) m = path p ++ [key] :=
    Function.update_self _ _ _
  refine ⟨?below, ?members, hnodup, (hold hd.all.1).trans hf.top, ?child, ?sound⟩
  case below => simpa only [Cube.hierarchy, hlevels] using hf.below
  case members =>
    intro i j hj
    have hmap : (c.level j).members.toList.map (Function.update path m (path p ++ [key])) =
        known (i + 1) := by
      rw [← hf.members i j hj]
      refine List.map_congr_left fun k hk => hold ?_
      exact (hd.graph.depth_eq (hf.level_has hd hj).1 (Array.mem_toList_iff.1 hk)).1
    rw [hd.members_addChild hf.below hl hj hy, List.map_append, hmap]
    split
    · next heq => rw [heq, hthis, List.map_singleton, hself]
    · next hne => rw [hother _ (by omega), List.map_nil, List.append_nil]
  -- From a member to its entry, and from an entry to its member.
  case child =>
    intro i q hi hih hq
    rcases hback i hi with rfl | hi
    · rw [hmember, newChild_parent?] at hq
      obtain rfl := Option.some.inj hq
      exact ⟨key, by rw [hself, hold hp], Std.HashMap.getElem?_insert_self⟩
    · rw [hext.member i hi] at hih hq
      obtain ⟨last, hlast, hin⟩ := hf.child i q hi hih hq
      refine ⟨last, ?_, getElem?_insert_of_none hnone hin⟩
      rw [hold hi, hold (hd.graph.parent i q hi hq).1, hlast]
  case sound =>
    intro q last i hin
    rw [Std.HashMap.getElem?_insert] at hin
    split at hin
    · next heq =>
      obtain ⟨rfl, rfl⟩ := Prod.mk.inj (eq_of_beq heq)
      obtain rfl := Option.some.inj hin
      rw [hself, hold hp, hmember, newChild_hierarchy, newChild_parent?]
      exact ⟨hhas, hlevel_hierarchy, rfl, rfl⟩
    · obtain ⟨hi, hih, hup, hpath⟩ := hf.sound q last i hin
      rw [hext.member i hi, hold hi, hold (hd.graph.parent i q hi hup).1]
      exact ⟨hext.has _ hi, hih, hup, hpath⟩

/-- One step down a row. The path of the parent, one value longer, has a member afterwards, and no
other path has got one. -/
theorem childOf {value : Value} (known' : Nat → List (List Key)) (hg : Graph c₀)
    (hd : Draft c₀ c h a)
    (hf : Filed c h a levels found path known) (hp : c.Has (.member p))
    (hparent : (c.member p).hierarchy = h) (hl : levels[c.depth p]? = some l)
    (hother : ∀ k, k ≠ c.depth p + 1 → known' k = known k)
    (hthis : known' (c.depth p + 1) =
      if path p ++ [levelKey value] ∈ known (c.depth p + 1) then known (c.depth p + 1)
      else known (c.depth p + 1) ++ [path p ++ [levelKey value]])
    (hnodup : ∀ k, (known' k).Nodup) (hy : Yields (childOf l value p found) c (m, found') c') :
    Draft c₀ c' h a ∧ Extends c c' ∧ ∃ path', Filed c' h a levels found' path' known' ∧
      (∀ i, c.Has (.member i) → path' i = path i) ∧ c'.Has (.member m) ∧
      (c'.member m).hierarchy = h ∧ c'.depth m = c.depth p + 1 ∧
      path' m = path p ++ [levelKey value] := by
  rcases yields_childOf.1 hy with ⟨hfound, rfl, rfl⟩ | ⟨hnone, hadd, rfl⟩
  -- A child that is found has the path already, and nothing changes.
  · obtain ⟨hhas, hhierarchy, hup, hpath⟩ := hf.sound _ _ _ hfound
    rw [if_pos (hf.mem_known_of_found hd hl hfound)] at hthis
    have hsame (k) : known' k = known k := by
      by_cases hk : k = c'.depth p + 1
      · rw [hk, hthis]
      · exact hother k hk
    exact ⟨hd, .refl _, path, hf.congr (fun _ _ => hsame _) hnodup, fun _ _ => rfl, hhas,
      hhierarchy, (hd.graph.parent _ _ hhas hup).2.2, hpath⟩
  · obtain ⟨hlevel, hlevel_hierarchy, hordinal⟩ := hf.level_has hd hl
    obtain ⟨hd', hext, hnew, hhas, hmember, -⟩ :=
      hd.child hg hlevel hlevel_hierarchy hp hparent hordinal hadd
    rw [if_neg (hf.not_mem_known_of_none hd hp hparent hl hnone)] at hthis
    refine ⟨hd', hext, _, hf.addChild hg hd hp hparent hl hnone hother hthis hnodup hadd,
      fun i hi => Function.update_of_ne ?_ _ _, hhas, ?_, ?_, Function.update_self _ _ _⟩
    · rintro rfl
      exact hnew hi
    · rw [hmember, newChild_hierarchy, hlevel_hierarchy]
    · rw [depth, hmember, newChild_level, (hext.level l hlevel).2, hordinal]

end Filed

/-! ### Captions -/

/-- Every member below the All member shows a value of its column, and is found under that value. -/
def Shown (c : Cube) (h : HierarchyId) (table : Table) (columns : List Nat) (found : ChildIndex) :
    Prop :=
  ∀ m p, c.Has (.member m) → (c.member m).hierarchy = h → (c.member m).parent? = some p →
    ∃ row column, columns[c.depth p]? = some column ∧
      (c.member m).caption = captionOf (table.cell row column) ∧
      found[(p, levelKey (table.cell row column))]? = some m

section Shown

variable {c₀ c c' : Cube} {h : HierarchyId} {a m p : MemberId} {table : Table} {l : LevelId}
  {levels : List LevelId} {found found' : ChildIndex} {path : MemberId → List Key}
  {known : Nat → List (List Key)} {columns : List Nat} {column row : Nat}

/-- At the beginning there is no member below the All member. -/
theorem Filed.shown_empty (hf : Filed c h a levels ∅ path known) : Shown c h table columns ∅ := by
  intro m p hm hh hp
  obtain ⟨key, -, hin⟩ := hf.child m p hm hh hp
  simp at hin

theorem Shown.childOf (hg : Graph c₀) (hd : Draft c₀ c h a)
    (hs : Shown c h table columns found) (hl : c.Has (.level l))
    (hlevel : (c.level l).hierarchy = h) (hordinal : (c.level l).ordinal = c.depth p + 1)
    (hp : c.Has (.member p)) (hhierarchy : (c.member p).hierarchy = h)
    (hcolumn : columns[c.depth p]? = some column)
    (hy : Yields (childOf l (table.cell row column) p found) c (m, found') c') :
    Shown c' h table columns found' := by
  rcases yields_childOf.1 hy with ⟨-, rfl, rfl⟩ | ⟨hnone, hadd, rfl⟩
  · exact hs
  · obtain ⟨-, hext, -, -, hmember, hback, -⟩ :=
      hd.child hg hl hlevel hp hhierarchy hordinal hadd
    intro i q hi hih hq
    rcases hback i hi with rfl | hi
    · rw [hmember, newChild_parent?] at hq
      obtain rfl := Option.some.inj hq
      refine ⟨row, column, by rw [hext.depth hd.graph hp, hcolumn], by rw [hmember]; rfl, ?_⟩
      exact Std.HashMap.getElem?_insert_self
    · rw [hext.member i hi] at hih hq ⊢
      obtain ⟨row', column', hcolumn', hcaption, hin⟩ := hs i q hi hih hq
      have hhas := (hd.graph.parent i q hi hq).1
      exact ⟨row', column', by rw [hext.depth hd.graph hhas, hcolumn'], hcaption,
        getElem?_insert_of_none hnone hin⟩

end Shown

/-! ### All rows -/

section Rows

variable {c₀ c c' : Cube} {h : HierarchyId} {a m : MemberId} {table : Table}
  {levels : List (LevelId × Nat)} {found found' : ChildIndex} {path : MemberId → List Key}

/-- The row `row` has been filed in the first levels, all earlier rows in all levels. -/
def pathsSoFar (table : Table) (columns : List Nat) (row levels depth : Nat) : List (List Key) :=
  table.pathsIn columns (if depth ≤ levels then row + 1 else row) depth

theorem pathsSoFar_self {columns : List Nat} {row levels : Nat} {x : List Key}
    (hx : x = (table.valuePath columns row).take (levels + 1)) :
    pathsSoFar table columns row (levels + 1) (levels + 1) =
      if x ∈ pathsSoFar table columns row levels (levels + 1) then
        pathsSoFar table columns row levels (levels + 1)
      else pathsSoFar table columns row levels (levels + 1) ++ [x] := by
  simp only [pathsSoFar, Nat.le_refl, if_true, if_neg (Nat.not_succ_le_self levels), hx]
  exact Table.pathsIn_succ

theorem pathsSoFar_other {columns : List Nat} {row levels depth : Nat} (h : depth ≠ levels + 1) :
    pathsSoFar table columns row (levels + 1) depth =
      pathsSoFar table columns row levels depth := by
  have : depth ≤ levels + 1 ↔ depth ≤ levels := by omega
  simp only [pathsSoFar, this]

/-- The member `m` stands for the first values of a row, so many as levels are done. -/
structure Reached (c₀ c : Cube) (h : HierarchyId) (a : MemberId) (table : Table)
    (levels : List (LevelId × Nat)) (row done : Nat) (found : ChildIndex)
    (path : MemberId → List Key) (m : MemberId) : Prop where
  draft : Draft c₀ c h a
  filed : Filed c h a (levels.map (·.1)) found path (pathsSoFar table (levels.map (·.2)) row done)
  has : c.Has (.member m)
  hierarchy : (c.member m).hierarchy = h
  depth : c.depth m = done
  path : path m = (table.valuePath (levels.map (·.2)) row).take done
  shown : Shown c h table (levels.map (·.2)) found

namespace Reached

variable {row : Nat} {p : MemberId} {l : LevelId} {column : Nat} {done rest : List (LevelId × Nat)}

theorem start (hd : Draft c₀ c h a)
    (hf : Filed c h a (levels.map (·.1)) found path (pathsSoFar table (levels.map (·.2)) row 0))
    (hs : Shown c h table (levels.map (·.2)) found) :
    Reached c₀ c h a table levels row 0 found path a := by
  obtain ⟨hhas, hhierarchy, hdepth⟩ := hd.all
  exact ⟨hd, hf, hhas, hhierarchy, hdepth, hf.top, hs⟩

/-- The level and the column below a member that has been reached. -/
theorem level_at (hr : Reached c₀ c h a table levels row done.length found path p)
    (hlevels : levels = done ++ (l, column) :: rest) :
    (levels.map (·.1))[c.depth p]? = some l ∧ (levels.map (·.2))[c.depth p]? = some column := by
  simp [hlevels, hr.depth]

theorem next (hg : Graph c₀) (hr : Reached c₀ c h a table levels row done.length found path p)
    (hlevels : levels = done ++ (l, column) :: rest)
    (hy : Yields (childOf l (table.cell row column) p found) c (m, found') c') :
    Extends c c' ∧ ∃ path', Reached c₀ c' h a table levels row (done.length + 1) found' path' m ∧
      ∀ i, c.Has (.member i) → path' i = path i := by
  obtain ⟨hl, hat⟩ := hr.level_at hlevels
  obtain ⟨hlevel, hhierarchy, hordinal⟩ := hr.filed.level_has hr.draft hl
  have hshown := hr.shown.childOf hg hr.draft hlevel hhierarchy hordinal hr.has hr.hierarchy hat hy
  rw [hr.depth] at hat
  obtain ⟨hlt, hcolumn⟩ := List.getElem?_eq_some_iff.1 hat
  have hlonger : path p ++ [levelKey (table.cell row column)] =
      (table.valuePath (levels.map (·.2)) row).take (done.length + 1) := by
    rw [hr.path, Table.take_valuePath_succ hlt, hcolumn]
  obtain ⟨hd', hext, path', hf', hold, hhas', hhierarchy', hdepth', hpath'⟩ :=
    hr.filed.childOf (pathsSoFar table (levels.map (·.2)) row (done.length + 1)) hg hr.draft hr.has
      hr.hierarchy hl (fun k hk => pathsSoFar_other (hr.depth ▸ hk))
      (by rw [hr.depth]; exact pathsSoFar_self hlonger) (fun _ => Table.nodup_pathsIn) hy
  exact ⟨hext, path',
    ⟨hd', hf', hhas', hhierarchy', by rw [hdepth', hr.depth], hpath'.trans hlonger, hshown⟩,
    hold⟩

end Reached

theorem filed_memberOfRow {row : Nat} (hg : Graph c₀) (hd : Draft c₀ c h a)
    (hf : Filed c h a (levels.map (·.1)) found path
      (pathsSoFar table (levels.map (·.2)) row 0))
    (hs : Shown c h table (levels.map (·.2)) found)
    (hy : Yields (memberOfRow table levels a row found) c (m, found') c') :
    Draft c₀ c' h a ∧ Extends c c' ∧ ∃ path',
      Filed c' h a (levels.map (·.1)) found' path'
        (pathsSoFar table (levels.map (·.2)) row levels.length) ∧
      Shown c' h table (levels.map (·.2)) found' ∧
      (∀ i, c.Has (.member i) → path' i = path i) ∧ c'.Has (.member m) ∧
      (c'.member m).hierarchy = h ∧ path' m = table.valuePath (levels.map (·.2)) row := by
  suffices ∃ path', Extends c c' ∧
      Reached c₀ c' h a table levels row levels.length found' path' m ∧
      ∀ i, c.Has (.member i) → path' i = path i by
    obtain ⟨path', hext, hr, hold⟩ := this
    have hpath := hr.path
    rw [List.take_of_length_le (by simp [Table.length_valuePath])] at hpath
    exact ⟨hr.draft, hext, path', hr.filed, hr.shown, hold, hr.has, hr.hierarchy, hpath⟩
  refine foldlM_induction (motive := fun done s c' => ∃ path', Extends c c' ∧
    Reached c₀ c' h a table levels row done.length s.2 path' s.1 ∧
    ∀ i, c.Has (.member i) → path' i = path i) hy ?_ ?_
  · exact ⟨path, .refl c, .start hd hf hs, fun _ _ => rfl⟩
  · rintro done ⟨l, column⟩ rest ⟨p, found⟩ c₁ ⟨m, found'⟩ c' hlevels ⟨path₁, hext₁, hr₁, hold₁⟩ hy
    obtain ⟨hext, path', hr', hold⟩ := hr₁.next hg hlevels hy
    refine ⟨path', hext₁.trans hext, by simpa using hr', fun i hi => ?_⟩
    rw [hold i (hext₁.has _ hi), hold₁ i hi]

/-- Between two rows, the one before is filed completely and the next one not at all. -/
theorem Filed.begin_row {row : Nat} (hf : Filed c h a (levels.map (·.1)) found path
    (table.pathsIn (levels.map (·.2)) row)) :
    Filed c h a (levels.map (·.1)) found path (pathsSoFar table (levels.map (·.2)) row 0) :=
  hf.congr (fun _ _ => rfl) fun _ => Table.nodup_pathsIn

theorem Filed.end_row {row : Nat} (hf : Filed c h a (levels.map (·.1)) found path
    (pathsSoFar table (levels.map (·.2)) row levels.length)) :
    Filed c h a (levels.map (·.1)) found path (table.pathsIn (levels.map (·.2)) (row + 1)) := by
  refine hf.congr (fun i hi => ?_) fun _ => Table.nodup_pathsIn
  rw [List.length_map] at hi
  simp [pathsSoFar, show i + 1 ≤ levels.length from hi]

/-- The members of all rows stand for the paths of the rows. -/
theorem filed_membersOfRows {members : Array MemberId} (hg : Graph c₀) (hd : Draft c₀ c h a)
    (hf : Filed c h a (levels.map (·.1)) ∅ path (table.pathsIn (levels.map (·.2)) 0))
    (hy : Yields (membersOfRows table levels a) c members c') :
    Draft c₀ c' h a ∧ ∃ found path',
      Filed c' h a (levels.map (·.1)) found path'
        (table.pathsIn (levels.map (·.2)) table.rowCount) ∧
      Shown c' h table (levels.map (·.2)) found ∧
      members.size = table.rowCount ∧ ∀ row m, members[row]? = some m → c'.Has (.member m) ∧
        (c'.member m).hierarchy = h ∧ path' m = table.valuePath (levels.map (·.2)) row := by
  obtain ⟨⟨_, found⟩, c₁, hy, hpure⟩ := yields_bind.1 hy
  obtain ⟨rfl, rfl⟩ := yields_pure.1 hpure
  suffices ∃ path', Draft c₀ c' h a ∧
      Filed c' h a (levels.map (·.1)) found path' (table.pathsIn (levels.map (·.2))
        (List.range table.rowCount).length) ∧
      Shown c' h table (levels.map (·.2)) found ∧
      members.size = (List.range table.rowCount).length ∧
      ∀ row m, members[row]? = some m → c'.Has (.member m) ∧ (c'.member m).hierarchy = h ∧
        path' m = table.valuePath (levels.map (·.2)) row by
    obtain ⟨path', hd', hf', hs', hsize, hmembers⟩ := this
    rw [List.length_range] at hf' hsize
    exact ⟨hd', found, path', hf', hs', hsize, hmembers⟩
  refine foldlM_induction (motive := fun done s c' => ∃ path', Draft c₀ c' h a ∧
    Filed c' h a (levels.map (·.1)) s.2 path' (table.pathsIn (levels.map (·.2)) done.length) ∧
    Shown c' h table (levels.map (·.2)) s.2 ∧
    s.1.size = done.length ∧ ∀ (row : Nat) m, s.1[row]? = some m → c'.Has (.member m) ∧
      (c'.member m).hierarchy = h ∧ path' m = table.valuePath (levels.map (·.2)) row) hy ?_ ?_
  · exact ⟨path, hd, hf, hf.shown_empty, rfl, by simp⟩
  · rintro done row rest ⟨members, found⟩ c₁ ⟨members', found'⟩ c' hrows
      ⟨path₁, hd₁, hf₁, hs₁, hsize, hmembers⟩ hy
    obtain ⟨⟨m, found₂⟩, c₂, hy, hpure⟩ := yields_bind.1 hy
    obtain ⟨heq, rfl⟩ := yields_pure.1 hpure
    obtain ⟨rfl, rfl⟩ := Prod.mk.inj heq
    obtain ⟨rfl, -⟩ := row_eq_length hrows
    obtain ⟨hd', hext, path', hf', hs', hold, hhas, hhierarchy, hpath⟩ :=
      filed_memberOfRow hg hd₁ hf₁.begin_row hs₁ hy
    refine ⟨path', hd', by simpa using hf'.end_row, hs', by simp [hsize], ?_⟩
    intro row k hk
    rw [Array.getElem?_push] at hk
    split at hk
    · next hrow =>
      obtain rfl := Option.some.inj hk
      rw [hrow, hsize]
      exact ⟨hhas, hhierarchy, hpath⟩
    · obtain ⟨hhas, hhierarchy, hpath⟩ := hmembers row k hk
      exact ⟨hext.has _ hhas, by rw [hext.member k hhas, hhierarchy], by rw [hold k hhas, hpath]⟩

/-- The levels are those of the columns, in their order. -/
theorem filed_levels {columns : List String} {pairs : List (LevelId × Nat)} {top : LevelId}
    (hd : Draft c₀ c h a) (htop : (c.hierarchy h).levels = [top])
    (hy : Yields (columns.mapM fun column => do
      let index ← consult (table.requireColumn column)
      let level ← addLevel h column (some column)
      return (level, index)) c pairs c') :
    Draft c₀ c' h a ∧
      Filed c' h a (pairs.map (·.1)) ∅ (fun _ => []) (table.pathsIn (pairs.map (·.2)) 0) ∧
      List.Forall₂ (fun column pair => table.requireColumn column = .ok pair.2) columns pairs := by
  have hbody (column : String) (c : Cube) (pair : LevelId × Nat) (c' : Cube)
      (hy : Yields (do
        let index ← consult (table.requireColumn column)
        let level ← addLevel h column (some column)
        return (level, index)) c pair c') :
      ∃ name source, Yields (addLevel h name source) c pair.1 c' ∧
        table.requireColumn column = .ok pair.2 := by
    simp only [yields_bind, yields_consult, yields_pure] at hy
    obtain ⟨index, _, ⟨hcolumn, rfl⟩, l, c₂, hy, rfl, rfl⟩ := hy
    exact ⟨column, some column, hy, hcolumn⟩
  obtain ⟨hd', hlevels, hempty, honly, hcolumns⟩ := hd.levels Prod.fst _ htop hbody hy
  refine ⟨hd', ⟨⟨top, hlevels⟩, ?_, fun _ => Table.nodup_pathsIn, rfl, ?_, by simp⟩, hcolumns⟩
  · intro i l hl
    simp [hempty l (List.mem_of_getElem? hl)]
  · intro m p hm hh hp
    have hdepth := (hd'.graph.parent m p hm hp).2.2
    rw [honly m hm hh, hd'.all.2.2] at hdepth
    omega

/-- Every row of the table gets a member of the last level, which lies below the members of the
parts of its path. -/
theorem placed_addRegularLevels {layout : DimensionLayout} {members : Array MemberId}
    {top : LevelId} (hg : Graph c₀) (hd : Draft c₀ c h a) (htop : (c.hierarchy h).levels = [top])
    (hy : Yields (addRegularLevels layout table h a) c members c') :
    Draft c₀ c' h a ∧ (∀ (row : Nat) m, members[row]? = some m →
        c'.depth m + 1 = (c'.hierarchy h).levels.length) ∧ ∃ columns : List Nat,
      List.Forall₂ (fun name column => table.requireColumn name = .ok column)
        layout.levelColumns columns ∧
      Placed c' h table members fun row depth position =>
        (table.pathsIn columns table.rowCount depth)[position]? =
          some ((table.valuePath columns row).take depth) := by
  obtain ⟨levels, c₁, hlevels, hy⟩ := yields_bind.1 hy
  obtain ⟨hd₁, hf₁, hcolumns⟩ := filed_levels hd htop hlevels
  obtain ⟨hd', found, path, hf', -, hsize, hmembers⟩ := filed_membersOfRows hg hd₁ hf₁ hy
  refine ⟨hd', ?_, levels.map (·.2), by simpa using hcolumns, hsize, ?_, ?_⟩
  · intro row m hm
    obtain ⟨hhas, hhierarchy, hpath⟩ := hmembers row m hm
    obtain ⟨top, hlevels⟩ := hf'.below
    rw [← hf'.length_path hd' hhas hhierarchy, hpath, Table.length_valuePath, hlevels]
    simp
  · intro row m hm
    obtain ⟨hhas, hhierarchy, -⟩ := hmembers row m hm
    exact ⟨hhas, hhierarchy⟩
  · intro row b m hb hm hh hdepth
    obtain ⟨hhas, hhierarchy, hpath⟩ := hmembers row b hb
    rw [← hpath]
    exact hf'.exists_ancestor_iff hd' hhas hhierarchy hm hh hdepth

end Rows

end Assembly

end CubeQuery
