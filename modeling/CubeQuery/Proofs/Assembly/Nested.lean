import CubeQuery.Proofs.Assembly.Counting
import CubeQuery.Proofs.Assembly.Placed

/-!
Adding the levels and members of a dimension whose rows are nested. Members come depth by depth, so
that the member of the row above is always there when it is needed. While this goes on, the seated
rows are those that have a member of their own already.
-/

namespace CubeQuery

namespace Assembly

open CubeQuery.Cube

/-- The rows `seated i` have members of their own on the level number `i` of `levels`, in this
order; the other rows have the All member `a` in their place. `above` yields the row above. -/
structure Seated (c : Cube) (h : HierarchyId) (a : MemberId) (levels : List LevelId)
    (above : Nat → Option Nat) (members : Array MemberId) (seated : Nat → List Nat) : Prop where
  below : ∃ top, (c.hierarchy h).levels = top :: levels
  placed : ∀ i l, levels[i]? = some l →
    (c.level l).members.toList = (seated i).map (members.getD · a)
  parent : ∀ i row, i < levels.length → row ∈ seated i →
    (i = 0 ∧ above row = none ∧ (c.member (members.getD row a)).parent? = some a) ∨
      ∃ j r, i = j + 1 ∧ above row = some r ∧ r ∈ seated j ∧
        (c.member (members.getD row a)).parent? = some (members.getD r a)

/-- A member for `row` at the depth `i` comes below `p`, the All member or that of the row above. -/
def SeatedBelow (a : MemberId) (above : Nat → Option Nat) (members : Array MemberId)
    (seated : Nat → List Nat) (i row : Nat) (p : MemberId) : Prop :=
  (i = 0 ∧ above row = none ∧ p = a) ∨
    ∃ j r, i = j + 1 ∧ above row = some r ∧ r ∈ seated j ∧ p = members.getD r a

theorem getD_setIfInBounds {members : Array MemberId} {row r : Nat} {m a : MemberId}
    (hrow : row < members.size) :
    (members.setIfInBounds row m).getD r a = if r = row then m else members.getD r a := by
  simp only [Array.getD_eq_getD_getElem?, Array.getElem?_setIfInBounds]
  by_cases hr : r = row
  · simp [hr, hrow]
  · simp [hr, Ne.symm hr]

/-- A row that gets a member leaves the members of the rows before it where they are. -/
theorem SeatedBelow.grow {a m p : MemberId} {above : Nat → Option Nat} {members : Array MemberId}
    {seated : Nat → List Nat} {i j row r : Nat} (hrow : row < members.size)
    (hfree : ∀ j, row ∉ seated j) (h : SeatedBelow a above members seated j r p) :
    SeatedBelow a above (members.setIfInBounds row m)
      (fun j => if j = i then seated i ++ [row] else seated j) j r p := by
  rcases h with htop | ⟨k, s, hj, habove, hs, hp⟩
  · exact .inl htop
  · refine .inr ⟨k, s, hj, habove, ?_, ?_⟩
    · dsimp only
      split
      · next hk => exact List.mem_append_left _ (hk ▸ hs)
      · exact hs
    · rw [hp, getD_setIfInBounds hrow, if_neg]
      rintro rfl
      exact hfree k hs

namespace Seated

variable {c₀ c c' : Cube} {h : HierarchyId} {a m : MemberId} {levels : List LevelId}
  {l : LevelId} {above : Nat → Option Nat} {members : Array MemberId} {seated : Nat → List Nat}
  {i row : Nat}

/-- The two ways in which a member can have its parent, and the parent itself. -/
theorem parent_iff {parent? : Option MemberId} :
    ((i = 0 ∧ above row = none ∧ parent? = some a) ∨
      ∃ j r, i = j + 1 ∧ above row = some r ∧ r ∈ seated j ∧ parent? = some (members.getD r a)) ↔
      ∃ p, SeatedBelow a above members seated i row p ∧ parent? = some p := by
  constructor
  · rintro (⟨hi, habove, hp⟩ | ⟨j, r, hi, habove, hr, hp⟩)
    · exact ⟨a, .inl ⟨hi, habove, rfl⟩, hp⟩
    · exact ⟨_, .inr ⟨j, r, hi, habove, hr, rfl⟩, hp⟩
  · rintro ⟨p, ⟨hi, habove, rfl⟩ | ⟨j, r, hi, habove, hr, rfl⟩, hp⟩
    · exact .inl ⟨hi, habove, hp⟩
    · exact .inr ⟨j, r, hi, habove, hr, hp⟩

theorem level_has (hd : Draft c₀ c h a) (hs : Seated c h a levels above members seated)
    (hl : levels[i]? = some l) :
    c.Has (.level l) ∧ (c.level l).hierarchy = h ∧ (c.level l).ordinal = i + 1 := by
  exact (hd.level_below_iff hs.below).1 hl

theorem member_has (hd : Draft c₀ c h a) (hs : Seated c h a levels above members seated)
    (hi : i < levels.length) (hrow : row ∈ seated i) :
    c.Has (.member (members.getD row a)) ∧ (c.member (members.getD row a)).hierarchy = h ∧
      c.depth (members.getD row a) = i + 1 := by
  have hl := List.getElem?_eq_getElem hi
  obtain ⟨hlevel, hhierarchy, hordinal⟩ := hs.level_has hd hl
  have hmem : members.getD row a ∈ (c.level levels[i]).members := by
    rw [← Array.mem_toList_iff, hs.placed i _ hl]
    exact List.mem_map_of_mem hrow
  obtain ⟨hhas, hsame, hdepth⟩ := hd.graph.depth_eq hlevel hmem
  exact ⟨hhas, hsame.trans hhierarchy, hdepth.trans hordinal⟩

theorem below_has (hd : Draft c₀ c h a) (hs : Seated c h a levels above members seated)
    (hi : i < levels.length) (hp : SeatedBelow a above members seated i row p) :
    c.Has (.member p) ∧ (c.member p).hierarchy = h ∧ c.depth p = i := by
  rcases hp with ⟨rfl, -, rfl⟩ | ⟨j, r, rfl, -, hr, rfl⟩
  · exact hd.all
  · exact hs.member_has hd (by omega) hr

/-- One more row gets a member. -/
theorem addChild {caption : String} {p : MemberId} (hg : Graph c₀) (hd : Draft c₀ c h a)
    (hs : Seated c h a levels above members seated) (hl : levels[i]? = some l)
    (hrow : row < members.size) (hfree : ∀ j, row ∉ seated j)
    (hp : SeatedBelow a above members seated i row p)
    (hy : Yields (addChild caption l p) c m c') :
    Draft c₀ c' h a ∧ Seated c' h a levels above (members.setIfInBounds row m)
      fun j => if j = i then seated i ++ [row] else seated j := by
  obtain ⟨hlevel, hlevel_hierarchy, hordinal⟩ := hs.level_has hd hl
  have hi := (List.getElem?_eq_some_iff.1 hl).1
  obtain ⟨hhas, hhierarchy, hdepth⟩ := hs.below_has hd hi hp
  obtain ⟨hd', hext, -, -, hmember, -, -, -, hlevels⟩ :=
    hd.child hg hlevel hlevel_hierarchy hhas hhierarchy (by omega) hy
  have hself : (members.setIfInBounds row m).getD row a = m := by
    rw [getD_setIfInBounds hrow, if_pos rfl]
  have hother {j r : Nat} (hr : r ∈ seated j) :
      (members.setIfInBounds row m).getD r a = members.getD r a := by
    rw [getD_setIfInBounds hrow, if_neg]
    rintro rfl
    exact hfree j hr
  refine ⟨hd', ?below, ?placed, ?parent⟩
  case below => simpa only [Cube.hierarchy, hlevels] using hs.below
  case placed =>
    intro j k hk
    have hmap : (seated j).map ((members.setIfInBounds row m).getD · a) =
        (c.level k).members.toList := by
      rw [hs.placed j k hk]
      exact List.map_congr_left fun r hr => hother hr
    rw [hd.members_addChild hs.below hl hk hy, ← hmap]
    split
    · next heq => rw [heq, List.map_append, List.map_singleton, hself]
    · rw [List.append_nil]
  case parent =>
    intro j r hj hr
    rw [parent_iff]
    -- Only the new row can have got a parent; what the others lie below may have got a member.
    have hold (hr : r ∈ seated j) : ∃ q, SeatedBelow a above members seated j r q ∧
        (c'.member ((members.setIfInBounds row m).getD r a)).parent? = some q := by
      rw [hother hr, hext.member _ (hs.member_has hd hj hr).1]
      exact parent_iff.1 (hs.parent j r hj hr)
    suffices ∃ q, SeatedBelow a above members seated j r q ∧
        (c'.member ((members.setIfInBounds row m).getD r a)).parent? = some q by
      obtain ⟨q, hq, hup⟩ := this
      exact ⟨q, hq.grow hrow hfree, hup⟩
    split at hr
    · next heq =>
      subst heq
      rcases List.mem_append.1 hr with hr | hr
      · exact hold hr
      · obtain rfl := List.mem_singleton.1 hr
        exact ⟨p, hp, by rw [hself, hmember, newChild_parent?]⟩
    · exact hold hr

/-- The way up through the table is the way up through the hierarchy. -/
theorem ancestor?_of_rowUp? {table : Table} {key parent n r : Nat}
    (hs : Seated c h a levels (table.rowAbove? key parent) members seated)
    (hi : i < levels.length) (hrow : row ∈ seated i)
    (hup : table.rowUp? key parent n row = some r) :
    ∃ j, i = j + n ∧ r ∈ seated j ∧
      c.ancestor? n (members.getD row a) = some (members.getD r a) := by
  induction n generalizing r with
  | zero =>
    obtain rfl := Option.some.inj hup
    exact ⟨i, rfl, hrow, rfl⟩
  | succ n ih =>
    obtain ⟨q, hq, habove⟩ := Option.bind_eq_some_iff.1 hup
    obtain ⟨j, rfl, hqj, hancestor⟩ := ih hq
    rcases hs.parent j q (by omega) hqj with ⟨-, hnone, -⟩ | ⟨k, s, rfl, habove', hsk, hparent⟩
    · rw [habove] at hnone
      cases hnone
    · obtain rfl := Option.some.inj (habove.symm.trans habove')
      exact ⟨k, by omega, hsk, by rw [ancestor?_succ, hancestor]; exact hparent⟩

/-- The way up through the hierarchy is that through the table, until it reaches the All member. -/
theorem rowUp?_of_ancestor? {table : Table} {key parent n : Nat} (hd : Draft c₀ c h a)
    (hs : Seated c h a levels (table.rowAbove? key parent) members seated)
    (hi : i < levels.length) (hrow : row ∈ seated i)
    (hup : c.ancestor? n (members.getD row a) = some m) (hdepth : c.depth m ≠ 0) :
    ∃ j r, i = j + n ∧ r ∈ seated j ∧ table.rowUp? key parent n row = some r ∧
      m = members.getD r a := by
  induction n generalizing m with
  | zero =>
    obtain rfl := Option.some.inj hup
    exact ⟨i, row, rfl, hrow, rfl, rfl⟩
  | succ n ih =>
    rw [ancestor?_succ] at hup
    obtain ⟨b, hb, hparent⟩ := Option.bind_eq_some_iff.1 hup
    have hhas := (hd.graph.ancestor? (hs.member_has hd hi hrow).1 hb).1
    have hbelow := (hd.graph.parent b m hhas hparent).2.2
    obtain ⟨j, q, rfl, hqj, hq, rfl⟩ := ih hb (by omega)
    rcases hs.parent j q (by omega) hqj with ⟨-, -, htop⟩ | ⟨k, s, rfl, habove, hsk, hup'⟩
    · rw [htop] at hparent
      obtain rfl := Option.some.inj hparent
      exact absurd hd.all.2.2 hdepth
    · rw [hup'] at hparent
      exact ⟨k, s, by omega, hsk, by rw [Table.rowUp?, hq]; exact habove,
        (Option.some.inj hparent).symm⟩

/-- Members and rows correspond by their places. -/
theorem position_iff (hd : Draft c₀ c h a) (hs : Seated c h a levels above members seated)
    (hm : c.Has (.member m)) (hh : (c.member m).hierarchy = h) (hdepth : c.depth m = i + 1) :
    i < levels.length ∧ ((seated i)[(c.member m).position]?).map (members.getD · a) = some m := by
  have hl := hd.level_of_member hs.below hm hh hdepth
  refine ⟨(List.getElem?_eq_some_iff.1 hl).1, ?_⟩
  rw [← List.getElem?_map, ← hs.placed i _ hl, Array.getElem?_toList]
  exact (hd.graph.members_at _ (hd.graph.level_has hm) m _).2 ⟨hm, rfl, rfl⟩

/-- A member lies on the way up from the member of a row if its own row lies on the way up. -/
theorem exists_ancestor_iff {table : Table} {key parent j : Nat} (hd : Draft c₀ c h a)
    (hs : Seated c h a levels (table.rowAbove? key parent) members seated)
    (hi : i < levels.length) (hrow : row ∈ seated i) (hm : c.Has (.member m))
    (hh : (c.member m).hierarchy = h) (hdepth : c.depth m = j + 1) :
    (∃ n, c.ancestor? n (members.getD row a) = some m) ↔
      ∃ own, (seated j)[(c.member m).position]? = some own ∧
        ∃ n, table.rowUp? key parent n row = some own := by
  constructor
  · rintro ⟨n, hn⟩
    obtain ⟨k, r, rfl, hr, hup, rfl⟩ := hs.rowUp?_of_ancestor? hd hi hrow hn (by omega)
    have hk := (hs.member_has hd (by omega) hr).2.2
    obtain rfl : j = k := by omega
    refine ⟨r, ?_, n, hup⟩
    obtain ⟨x, hx⟩ := List.mem_iff_getElem?.1 hr
    suffices x = (c.member (members.getD r a)).position by rwa [← this]
    have hl := List.getElem?_eq_getElem (show j < levels.length by omega)
    obtain ⟨hlevel, -, -⟩ := hs.level_has hd hl
    refine ((hd.graph.members_at _ hlevel _ x).1 ?_).2.2.symm
    rw [← Array.getElem?_toList, hs.placed j _ hl, List.getElem?_map, hx]
    rfl
  · rintro ⟨own, hown, n, hup⟩
    obtain ⟨k, -, -, hancestor⟩ := hs.ancestor?_of_rowUp? hi hrow hup
    obtain ⟨-, hposition⟩ := hs.position_iff hd hm hh hdepth
    rw [hown] at hposition
    exact ⟨n, by rw [hancestor]; exact hposition⟩

end Seated

section Captions

variable {c₀ c c' : Cube} {h : HierarchyId} {a m p : MemberId} {levels : List LevelId}
  {l : LevelId} {above : Nat → Option Nat} {members : Array MemberId} {seated : Nat → List Nat}
  {i row : Nat} {captionAt : Nat → String}

/-- The members of rows show the captions of their rows. -/
def Captioned (c : Cube) (a : MemberId) (levels : List LevelId) (captionAt : Nat → String)
    (members : Array MemberId) (seated : Nat → List Nat) : Prop :=
  ∀ i row, i < levels.length → row ∈ seated i →
    (c.member (members.getD row a)).caption = captionAt row

theorem Captioned.addChild (hg : Graph c₀) (hd : Draft c₀ c h a)
    (hs : Seated c h a levels above members seated)
    (hcaptions : Captioned c a levels captionAt members seated) (hl : levels[i]? = some l)
    (hp : SeatedBelow a above members seated i row p) (hrow : row < members.size)
    (hfree : ∀ j, row ∉ seated j) (hy : Yields (Assembly.addChild (captionAt row) l p) c m c') :
    Captioned c' a levels captionAt (members.setIfInBounds row m)
      fun j => if j = i then seated i ++ [row] else seated j := by
  obtain ⟨hlevel, hhierarchy, hordinal⟩ := hs.level_has hd hl
  have hi := (List.getElem?_eq_some_iff.1 hl).1
  obtain ⟨hhas, hsame, hdepth⟩ := hs.below_has hd hi hp
  obtain ⟨-, hext, -, -, hmember, -⟩ :=
    hd.child hg hlevel hhierarchy hhas hsame (by omega) hy
  have hold {j r : Nat} (hj : j < levels.length) (hr : r ∈ seated j) :
      (c'.member ((members.setIfInBounds row m).getD r a)).caption = captionAt r := by
    have hne : r ≠ row := by
      rintro rfl
      exact hfree j hr
    rw [getD_setIfInBounds hrow, if_neg hne, hext.member _ (hs.member_has hd hj hr).1,
      hcaptions j r hj hr]
  intro j r hj hr
  dsimp only at hr
  by_cases hji : j = i
  · subst hji
    rw [if_pos rfl, List.mem_append, List.mem_singleton] at hr
    rcases hr with hr | rfl
    · exact hold hj hr
    · rw [getD_setIfInBounds hrow, if_pos rfl, hmember]
      rfl
  · rw [if_neg hji] at hr
    exact hold hj hr

end Captions

/-! ### All rows -/

section Rows

variable {c₀ c c' : Cube} {h : HierarchyId} {a m : MemberId} {levels : List LevelId}
  {table : Table} {key parent caption : Nat} {parents : Array (Option Nat)} {depths : Array Nat}
  {members members' : Array MemberId}

/-- The rows of the first depths are seated, and some rows of the next depth. -/
def seatedTo (table : Table) (key parent depth : Nat) (next : List Nat) (i : Nat) : List Nat :=
  if i < depth then table.rowsOfDepth key parent (i + 1) else if i = depth then next else []

theorem seatedTo_all {depth : Nat} :
    seatedTo table key parent depth (table.rowsOfDepth key parent (depth + 1)) =
      seatedTo table key parent (depth + 1) [] := by
  funext i
  simp only [seatedTo]
  rcases Nat.lt_trichotomy i depth with hi | rfl | hi
  · rw [if_pos hi, if_pos (by omega)]
  · simp
  · rw [if_neg (by omega), if_neg (by omega), if_neg (by omega), ite_self]

theorem seatedTo_concat {depth row : Nat} {next : List Nat} :
    (fun i => if i = depth then seatedTo table key parent depth next depth ++ [row]
      else seatedTo table key parent depth next i) =
      seatedTo table key parent depth (next ++ [row]) := by
  funext i
  simp only [seatedTo]
  by_cases hi : i = depth <;> simp [hi]

theorem nodup_rowsOfDepth {depth : Nat} : (table.rowsOfDepth key parent depth).Nodup :=
  List.nodup_range.filter _

section Row

variable {depth row : Nat} {done rest : List Nat}

/-- The next row of a depth has no seat yet. -/
theorem not_mem_seatedTo
    (hsplit : table.rowsOfDepth key parent (depth + 1) = done ++ row :: rest) (i : Nat) :
    row ∉ seatedTo table key parent depth done i := by
  have hrow : row ∈ table.rowsOfDepth key parent (depth + 1) := by simp [hsplit]
  unfold seatedTo
  split
  · intro hmem
    have := depth_unique hrow hmem
    omega
  · split
    · have hnodup : (done ++ row :: rest).Nodup := hsplit ▸ nodup_rowsOfDepth
      intro hmem
      exact (List.nodup_append.1 hnodup).2.2 row hmem row (by simp) rfl
    · simp

/-- The row above the next one has its seat. -/
theorem seat_above (hsplit : table.rowsOfDepth key parent (depth + 1) = done ++ row :: rest)
    (hparents : ∀ row < table.rowCount, (parents[row]?).join = table.rowAbove? key parent row) :
    SeatedBelow a (table.rowAbove? key parent) members (seatedTo table key parent depth done) depth
      row (((parents[row]?).join.bind (members[·]?)).getD a) := by
  have hrow : row ∈ table.rowsOfDepth key parent (depth + 1) := by simp [hsplit]
  rw [hparents row (by simpa using List.mem_of_mem_filter hrow)]
  rcases mem_rowsOfDepth_succ hrow with ⟨hzero, hnone⟩ | ⟨r, habove, hr⟩
  · exact .inl ⟨hzero, hnone, by rw [hnone]; rfl⟩
  · obtain ⟨j, rfl⟩ := Nat.exists_eq_succ_of_ne_zero (depth_pos hr)
    refine .inr ⟨j, r, rfl, habove, ?_, ?_⟩
    · rw [seatedTo, if_pos (Nat.lt_succ_self j)]
      exact hr
    · rw [habove, Array.getD_eq_getD_getElem?]
      rfl

end Row

/-- The rows that the builder takes for a depth are those of the table. -/
theorem filter_depths {depth : Nat} (hdepths : ∀ row depth : Nat,
      depths[row]? = some depth ↔ row ∈ table.rowsOfDepth key parent depth) :
    ((List.range table.rowCount).filter fun row => depths[row]? == some depth) =
      table.rowsOfDepth key parent depth := by
  refine List.filter_congr fun row hrow => ?_
  rw [Bool.eq_iff_iff, beq_iff_eq, hdepths, Table.rowsOfDepth, List.mem_filter, and_iff_right hrow]

/-- The seated rows have members with their captions. -/
structure Seating (c₀ c : Cube) (h : HierarchyId) (a : MemberId) (levels : List LevelId)
    (table : Table) (key parent caption : Nat) (members : Array MemberId)
    (seated : Nat → List Nat) : Prop where
  draft : Draft c₀ c h a
  size : members.size = table.rowCount
  seats : Seated c h a levels (table.rowAbove? key parent) members seated
  captions : Captioned c a levels (fun row => captionOf (table.cell row caption)) members seated

/-- The turn of one row. -/
theorem Seating.turn {depth row : Nat} {done rest : List Nat} {l : LevelId} (hg : Graph c₀)
    (hs : Seating c₀ c h a levels table key parent caption members
      (seatedTo table key parent depth done))
    (hl : levels[depth]? = some l)
    (hparents : ∀ row < table.rowCount, (parents[row]?).join = table.rowAbove? key parent row)
    (hsplit : table.rowsOfDepth key parent (depth + 1) = done ++ row :: rest)
    (hy : Yields (do
      let member ← addChild (captionOf (table.cell row caption)) l
        (((parents[row]?).join.bind (members[·]?)).getD a)
      return members.setIfInBounds row member) c members' c') :
    Seating c₀ c' h a levels table key parent caption members'
      (seatedTo table key parent depth (done ++ [row])) := by
  simp only [yields_bind, yields_pure] at hy
  obtain ⟨m, c₁, hy, rfl, rfl⟩ := hy
  have hrow : row < members.size := by
    have hrow : row ∈ table.rowsOfDepth key parent (depth + 1) := by simp [hsplit]
    rw [hs.size]
    simpa using List.mem_of_mem_filter hrow
  have hfree := not_mem_seatedTo hsplit
  have hbelow : SeatedBelow a (table.rowAbove? key parent) members
      (seatedTo table key parent depth done) depth row _ := seat_above hsplit hparents
  obtain ⟨hd', hs'⟩ := hs.seats.addChild hg hs.draft hl hrow hfree hbelow hy
  have hcaptions := hs.captions.addChild hg hs.draft hs.seats hl hbelow hrow hfree hy
  rw [seatedTo_concat] at hs' hcaptions
  exact ⟨hd', by simp [hs.size], hs', hcaptions⟩

theorem seating_addDepth {depth : Nat} {l : LevelId} (hg : Graph c₀)
    (hs : Seating c₀ c h a levels table key parent caption members
      (seatedTo table key parent depth []))
    (hl : levels[depth]? = some l)
    (hparents : ∀ row < table.rowCount, (parents[row]?).join = table.rowAbove? key parent row)
    (hdepths : ∀ row depth : Nat,
      depths[row]? = some depth ↔ row ∈ table.rowsOfDepth key parent depth)
    (hy : Yields (addDepth table caption a parents depths members (depth + 1, l)) c members' c') :
    Seating c₀ c' h a levels table key parent caption members'
      (seatedTo table key parent (depth + 1) []) := by
  unfold addDepth at hy
  simp only [filter_depths hdepths] at hy
  rw [← seatedTo_all]
  exact foldlM_induction (motive := fun done members c => Seating c₀ c h a levels table key parent
    caption members (seatedTo table key parent depth done)) hy hs
    fun _ _ _ _ _ _ _ hsplit hs hy => hs.turn hg hl hparents hsplit hy

theorem le_foldl_max {xs : List Nat} {x y : Nat} (h : x ∈ xs ∨ x ≤ y) : x ≤ xs.foldl max y := by
  induction xs generalizing y with
  | nil => simpa using h
  | cons z xs ih =>
    refine ih ?_
    rcases h with h | h
    · rcases List.mem_cons.1 h with rfl | h
      · exact .inr (Nat.le_max_right _ _)
      · exact .inl h
    · exact .inr (Nat.le_trans h (Nat.le_max_left _ _))

/-- One level for each depth, numbered from the top. -/
theorem seating_depths {deepest : Nat} {column : String} {pairs : List (Nat × LevelId)}
    {top : LevelId} (hd : Draft c₀ c h a) (htop : (c.hierarchy h).levels = [top])
    (hy : Yields (((List.range deepest).map (· + 1)).mapM fun depth => do
      return (depth, ← addLevel h (depthName depth) (some column))) c pairs c') :
    pairs.map (·.1) = (List.range deepest).map (· + 1) ∧
      Seating c₀ c' h a (pairs.map (·.2)) table key parent caption
        (Array.replicate table.rowCount a) (seatedTo table key parent 0 []) := by
  have hbody (depth : Nat) (c : Cube) (pair : Nat × LevelId) (c' : Cube)
      (hy : Yields (do return (depth, ← addLevel h (depthName depth) (some column))) c pair c') :
      ∃ name source, Yields (addLevel h name source) c pair.2 c' ∧ depth = pair.1 := by
    simp only [yields_bind, yields_pure] at hy
    obtain ⟨l, _, hy, rfl, rfl⟩ := hy
    exact ⟨depthName depth, some column, hy, rfl⟩
  obtain ⟨hd', hlevels, hempty, -, hpairs⟩ := hd.levels Prod.snd _ htop hbody hy
  refine ⟨?_, hd', by simp, ⟨⟨top, hlevels⟩, ?_, ?_⟩, ?_⟩
  · rw [eq_comm, ← List.forall₂_eq_eq_eq, List.forall₂_map_right_iff]
    exact hpairs
  · intro i l hl
    simp [hempty l (List.mem_of_getElem? hl), seatedTo]
  · intro i row _ hrow
    simp [seatedTo] at hrow
  · intro i row _ hrow
    simp [seatedTo] at hrow

/-- The level of a turn is the one below those that are done. -/
theorem level_of_split {pairs done rest : List (Nat × LevelId)} {depth : Nat} {l : LevelId}
    (hpairs : pairs.map (·.1) = (List.range pairs.length).map (· + 1))
    (hsplit : pairs = done ++ (depth, l) :: rest) :
    depth = done.length + 1 ∧ (pairs.map (·.2))[done.length]? = some l := by
  have hlt : done.length < pairs.length := by simp [hsplit]
  have hat := congrArg (·[done.length]?) hpairs
  exact ⟨by simpa [hsplit] using hat, by simp [hsplit]⟩

theorem seating_addDepths {pairs : List (Nat × LevelId)} (hg : Graph c₀)
    (hs : Seating c₀ c h a (pairs.map (·.2)) table key parent caption members
      (seatedTo table key parent 0 []))
    (hpairs : pairs.map (·.1) = (List.range pairs.length).map (· + 1))
    (hparents : ∀ row < table.rowCount, (parents[row]?).join = table.rowAbove? key parent row)
    (hdepths : ∀ row depth : Nat,
      depths[row]? = some depth ↔ row ∈ table.rowsOfDepth key parent depth)
    (hy : Yields (pairs.foldlM (addDepth table caption a parents depths) members) c members' c') :
    Seating c₀ c' h a (pairs.map (·.2)) table key parent caption members'
      (seatedTo table key parent pairs.length []) := by
  refine foldlM_induction (motive := fun done members c => Seating c₀ c h a (pairs.map (·.2)) table
    key parent caption members (seatedTo table key parent done.length [])) hy hs ?_
  rintro done ⟨depth, l⟩ rest members₁ c₁ members₂ c₂ hsplit hs₁ hy
  obtain ⟨rfl, hl⟩ := level_of_split hpairs hsplit
  rw [List.length_append, List.length_singleton]
  exact seating_addDepth hg hs₁ hl hparents hdepths hy

/-- The levels of nested rows take two loops, once the rows have been counted. -/
theorem yields_addNestedLevels {layout : DimensionLayout} {column : String} {rows : KeyRows}
    (hkey : table.requireColumn layout.keyColumn = .ok key)
    (hrows : keyRows table layout.keyColumn key = .ok rows)
    (hy : Yields (addNestedLevels layout column table rows h a) c members c') :
    ∃ (parent caption : Nat) (depths : List Nat) (pairs : List (Nat × LevelId)) (c₁ : Cube),
      table.requireColumn column = .ok parent ∧
      table.requireColumn (layout.levelColumns.headD "") = .ok caption ∧
      depthsOf ((List.range table.rowCount).map (table.rowAbove? key parent)) = .ok depths ∧
      Yields (((List.range (depths.foldl max 0)).map (· + 1)).mapM fun depth => do
        return (depth, ← addLevel h (depthName depth) (some (layout.levelColumns.headD ""))))
        c pairs c₁ ∧
      Yields (pairs.foldlM (addDepth table caption a
        ((List.range table.rowCount).map (table.rowAbove? key parent)).toArray depths.toArray)
        (Array.replicate table.rowCount a)) c₁ members c' := by
  unfold addNestedLevels at hy
  simp only [yields_bind, yields_consult] at hy
  obtain ⟨parent, _, ⟨hparent, rfl⟩, key', _, ⟨hkey', rfl⟩, caption, _, ⟨hcaption, rfl⟩, hy⟩ := hy
  obtain rfl : key = key' := Except.ok.inj (hkey.symm.trans hkey')
  cases hparents : parentRows table rows key parent with
  | error fault => simp [hparents] at hy
  | ok parents =>
    rw [hparents] at hy
    obtain rfl := parentRows_eq_ok hrows hparents
    cases hdepths : depthsOf ((List.range table.rowCount).map (table.rowAbove? key parent)) with
    | error row => simp [hdepths] at hy
    | ok depths =>
      simp only [hdepths, yields_bind] at hy
      obtain ⟨pairs, c₁, hlevels, hmembers⟩ := hy
      exact ⟨parent, caption, depths, pairs, c₁, hparent, hcaption, hdepths, hlevels, hmembers⟩

/-- In the end every row of the table has its seat, on the level of its depth. -/
theorem seating_addNestedLevels {layout : DimensionLayout} {column : String} {rows : KeyRows}
    {top : LevelId} (hg : Graph c₀) (hd : Draft c₀ c h a) (htop : (c.hierarchy h).levels = [top])
    (hkey : table.requireColumn layout.keyColumn = .ok key)
    (hrows : keyRows table layout.keyColumn key = .ok rows)
    (hy : Yields (addNestedLevels layout column table rows h a) c members c') :
    ∃ (parent caption : Nat) (depths : List Nat) (levels : List LevelId),
      table.requireColumn column = .ok parent ∧
      table.requireColumn (layout.levelColumns.headD "") = .ok caption ∧
      depthsOf ((List.range table.rowCount).map (table.rowAbove? key parent)) = .ok depths ∧
      levels.length = depths.foldl max 0 ∧
      Seating c₀ c' h a levels table key parent caption members
        (seatedTo table key parent levels.length []) := by
  obtain ⟨parent, caption, depths, pairs, c₁, hparent, hcaption, hdepths, hlevels, hmembers⟩ :=
    yields_addNestedLevels hkey hrows hy
  obtain ⟨hpairs, hs⟩ := seating_depths hd htop hlevels
  have hlength : pairs.length = depths.foldl max 0 := by
    simpa using congrArg List.length hpairs
  rw [← hlength] at hpairs
  refine ⟨parent, caption, depths, pairs.map (·.2), hparent, hcaption, hdepths,
    by rw [List.length_map, hlength], ?_⟩
  rw [List.length_map]
  refine seating_addDepths hg hs hpairs (fun row hrow => by simp [hrow]) ?_ hmembers
  simpa using (depthsOf_eq_ok rfl hdepths).2

/-- The seat of a row whose depth has been found. -/
theorem seat_of_depth {depths : List Nat} {row depth : Nat} (hrow : depths[row]? = some depth)
    (hmem : row ∈ table.rowsOfDepth key parent depth) :
    ∃ i < depths.foldl max 0, depth = i + 1 ∧
      row ∈ seatedTo table key parent (depths.foldl max 0) [] i := by
  obtain ⟨i, rfl⟩ := Nat.exists_eq_succ_of_ne_zero (depth_pos hmem)
  have hlt : i < depths.foldl max 0 := le_foldl_max (.inl (List.mem_of_getElem? hrow))
  exact ⟨i, hlt, rfl, by rwa [seatedTo, if_pos hlt]⟩

/-- Every row of the table gets a member, which lies below those of the rows above it. -/
theorem placed_addNestedLevels {layout : DimensionLayout} {column : String} {rows : KeyRows}
    {top : LevelId} (hg : Graph c₀) (hd : Draft c₀ c h a) (htop : (c.hierarchy h).levels = [top])
    (hkey : table.requireColumn layout.keyColumn = .ok key)
    (hrows : keyRows table layout.keyColumn key = .ok rows)
    (hy : Yields (addNestedLevels layout column table rows h a) c members c') :
    Draft c₀ c' h a ∧ ∃ parent, table.requireColumn column = .ok parent ∧
      Placed c' h table members fun row depth position =>
        ∃ own, (table.rowsOfDepth key parent depth)[position]? = some own ∧
          ∃ n, table.rowUp? key parent n row = some own := by
  obtain ⟨parent, caption, depths, levels, hparent, -, hfound, hlength, hs⟩ :=
    seating_addNestedLevels hg hd htop hkey hrows hy
  obtain ⟨hcount, hdepths⟩ := depthsOf_eq_ok rfl hfound
  rw [hlength] at hs
  -- Every row has a depth, and with it a seat on the level of that depth.
  have hseat (row : Nat) (b : MemberId) (hb : members[row]? = some b) :
      b = members.getD row a ∧ ∃ i < levels.length,
        row ∈ seatedTo table key parent (depths.foldl max 0) [] i := by
    have hrow : row < depths.length := by
      rw [hcount, ← hs.size]
      exact (Array.getElem?_eq_some_iff.1 hb).1
    have hat := List.getElem?_eq_getElem hrow
    obtain ⟨i, hi, -, hmem⟩ := seat_of_depth hat ((hdepths row _).1 hat)
    exact ⟨by simp [Array.getD_eq_getD_getElem?, hb], i, hlength ▸ hi, hmem⟩
  refine ⟨hs.draft, parent, hparent, hs.size, ?_, ?_⟩
  · intro row b hb
    obtain ⟨rfl, i, hi, hrow⟩ := hseat row b hb
    obtain ⟨hhas, hhierarchy, -⟩ := hs.seats.member_has hs.draft hi hrow
    exact ⟨hhas, hhierarchy⟩
  · intro row b m hb hm hh hdepth
    obtain ⟨rfl, i, hi, hrow⟩ := hseat row b hb
    obtain ⟨j, hj⟩ := Nat.exists_eq_succ_of_ne_zero hdepth
    rw [hs.seats.exists_ancestor_iff hs.draft hi hrow hm hh hj]
    have hlt := (hs.seats.position_iff hs.draft hm hh hj).1
    rw [seatedTo, if_pos (hlength ▸ hlt), hj]

end Rows

end Assembly

end CubeQuery
