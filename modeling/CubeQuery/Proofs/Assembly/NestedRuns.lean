import CubeQuery.Proofs.Assembly.Levels
import CubeQuery.Proofs.Assembly.Nested

/-!
When the levels of a dimension with nested rows can be added. The children of a member belong to the
rows below its row, so that a new member fails exactly if an earlier row with the same row above has
its caption.
-/

namespace CubeQuery

namespace Table

variable (t : Table) (key parent caption : Nat)

/-- What a member is among nested rows: the row above it and its caption. -/
def place (row : Nat) : Option Nat × String :=
  (t.rowAbove? key parent row, captionOf (t.cell row caption))

end Table

namespace Assembly

open CubeQuery.Cube

/-! ### Children and rows -/

section Seats

variable {c₀ c c' : Cube} {h : HierarchyId} {a m p : MemberId} {levels : List LevelId}
  {l : LevelId} {above : Nat → Option Nat} {members : Array MemberId} {seated : Nat → List Nat}
  {i row : Nat} {captionAt : Nat → String}

namespace Seated

theorem row_unique (hd : Draft c₀ c h a) (hs : Seated c h a levels above members seated)
    {r r' : Nat} (hi : i < levels.length) (hr : r ∈ seated i) (hr' : r' ∈ seated i)
    (heq : members.getD r a = members.getD r' a) : r = r' := by
  have hl := List.getElem?_eq_getElem hi
  obtain ⟨hlevel, -, -⟩ := hs.level_has hd hl
  obtain ⟨x, hx⟩ := List.mem_iff_getElem?.1 hr
  obtain ⟨x', hx'⟩ := List.mem_iff_getElem?.1 hr'
  have hposition {y s : Nat} (hy : (seated i)[y]? = some s) :
      (c.member (members.getD s a)).position = y := by
    refine ((hd.graph.members_at _ hlevel _ y).1 ?_).2.2
    rw [← Array.getElem?_toList, hs.placed i _ hl, List.getElem?_map, hy]
    rfl
  have hsame : x = x' := by rw [← hposition hx, ← hposition hx', heq]
  rw [hsame, hx'] at hx
  exact (Option.some.inj hx).symm

/-- The children of a member are those of the rows below its row. -/
theorem child_iff (hd : Draft c₀ c h a) (hs : Seated c h a levels above members seated)
    (hi : i < levels.length) (hp : SeatedBelow a above members seated i row p) :
    c.Has (.member m) ∧ (c.member m).parent? = some p ↔
      ∃ r ∈ seated i, above r = above row ∧ m = members.getD r a := by
  obtain ⟨hhas, hhierarchy, hdepth⟩ := hs.below_has hd hi hp
  constructor
  · rintro ⟨hm, hparent⟩
    obtain ⟨-, hsame, hbelow⟩ := hd.graph.parent m p hm hparent
    obtain ⟨-, hposition⟩ :=
      hs.position_iff hd hm (hsame.symm.trans hhierarchy) (hbelow.trans (by rw [hdepth]))
    obtain ⟨r, hr, rfl⟩ := Option.map_eq_some_iff.1 hposition
    have hr := List.mem_of_getElem? hr
    refine ⟨r, hr, ?_, rfl⟩
    rcases hs.parent i r hi hr with ⟨rfl, hnone, -⟩ | ⟨j, s, rfl, hsome, hsj, hup⟩
    -- Both rows have no row above, or both have the row whose member is the parent.
    · rcases hp with ⟨-, habove, -⟩ | ⟨_, _, hzero, -⟩
      · exact hnone.trans habove.symm
      · cases hzero
    · rcases hp with ⟨hzero, -⟩ | ⟨k, s', hk, habove, hsk, rfl⟩
      · cases hzero
      · obtain rfl := Nat.succ.inj hk
        have hseat := Option.some.inj (hup.symm.trans hparent)
        obtain rfl := hs.row_unique hd (by omega) hsj hsk hseat
        exact hsome.trans habove.symm
  · rintro ⟨r, hr, habove, rfl⟩
    refine ⟨(hs.member_has hd hi hr).1, ?_⟩
    rcases hs.parent i r hi hr with ⟨rfl, hnone, hup⟩ | ⟨j, s, rfl, hsome, -, hup⟩
    · rcases hp with ⟨-, -, rfl⟩ | ⟨_, _, hzero, -⟩
      · exact hup
      · cases hzero
    · rw [SeatedBelow, ← habove, hsome] at hp
      rcases hp with ⟨hzero, -⟩ | ⟨k, s', hk, hsame, -, rfl⟩
      · cases hzero
      · obtain rfl := Option.some.inj hsame
        exact hup

end Seated

/-- One more row fails if a row that has a seat already has its place. -/
theorem Seated.runs_addChild (hc : Coherent c) (hd : Draft c₀ c h a)
    (hs : Seated c h a levels above members seated)
    (hcaptions : Captioned c a levels captionAt members seated) (hl : levels[i]? = some l)
    (hp : SeatedBelow a above members seated i row p) :
    Runs (Assembly.addChild (captionAt row) l p) c ↔
      ∀ r ∈ seated i, (above r, captionAt r) ≠ (above row, captionAt row) := by
  obtain ⟨hlevel, hhierarchy, hordinal⟩ := hs.level_has hd hl
  have hi := (List.getElem?_eq_some_iff.1 hl).1
  obtain ⟨hhas, hsame, hdepth⟩ := hs.below_has hd hi hp
  rw [Assembly.runs_addChild, hc.free_child_iff hlevel hhas (hhierarchy.trans hsame.symm)
    (hordinal.trans (by rw [hdepth]))]
  constructor
  · intro hfree r hr heq
    obtain ⟨habove, hcaption⟩ := Prod.mk.inj heq
    obtain ⟨hm, hparent⟩ := (hs.child_iff hd hi hp).2 ⟨r, hr, habove, rfl⟩
    exact hfree _ hm hparent ((hcaptions i r hi hr).trans hcaption)
  · intro hother m hm hparent hcaption
    obtain ⟨r, hr, habove, rfl⟩ := (hs.child_iff hd hi hp).1 ⟨hm, hparent⟩
    exact hother r hr (by rw [habove, ← hcaptions i r hi hr, hcaption])

end Seats

/-! ### All rows -/

section Rows

variable {c₀ c c' : Cube} {h : HierarchyId} {a : MemberId} {levels : List LevelId} {l : LevelId}
  {table : Table} {key parent caption : Nat} {parents : Array (Option Nat)} {depths : Array Nat}
  {members : Array MemberId} {depth : Nat}

/-- The rows of one depth fail if two of them have one place. -/
theorem runs_addDepth (hc : Coherent c₀)
    (hs : Seating c₀ c h a levels table key parent caption members
      (seatedTo table key parent depth []))
    (hl : levels[depth]? = some l)
    (hparents : ∀ row < table.rowCount, (parents[row]?).join = table.rowAbove? key parent row)
    (hdepths : ∀ row depth : Nat,
      depths[row]? = some depth ↔ row ∈ table.rowsOfDepth key parent depth) :
    (Runs (addDepth table caption a parents depths members (depth + 1, l)) c ↔
      ((table.rowsOfDepth key parent (depth + 1)).map (table.place key parent caption)).Nodup) ∧
    ∀ members' c', Yields (addDepth table caption a parents depths members (depth + 1, l)) c
        members' c' →
      Seating c₀ c' h a levels table key parent caption members'
        (seatedTo table key parent (depth + 1) []) := by
  unfold addDepth
  simp only [filter_depths hdepths]
  rw [← seatedTo_all, List.Nodup, List.pairwise_map, ← forall_split_iff_pairwise]
  refine runs_foldlM (motive := fun done members c => Seating c₀ c h a levels table key parent
    caption members (seatedTo table key parent depth done)) hs ?_
  intro done row rest members c hsplit hs
  have hbelow : SeatedBelow a (table.rowAbove? key parent) members
      (seatedTo table key parent depth done) depth row _ := seat_above hsplit hparents
  have hhere : seatedTo table key parent depth done depth = done := by simp [seatedTo]
  constructor
  · have hchild := hs.seats.runs_addChild (hc.grows hs.draft.grows) hs.draft hs.captions hl hbelow
    rw [runs_bind_pure, hchild, hhere]
    rfl
  · exact fun members' c' hy => hs.turn hc.graph hl hparents hsplit hy

theorem runs_addDepths {pairs : List (Nat × LevelId)} (hc : Coherent c₀)
    (hs : Seating c₀ c h a (pairs.map (·.2)) table key parent caption members
      (seatedTo table key parent 0 []))
    (hpairs : pairs.map (·.1) = (List.range pairs.length).map (· + 1))
    (hparents : ∀ row < table.rowCount, (parents[row]?).join = table.rowAbove? key parent row)
    (hdepths : ∀ row depth : Nat,
      depths[row]? = some depth ↔ row ∈ table.rowsOfDepth key parent depth) :
    Runs (pairs.foldlM (addDepth table caption a parents depths) members) c ↔
      ∀ depth < pairs.length, ((table.rowsOfDepth key parent (depth + 1)).map
        (table.place key parent caption)).Nodup := by
  have hloop := (runs_foldlM (l := pairs) (s := members) (c := c)
    (f := addDepth table caption a parents depths)
    (P := fun _ pair =>
      ((table.rowsOfDepth key parent pair.1).map (table.place key parent caption)).Nodup)
    (motive := fun done members c => Seating c₀ c h a (pairs.map (·.2)) table key parent caption
      members (seatedTo table key parent done.length [])) hs (by
        rintro done ⟨depth, l⟩ rest members c hsplit hs
        obtain ⟨rfl, hl⟩ := level_of_split hpairs hsplit
        rw [List.length_append, List.length_singleton]
        exact runs_addDepth hc hs hl hparents hdepths)).1
  rw [hloop, forall_split_iff_mem]
  have hmap := List.forall_mem_map (l := pairs) (f := Prod.fst) (P := fun depth =>
    ((table.rowsOfDepth key parent depth).map (table.place key parent caption)).Nodup)
  rw [← hmap, hpairs, List.forall_mem_map]
  simp only [List.mem_range]

/-- Rows with the same row above stand at the same depth. -/
theorem mem_rowsOfDepth_of_above {row row' : Nat}
    (habove : table.rowAbove? key parent row = table.rowAbove? key parent row')
    (hrow' : row' < table.rowCount) (hrow : row ∈ table.rowsOfDepth key parent depth) :
    row' ∈ table.rowsOfDepth key parent depth := by
  obtain ⟨k, rfl⟩ := Nat.exists_eq_succ_of_ne_zero (depth_pos hrow)
  have hup (n : Nat) :
      table.rowUp? key parent (n + 1) row = table.rowUp? key parent (n + 1) row' := by
    rw [Table.rowUp?_succ, Table.rowUp?_succ, habove]
  simp only [Table.rowsOfDepth, List.mem_filter, List.mem_range, Nat.succ_eq_add_one,
    Nat.add_sub_cancel, hup] at hrow ⊢
  refine ⟨hrow', ?_⟩
  cases k with
  | zero => simpa [Table.rowUp?] using hrow.2
  | succ k => simpa [hup] using hrow.2

/-- Rows that have one place stand at one depth, so that places may be compared depth by depth. -/
theorem nodup_places_iff {deepest : Nat}
    (hall : ∀ row < table.rowCount, ∃ depth < deepest,
      row ∈ table.rowsOfDepth key parent (depth + 1)) :
    (∀ depth < deepest, ((table.rowsOfDepth key parent (depth + 1)).map
        (table.place key parent caption)).Nodup) ↔
      ((List.range table.rowCount).map (table.place key parent caption)).Nodup := by
  rw [List.nodup_map_iff_inj_on List.nodup_range]
  simp only [List.nodup_map_iff_inj_on nodup_rowsOfDepth, List.mem_range]
  constructor
  · intro h row hrow row' hrow' hplace
    obtain ⟨depth, hdepth, hmem⟩ := hall row hrow
    exact h depth hdepth row hmem row'
      (mem_rowsOfDepth_of_above (Prod.mk.inj hplace).1 hrow' hmem) hplace
  · intro h depth _ row hrow row' hrow' hplace
    have hlt {r : Nat} (hr : r ∈ table.rowsOfDepth key parent (depth + 1)) :
        r < table.rowCount := by
      simpa using List.mem_of_mem_filter hr
    exact h row (hlt hrow) row' (hlt hrow') hplace

theorem exists_mem_rowsOfDepth {depths : List Nat} {row : Nat} (hrow : row < depths.length)
    (hdepths : ∀ row depth : Nat,
      depths[row]? = some depth ↔ row ∈ table.rowsOfDepth key parent depth) :
    ∃ depth < depths.foldl max 0, row ∈ table.rowsOfDepth key parent (depth + 1) := by
  have hmem := (hdepths row depths[row]).1 (List.getElem?_eq_getElem hrow)
  obtain ⟨depth, hdepth⟩ := Nat.exists_eq_succ_of_ne_zero (depth_pos hmem)
  have hle : depths[row] ≤ depths.foldl max 0 := le_foldl_max (.inl (List.getElem_mem hrow))
  rw [hdepth] at hmem hle
  exact ⟨depth, hle, hmem⟩

theorem mem_depths_iff {depths : List Nat} (hdepths : ∀ row depth : Nat,
      depths[row]? = some depth ↔ row ∈ table.rowsOfDepth key parent depth) :
    depth ∈ depths ↔ table.rowsOfDepth key parent depth ≠ [] := by
  rw [Ne, List.eq_nil_iff_forall_not_mem, not_forall_not, List.mem_iff_getElem?]
  exact exists_congr fun row => hdepths row depth

/-- There are rows of every depth down to the greatest one. -/
theorem mem_depths_iff_le {depths : List Nat} (hdepths : ∀ row depth : Nat,
      depths[row]? = some depth ↔ row ∈ table.rowsOfDepth key parent depth) :
    depth ∈ depths ↔ 0 < depth ∧ depth ≤ depths.foldl max 0 := by
  constructor
  · intro hin
    obtain ⟨row, hrow⟩ := List.mem_iff_getElem?.1 hin
    exact ⟨Nat.pos_of_ne_zero (depth_pos ((hdepths row depth).1 hrow)), le_foldl_max (.inl hin)⟩
  · rintro ⟨hpos, hle⟩
    have hgreatest : depths.foldl max 0 ∈ depths := by
      rcases foldl_max_mem depths 0 with hzero | hin
      · omega
      · exact hin
    -- From the greatest depth upwards.
    obtain ⟨k, hk⟩ := Nat.exists_eq_add_of_le hle
    rw [hk] at hgreatest
    clear hk hle
    induction k with
    | zero => exact hgreatest
    | succ k ih =>
      obtain ⟨row, hrow⟩ := List.mem_iff_getElem?.1 hgreatest
      have hmem := (hdepths row (depth + k + 1)).1 hrow
      rcases mem_rowsOfDepth_succ hmem with ⟨hzero, -⟩ | ⟨above, -, habove⟩
      · omega
      · exact ih (List.mem_of_getElem? ((hdepths above _).2 habove))

theorem isGreatest_deepest {depths : List Nat} (hrows : 0 < table.rowCount)
    (hlength : depths.length = table.rowCount)
    (hdepths : ∀ row depth : Nat,
      depths[row]? = some depth ↔ row ∈ table.rowsOfDepth key parent depth) :
    IsGreatest {depth | table.rowsOfDepth key parent depth ≠ []} (depths.foldl max 0) := by
  have hrange (depth : Nat) : table.rowsOfDepth key parent depth ≠ [] ↔
      0 < depth ∧ depth ≤ depths.foldl max 0 := by
    rw [← mem_depths_iff hdepths, mem_depths_iff_le hdepths]
  have hfirst := List.getElem_mem (hlength.symm ▸ hrows : 0 < depths.length)
  have hpos := (mem_depths_iff_le hdepths).1 hfirst
  constructor
  · exact (hrange _).2 ⟨by omega, Nat.le_refl _⟩
  · exact fun depth hdepth => ((hrange depth).1 hdepth).2

end Rows

end Assembly

/-- What a table must satisfy for its rows to be nested below an All member. -/
structure Table.Nests (t : Table) (key parent caption : Nat) (allCaption : String) : Prop where
  parents : t.ParentsKnown key parent
  acyclic : t.Acyclic key parent
  places : ((List.range t.rowCount).map (t.place key parent caption)).Nodup
  names : ∃ deepest, IsGreatest {depth | t.rowsOfDepth key parent depth ≠ []} deepest ∧
    ("(All)" :: allCaption :: (List.range deepest).map fun i => depthName (i + 1)).Nodup

namespace Assembly

open CubeQuery.Cube

section Levels

variable {c₀ c : Cube} {h : HierarchyId} {a : MemberId} {table : Table} {key : Nat}
  {rows : KeyRows} {layout : DimensionLayout} {column allCaption : String} {top : LevelId}

/-- One level for each depth. -/
theorem runs_depthLevels (deepest : Nat) (column : String) (hcaption : "(All)" ≠ allCaption)
    (hn : Titles c₀ c h a allCaption []) :
    Runs (((List.range deepest).map (· + 1)).mapM fun depth => do
        return (depth, ← addLevel h (depthName depth) (some column))) c ↔
      ("(All)" :: allCaption :: (List.range deepest).map fun i => depthName (i + 1)).Nodup := by
  have hbody (depth : Nat) (c : Cube) : ∃ column?,
      (Runs (do return (depth, ← addLevel h (depthName depth) (some column))) c ↔
        True ∧ Runs (addLevel h (depthName depth) column?) c) ∧
      ∀ pair c', Yields (do return (depth, ← addLevel h (depthName depth) (some column))) c pair
        c' → ∃ l, Yields (addLevel h (depthName depth) column?) c l c' := by
    refine ⟨some column, by rw [runs_bind_pure, true_and], fun pair c' hy => ?_⟩
    simp only [yields_bind, yields_pure] at hy
    obtain ⟨l, _, hy, rfl, rfl⟩ := hy
    exact ⟨l, hy⟩
  rw [hn.runs_levels _ depthName (fun _ => True) hcaption hbody, List.map_map]
  exact and_iff_right fun _ _ => trivial

/-- The members of all rows, once their levels are there. -/
theorem runs_nestedMembers {parent caption : Nat} {parents : List (Option Nat)} {depths : List Nat}
    {pairs : List (Nat × LevelId)} {c₁ : Cube} (hc : Coherent c₀)
    (hn : Titles c₀ c h a allCaption []) (htop : (c.hierarchy h).levels = [top])
    (hparents : parents = (List.range table.rowCount).map (table.rowAbove? key parent))
    (hdepths : depthsOf parents = .ok depths)
    (hy : Yields (((List.range (depths.foldl max 0)).map (· + 1)).mapM fun depth => do
      return (depth, ← addLevel h (depthName depth) (some column))) c pairs c₁) :
    Runs (pairs.foldlM (addDepth table caption a parents.toArray depths.toArray)
        (Array.replicate table.rowCount a)) c₁ ↔
      ((List.range table.rowCount).map (table.place key parent caption)).Nodup := by
  obtain ⟨hlength, hat⟩ := depthsOf_eq_ok hparents hdepths
  obtain ⟨hpairs, hs₁⟩ : _ ∧ Seating c₀ c₁ h a _ table key parent caption _ _ :=
    seating_depths hn.draft htop hy
  have hcount : pairs.length = depths.foldl max 0 := by
    simpa using congrArg List.length hpairs
  rw [← hcount] at hpairs
  have hall (row : Nat) (hrow : row < table.rowCount) :
      ∃ depth < pairs.length, row ∈ table.rowsOfDepth key parent (depth + 1) :=
    hcount ▸ exists_mem_rowsOfDepth (hlength ▸ hrow) hat
  have habove (row : Nat) (hrow : row < table.rowCount) :
      (parents.toArray[row]?).join = table.rowAbove? key parent row := by
    simp [hparents, hrow]
  rw [← nodup_places_iff hall]
  exact runs_addDepths hc hs₁ hpairs habove (by simpa using hat)

/-- The levels of nested rows fail over their columns, their nesting and their names only. -/
theorem runs_addNestedLevels (hc : Coherent c₀) (hrowCount : 0 < table.rowCount)
    (hkey : table.requireColumn layout.keyColumn = .ok key)
    (hrows : keyRows table layout.keyColumn key = .ok rows) (hcaption : "(All)" ≠ allCaption)
    (hn : Titles c₀ c h a allCaption []) (htop : (c.hierarchy h).levels = [top]) :
    Runs (addNestedLevels layout column table rows h a) c ↔
      ∃ parent caption, table.requireColumn column = .ok parent ∧
        table.requireColumn (layout.levelColumns.headD "") = .ok caption ∧
        table.Nests key parent caption allCaption := by
  simp only [addNestedLevels, runs_consult_bind, hkey, Except.ok.injEq, exists_eq_left',
    exists_and_left]
  refine exists_congr fun parent => and_congr_right fun _ =>
    exists_congr fun caption => and_congr_right fun _ => ?_
  have hparents : (∃ parents, parentRows table rows key parent = .ok parents) ↔
      table.ParentsKnown key parent := exists_parentRows_iff hrows
  -- First the parents are looked up, then the depths are counted, then names are taken.
  cases hfound : parentRows table rows key parent with
  | error fault =>
    rw [hfound] at hparents
    refine iff_of_false runs_fail fun hnests => ?_
    obtain ⟨_, heq⟩ := hparents.2 hnests.parents
    cases heq
  | ok parents =>
    rw [hfound] at hparents
    have hmap := parentRows_eq_ok hrows hfound
    have hacyclic := exists_depthsOf_iff hmap
    dsimp only
    cases hdepths : depthsOf parents with
    | error row =>
      rw [hdepths] at hacyclic
      refine iff_of_false runs_fail fun hnests => ?_
      obtain ⟨_, heq⟩ := hacyclic.2 hnests.acyclic
      cases heq
    | ok depths =>
      rw [hdepths] at hacyclic
      obtain ⟨hlength, hat⟩ := depthsOf_eq_ok hmap hdepths
      have hdeepest := isGreatest_deepest hrowCount hlength hat
      have hlevels := runs_depthLevels (depths.foldl max 0) (layout.levelColumns.headD "")
        hcaption hn
      dsimp only
      rw [runs_bind_iff hlevels fun pairs c₁ hy => runs_nestedMembers hc hn htop hmap hdepths hy]
      constructor
      · rintro ⟨hnames, hplaces⟩
        exact ⟨hparents.1 ⟨_, rfl⟩, hacyclic.1 ⟨_, rfl⟩, hplaces, _, hdeepest, hnames⟩
      · rintro ⟨-, -, hplaces, deepest, hgreatest, hnames⟩
        rw [hgreatest.unique hdeepest] at hnames
        exact ⟨hnames, hplaces⟩

end Levels

end Assembly

end CubeQuery
