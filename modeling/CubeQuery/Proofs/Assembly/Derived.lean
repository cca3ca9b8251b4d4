import CubeQuery.Proofs.Assembly.Build
import CubeQuery.Proofs.Table.Captions

/-!
The members that a regular dimension derives from its table. A row has one member on each level, for
the values up to that level's column, and two rows share it as far as their values are the same. A
level lists its members by the first rows that have them.
-/

namespace CubeQuery

/-- A function that tells the elements of two lists apart tells the lists apart. -/
theorem eq_of_map_eq_map {α β : Type} {f : α → β} {xs ys : List α}
    (hinj : ∀ x ∈ xs, ∀ y ∈ ys, f x = f y → x = y) (h : xs.map f = ys.map f) : xs = ys := by
  induction xs generalizing ys with
  | nil => exact (List.map_eq_nil_iff.1 h.symm).symm
  | cons x xs ih =>
    obtain ⟨y, ys, rfl, hx, hxs⟩ := List.map_eq_cons_iff.1 h.symm
    rw [hinj x List.mem_cons_self y List.mem_cons_self hx.symm,
      ih (fun x hx y hy => hinj x (List.mem_cons_of_mem _ hx) y (List.mem_cons_of_mem _ hy))
        hxs.symm]

namespace Table

variable (t : Table) (columns : List Nat)

/-- Two rows have the same values in the first so many columns. -/
def AgreeTo (depth row row' : Nat) : Prop :=
  ∀ column ∈ columns.take depth, SameOnLevel (t.cell row column) (t.cell row' column)

instance {depth row row' : Nat} : Decidable (t.AgreeTo columns depth row row') :=
  inferInstanceAs (Decidable (∀ column ∈ columns.take depth, _))

/-- The rows in which the values of the first so many columns appear for the first time. -/
def firstRows (depth : Nat) : List Nat :=
  (List.range t.rowCount).filter fun row => ∀ earlier < row, ¬ t.AgreeTo columns depth earlier row

variable {t columns} {depth row row' : Nat}

theorem agreeTo_iff : t.AgreeTo columns depth row row' ↔
    (t.valuePath columns row).take depth = (t.valuePath columns row').take depth := by
  rw [valuePath, valuePath, ← List.map_take, ← List.map_take, List.map_inj_left]
  simp only [levelKey_eq_iff]
  rfl

/-- Each path belongs to the first row that has it. -/
theorem pathsIn_rowCount : t.pathsIn columns t.rowCount depth =
    (t.firstRows columns depth).map fun row => (t.valuePath columns row).take depth := by
  unfold firstRows
  induction t.rowCount with
  | zero => rfl
  | succ rows ih =>
    have hmem : (t.valuePath columns rows).take depth ∈ t.pathsIn columns rows depth ↔
        ¬ ∀ earlier < rows, ¬ t.AgreeTo columns depth earlier rows := by
      simp [pathsIn, agreeTo_iff]
    rw [pathsIn_succ, List.range_succ, List.filter_append, List.map_append, ← ih]
    split
    · next hold =>
      rw [List.filter_singleton, decide_eq_false (hmem.1 hold), cond_false, List.map_nil,
        List.append_nil]
    · next hnew =>
      rw [List.filter_singleton, decide_eq_true (not_not.1 (mt hmem.2 hnew)), cond_true]
      rfl

/-- A city below two regions, a region with another one between its rows, both kinds of blanks. -/
def towns : Table :=
  { name := "Towns", schema := [⟨"Region", .text⟩, ⟨"City", .text⟩], rowCount := 5
    columns := [#[.text "North", .text "South", .text "North", .null, .text "(Blank)"],
      #[.text "Rome", .text "Rome", .text "Rome", .text "(Blank)", .null]] }

example : towns.firstRows [0, 1] 2 = [0, 1, 3] := by decide

end Table

namespace Assembly

open CubeQuery.Cube

/-- What the rows of a table have on the levels of a hierarchy: `memberOf row depth` stands for the
values of a row in the first so many columns. -/
structure Derived (c : Cube) (h : HierarchyId) (table : Table) (columns : List Nat)
    (memberOf : (row depth : Nat) → MemberId) : Prop where
  levels : (c.hierarchy h).levels.length = columns.length + 1
  has : ∀ row < table.rowCount, ∀ depth ≤ columns.length, c.Has (.member (memberOf row depth)) ∧
    (c.member (memberOf row depth)).hierarchy = h ∧ c.depth (memberOf row depth) = depth
  all : ∀ row < table.rowCount, memberOf row 0 = (c.hierarchy h).allMember
  parent : ∀ row < table.rowCount, ∀ depth < columns.length,
    (c.member (memberOf row (depth + 1))).parent? = some (memberOf row depth)
  caption : ∀ row < table.rowCount, ∀ depth column, columns[depth]? = some column →
    (c.member (memberOf row (depth + 1))).caption = captionOf (table.cell row column)
  same : ∀ row < table.rowCount, ∀ row' < table.rowCount, ∀ depth ≤ columns.length,
    memberOf row depth = memberOf row' depth ↔ table.AgreeTo columns depth row row'
  /-- A level below the top lists its members by their positions, first rows first. -/
  members : ∀ depth l, (c.hierarchy h).levels[depth + 1]? = some l →
    (c.level l).ordinal = depth + 1 ∧
    (c.level l).members.toList =
      (table.firstRows columns (depth + 1)).map (memberOf · (depth + 1)) ∧
    ∀ (i : Nat) m, (c.level l).members[i]? = some m → (c.member m).position = i

section Members

variable {c₀ c : Cube} {h : HierarchyId} {a : MemberId} {table : Table} {found : ChildIndex}
  {levels : List LevelId} {columns : List Nat} {path : MemberId → List Key}
  {members : Array MemberId} {row depth : Nat}

/-- The member on the way up from that of a row. -/
def memberAt (c : Cube) (members : Array MemberId) (last row depth : Nat) : MemberId :=
  ((members[row]?).bind (c.ancestor? (last - depth))).getD ⟨0⟩

/-! When all rows have been filed, each of them has a member on the last level. -/

section Filed

variable (hd : Draft c₀ c h a)
  (hf : Filed c h a levels found path (table.pathsIn columns table.rowCount))
  (hmembers : members.size = table.rowCount ∧ ∀ row m, members[row]? = some m →
    c.Has (.member m) ∧ (c.member m).hierarchy = h ∧ path m = table.valuePath columns row)

include hd hf hmembers

/-- The members on the way up from that of a row stand for the parts of its path. -/
theorem memberAt_spec (hrow : row < table.rowCount) (hdepth : depth ≤ columns.length) :
    ∃ m, members[row]? = some m ∧
      c.ancestor? (columns.length - depth) m = some (memberAt c members columns.length row depth) ∧
      c.Has (.member (memberAt c members columns.length row depth)) ∧
      (c.member (memberAt c members columns.length row depth)).hierarchy = h ∧
      c.depth (memberAt c members columns.length row depth) = depth ∧
      path (memberAt c members columns.length row depth) =
        (table.valuePath columns row).take depth := by
  obtain ⟨hsize, hmembers⟩ := hmembers
  have hm : members[row]? = some members[row] := Array.getElem?_eq_getElem (hsize ▸ hrow)
  obtain ⟨hhas, hhierarchy, hpath⟩ := hmembers row _ hm
  have hbottom := hf.length_path hd hhas hhierarchy
  rw [hpath, Table.length_valuePath] at hbottom
  obtain ⟨b, hb⟩ := hd.graph.exists_ancestor? hhas (n := columns.length - depth) (by omega)
  obtain ⟨hhasb, hsame, hsum⟩ := hd.graph.ancestor? hhas hb
  have hup := hf.path_ancestor hd hhas hhierarchy hb
  have hat : memberAt c members columns.length row depth = b := by
    rw [memberAt, hm, Option.bind_some, hb, Option.getD_some]
  have hdepthb : c.depth b = depth := by omega
  rw [hat]
  exact ⟨_, hm, hb, hhasb, hsame.trans hhierarchy, hdepthb, by rw [hup, hpath, hdepthb]⟩

theorem parent?_memberAt (hrow : row < table.rowCount) (hdepth : depth < columns.length) :
    (c.member (memberAt c members columns.length row (depth + 1))).parent? =
      some (memberAt c members columns.length row depth) := by
  obtain ⟨m, hm, hup, -⟩ := memberAt_spec hd hf hmembers hrow (Nat.succ_le_of_lt hdepth)
  obtain ⟨m', hm', hup', -⟩ := memberAt_spec hd hf hmembers hrow (Nat.le_of_lt hdepth)
  obtain rfl : m = m' := Option.some.inj (hm.symm.trans hm')
  rwa [show columns.length - depth = columns.length - (depth + 1) + 1 by omega, ancestor?_succ,
    hup, Option.bind_some] at hup'

/-- A member shows the value of its row, though it may have been added for another row. -/
theorem caption_memberAt {column : Nat} (hs : Shown c h table columns found)
    (hrow : row < table.rowCount) (hcolumn : columns[depth]? = some column) :
    (c.member (memberAt c members columns.length row (depth + 1))).caption =
      captionOf (table.cell row column) := by
  obtain ⟨hlt, hcolumn'⟩ := List.getElem?_eq_some_iff.1 hcolumn
  obtain ⟨-, -, -, hhas, hhierarchy, -, hpath⟩ :=
    memberAt_spec hd hf hmembers hrow (Nat.succ_le_of_lt hlt)
  obtain ⟨-, -, -, -, -, hat, hpath'⟩ := memberAt_spec hd hf hmembers hrow (Nat.le_of_lt hlt)
  obtain ⟨row', column', hshows, hcaption, hfound⟩ :=
    hs _ _ hhas hhierarchy (parent?_memberAt hd hf hmembers hrow hlt)
  rw [hat, hcolumn] at hshows
  obtain rfl := Option.some.inj hshows
  -- The value that the member was added for is the same on this level.
  have hlast := (hf.sound _ _ _ hfound).2.2.2
  rw [hpath, hpath', Table.take_valuePath_succ hlt, hcolumn', List.append_cancel_left_eq,
    List.singleton_inj, levelKey_eq_iff] at hlast
  rw [hcaption, hlast.captionOf_eq]

/-- A level lists the members of the first rows, since they stand for the paths that it knows. -/
theorem members_eq_firstRows {l : LevelId} (hl : levels[depth]? = some l)
    (hdepth : depth + 1 ≤ columns.length) :
    (c.level l).members.toList =
      (table.firstRows columns (depth + 1)).map
        (memberAt c members columns.length · (depth + 1)) := by
  obtain ⟨hlevel, hhierarchy, -⟩ := hf.level_has hd hl
  have hspec {row : Nat} (hrow : row ∈ table.firstRows columns (depth + 1)) :=
    memberAt_spec hd hf hmembers (List.mem_range.1 (List.mem_filter.1 hrow).1) hdepth
  refine eq_of_map_eq_map (f := path) (fun m hm m' hm' => ?_) ?_
  · obtain ⟨hhas, hsame, -⟩ := hd.graph.depth_eq hlevel (Array.mem_toList_iff.1 hm)
    obtain ⟨row, hrow, rfl⟩ := List.mem_map.1 hm'
    obtain ⟨-, -, -, hhas', hhierarchy', -⟩ := hspec hrow
    exact hf.path_inj hd hhas (hsame.trans hhierarchy) hhas' hhierarchy'
  · rw [hf.members depth l hl, Table.pathsIn_rowCount, List.map_map]
    refine List.map_congr_left fun row hrow => ?_
    obtain ⟨-, -, -, -, -, -, hpath⟩ := hspec hrow
    exact hpath.symm

theorem derived_of_filed (hs : Shown c h table columns found)
    (hlevels : levels.length = columns.length) :
    Derived c h table columns (memberAt c members columns.length) := by
  obtain ⟨top, htop⟩ := hf.below
  exact {
    levels := by rw [htop, List.length_cons, hlevels]
    has := fun row hrow depth hdepth => by
      obtain ⟨-, -, -, hhas, hhierarchy, hat, -⟩ := memberAt_spec hd hf hmembers hrow hdepth
      exact ⟨hhas, hhierarchy, hat⟩
    all := fun row hrow => by
      obtain ⟨-, -, -, hhas, hhierarchy, hat, -⟩ :=
        memberAt_spec hd hf hmembers hrow (Nat.zero_le _)
      rw [hd.graph.eq_allMember hhas hat, hhierarchy]
    parent := fun row hrow depth hdepth => parent?_memberAt hd hf hmembers hrow hdepth
    caption := fun row hrow depth column => caption_memberAt hd hf hmembers hs hrow
    same := fun row hrow row' hrow' depth hdepth => by
      obtain ⟨-, -, -, hhas, hhierarchy, -, hpath⟩ := memberAt_spec hd hf hmembers hrow hdepth
      obtain ⟨-, -, -, hhas', hhierarchy', -, hpath'⟩ := memberAt_spec hd hf hmembers hrow' hdepth
      rw [Table.agreeTo_iff, ← hpath, ← hpath']
      exact ⟨congrArg path, hf.path_inj hd hhas hhierarchy hhas' hhierarchy'⟩
    members := fun depth l hl => by
      rw [htop, List.getElem?_cons_succ] at hl
      obtain ⟨hlevel, -, hordinal⟩ := hf.level_has hd hl
      have hdepth : depth + 1 ≤ columns.length := hlevels ▸ (List.getElem?_eq_some_iff.1 hl).1
      exact ⟨hordinal, members_eq_firstRows hd hf hmembers hl hdepth,
        fun i m hm => ((hd.graph.members_at l hlevel m i).1 hm).2.2⟩ }

end Filed

end Members

/-- The levels of a regular dimension, and the members that its rows are mapped to. -/
theorem derived_addRegularLevels {c₀ c c' : Cube} {h : HierarchyId} {a : MemberId} {table : Table}
    {layout : DimensionLayout} {members : Array MemberId} {top : LevelId} (hg : Graph c₀)
    (hd : Draft c₀ c h a) (htop : (c.hierarchy h).levels = [top])
    (hy : Yields (addRegularLevels layout table h a) c members c') :
    Draft c₀ c' h a ∧ ∃ columns memberOf,
      List.Forall₂ (fun name column => table.requireColumn name = .ok column)
        layout.levelColumns columns ∧
      Derived c' h table columns memberOf ∧
      members = ((List.range table.rowCount).map (memberOf · columns.length)).toArray := by
  obtain ⟨levels, c₁, hlevels, hy⟩ := yields_bind.1 hy
  obtain ⟨hd₁, hf₁, hcolumns⟩ := filed_levels hd htop hlevels
  obtain ⟨hd', found, path, hf', hs', hsize, hmembers⟩ := filed_membersOfRows hg hd₁ hf₁ hy
  refine ⟨hd', levels.map (·.2), _, by simpa using hcolumns,
    derived_of_filed hd' hf' ⟨hsize, hmembers⟩ hs' (by simp), ?_⟩
  apply Array.ext
  · simp [hsize]
  · intro row hrow _
    obtain ⟨m, hm, hup, -⟩ :=
      memberAt_spec hd' hf' ⟨hsize, hmembers⟩ (hsize ▸ hrow) (Nat.le_refl _)
    rw [Nat.sub_self] at hup
    rw [Array.getElem?_eq_getElem hrow] at hm
    simpa using (Option.some.inj hm).trans (Option.some.inj hup)

/-! ### The whole cube -/

/-- Each row of the table is mapped to its member on the last level, and each fact row goes where
the row that it refers to is mapped. -/
structure Mapped (c : Cube) (h : HierarchyId) (d : DimensionLayout) (table : Table)
    (columns : List Nat) (memberOf : (row depth : Nat) → MemberId) : Prop where
  rows : ∃ c₁ c₂, Yields (addRegularLevels d table h (c.hierarchy h).allMember) c₁
    ((List.range table.rowCount).map (memberOf · columns.length)).toArray c₂ ∧ Grows c₂ c
  facts : ∃ key foreignKey, table.requireColumn d.keyColumn = .ok key ∧
    c.factTable.requireColumn d.foreignKey = .ok foreignKey ∧
    ∀ m, c.Has (.member m) → (c.member m).hierarchy = h → ∀ r, r ∈ c.rowsAt m ↔
      r < c.factTable.rowCount ∧ ∃ row < table.rowCount,
        Key.ofValue (table.cell row key) = Key.ofValue (c.factTable.cell r foreignKey) ∧
        memberOf row columns.length = m

/-- The levels of `h` are derived from the table of a dimension. -/
def DerivedFrom (catalog : Catalog) (d : DimensionLayout) (c : Cube) (h : HierarchyId) : Prop :=
  ∃ table columns memberOf, catalog.find? d.table = some table ∧
    List.Forall₂ (fun name column => table.requireColumn name = .ok column) d.levelColumns columns ∧
    Derived c h table columns memberOf ∧ Mapped c h d table columns memberOf

section Build

variable {c c' : Cube} {h : HierarchyId} {table : Table} {columns : List Nat}
  {memberOf : (row depth : Nat) → MemberId} {d : DimensionLayout} {catalog : Catalog}

theorem Derived.keeps (hk : Keeps c c') (hc : Graph c) (hh : c.Has (.hierarchy h))
    (hb : Derived c h table columns memberOf) : Derived c' h table columns memberOf := by
  have hold {row depth : Nat} (hrow : row < table.rowCount) (hdepth : depth ≤ columns.length) :
      c.Has (.member (memberOf row depth)) := (hb.has row hrow depth hdepth).1
  constructor
  · rw [hk.hierarchy h hh]
    exact hb.levels
  · intro row hrow depth hdepth
    rw [hk.member _ (hold hrow hdepth), hk.depth hc (hold hrow hdepth)]
    obtain ⟨hhas, hrest⟩ := hb.has row hrow depth hdepth
    exact ⟨hk.has _ hhas, hrest⟩
  · rw [hk.hierarchy h hh]
    exact hb.all
  · intro row hrow depth hdepth
    rw [hk.member _ (hold hrow hdepth)]
    exact hb.parent row hrow depth hdepth
  · intro row hrow depth column hcolumn
    rw [hk.member _ (hold hrow (List.getElem?_eq_some_iff.1 hcolumn).1)]
    exact hb.caption row hrow depth column hcolumn
  · exact hb.same
  · intro depth l hl
    rw [hk.hierarchy h hh] at hl
    have hlevel := ((hc.levels_at h hh l _).1 hl).1
    obtain ⟨hordinal, hmembers, hposition⟩ := hb.members depth l hl
    rw [hk.level l hlevel]
    refine ⟨hordinal, hmembers, fun i m hm => ?_⟩
    rw [hk.member m (hc.depth_eq hlevel (Array.mem_of_getElem? hm)).1]
    exact hposition i m hm

theorem Mapped.keeps (hk : Keeps c c') (hgrows : Grows c c') (hc : Graph c)
    (hh : c.Has (.hierarchy h)) (hm : Mapped c h d table columns memberOf) :
    Mapped c' h d table columns memberOf := by
  constructor
  · obtain ⟨c₁, c₂, hy, hgrows₂⟩ := hm.rows
    rw [← hk.hierarchy h hh] at hy
    exact ⟨c₁, c₂, hy, hgrows₂.trans hgrows⟩
  · obtain ⟨key, foreignKey, hkey, hforeign, hfacts⟩ := hm.facts
    rw [← hk.factTable] at hforeign hfacts
    refine ⟨key, foreignKey, hkey, hforeign, fun m hhas hsame r => ?_⟩
    have hold := hk.member_has hc (hc.grows hgrows) hhas (hsame ▸ hh)
    rw [hk.member m hold] at hsame
    rw [hk.rowsAt m hold]
    exact hfacts m hold hsame r

theorem derived_addDimension {u : Unit} (hc : Graph c) (hcontent : Content c)
    (hregular : d.parentColumn? = none) (hy : Yields (addDimension catalog d) c u c') :
    DerivedFrom catalog d c' ⟨c.hierarchies.size⟩ := by
  obtain ⟨table, key, rows, a, top, c₁, htable, hkey, hrows, hd, htop, -, hy⟩ :=
    draft_addDimension hc hy
  simp only [hregular, yields_bind] at hy
  obtain ⟨members, c₂, hlevels, hfacts⟩ := hy
  obtain ⟨hd₂, -, _, -, hp⟩ := placed_addRegularLevels hc hd htop hlevels
  obtain ⟨-, columns, memberOf, hcolumns, hderived, rfl⟩ :=
    derived_addRegularLevels hc hd htop hlevels
  obtain ⟨foreignKey, hforeign, hat⟩ :=
    attached_attachFacts (hcontent.grows hc hd₂.grows).factRows_size hp hfacts
  refine ⟨table, columns, memberOf, htable, hcolumns, ?_, ⟨c₁, c₂, ?_, hat.grows⟩,
    key, foreignKey, hkey, ?_, ?_⟩
  · obtain ⟨factRows, rfl⟩ := hat.same
    exact ⟨hderived.1, hderived.2, hderived.3, hderived.4, hderived.5, hderived.6, hderived.7⟩
  · rw [hat.hierarchy, hd₂.allMember]
    exact hlevels
  · rw [hat.factTable]
    exact hforeign
  · intro m _ hsame r
    rw [hat.member] at hsame
    rw [mem_rowsAt_attached hc hcontent hd₂ hrows hat hsame, hat.factTable]
    refine and_congr_right fun _ => exists_congr fun row => and_congr_right fun hrow =>
      and_congr_right fun _ => ?_
    simp [hrow]

end Build

/-- Every regular dimension of a cube that is built has, on each level, one member for each run of
values that its table holds up to the level, in the order in which the runs first appear. -/
theorem regular_levels_derived {layout : CubeLayout} {catalog : Catalog} {c : Cube} {i : Nat}
    {d : DimensionLayout} (hbuild : Cube.build layout catalog = .ok c)
    (hd : layout.dimensions[i]? = some d) (hregular : d.parentColumn? = none) :
    DerivedFrom catalog d c ⟨i⟩ := by
  have heach := each_dimension_of_build (i := i) (d := d)
    (P := fun d c h => d.parentColumn? = none → DerivedFrom catalog d c h) ?_ ?_ hbuild hd
  · exact heach hregular
  · intro d c c' h hk hgrows hc hh hold hnone
    obtain ⟨table, columns, memberOf, htable, hcolumns, hderived, hmapped⟩ := hold hnone
    exact ⟨table, columns, memberOf, htable, hcolumns, hderived.keeps hk hc hh,
      hmapped.keeps hk hgrows hc hh⟩
  · intro d c c' hc hcontent hy hnone
    exact derived_addDimension hc hcontent hnone hy

/-- The second of two dimensions over one table. -/
theorem regular_levels_derived_games :
    Cube.build Games.layout Games.catalog = .ok Games.cube ∧
      Games.layout.dimensions[1]? = some (Games.side "Away") ∧
      (Games.side "Away").parentColumn? = none ∧
      DerivedFrom Games.catalog (Games.side "Away") Games.cube ⟨1⟩ :=
  ⟨Games.build_eq_cube, rfl, rfl, regular_levels_derived Games.build_eq_cube rfl rfl⟩

end Assembly

end CubeQuery
