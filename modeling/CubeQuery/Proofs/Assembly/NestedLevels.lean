import CubeQuery.Proofs.Assembly.NestedRuns
import Mathlib.Data.Set.Card

/-!
The levels that nested rows yield. If the way up from some row never ends, the builder names a row
that lies above itself. Otherwise it counts the rows on the way up from every row, there is a level
for every count up to the greatest one, and every row has a member on the level of its count, below
that of the row above.
-/

namespace CubeQuery

open CubeQuery.Language

namespace Table

variable (t : Table) (key parent : Nat)

/-- The rows on the way up from a row, itself included. -/
def wayUp (row : Nat) : Set Nat :=
  {above | ∃ steps, t.rowUp? key parent steps row = some above}

/-- The way up from a row never ends. -/
def Endless (row : Nat) : Prop :=
  ∀ steps, (t.rowUp? key parent steps row).isSome

variable {t key parent} {row depth : Nat}

/-- On a way up that ends, no row comes twice. -/
theorem rowUp?_injOn (hend : t.rowUp? key parent depth row = none)
    (hway : ∀ steps < depth, (t.rowUp? key parent steps row).isSome) :
    Set.InjOn (t.rowUp? key parent · row) (Finset.range depth) := by
  suffices ∀ m n, m < n → n < depth →
      t.rowUp? key parent m row ≠ t.rowUp? key parent n row by
    intro m hm n hn heq
    simp only [Finset.coe_range, Set.mem_Iio] at hm hn
    rcases Nat.lt_trichotomy m n with hlt | hsame | hlt
    · exact absurd heq (this m n hlt hn)
    · exact hsame
    · exact absurd heq.symm (this n m hlt hm)
  intro m n hlt hn heq
  obtain ⟨r, hr⟩ := Option.isSome_iff_exists.1 (hway n hn)
  obtain ⟨k, rfl⟩ := Nat.exists_eq_add_of_lt hlt
  -- The row leads back to itself, so that the way would have no end.
  have hcycle : t.rowUp? key parent (k + 1) r = some r := by
    rw [Nat.add_assoc, rowUp?_add] at heq hr
    rwa [heq.trans hr, Option.bind_some] at hr
  have hsome := rowUp?_of_cycle hcycle (depth - m)
  have hnone : t.rowUp? key parent (m + (depth - m)) row = none := by
    rwa [Nat.add_sub_cancel' (by omega)]
  rw [rowUp?_add, heq.trans hr, Option.bind_some] at hnone
  simp [hnone] at hsome

/-- The depth of a row is the number of rows on its way up. -/
theorem ncard_wayUp (hrow : row ∈ t.rowsOfDepth key parent depth) :
    (t.wayUp key parent row).Finite ∧ (t.wayUp key parent row).ncard = depth := by
  obtain ⟨hlast, hend⟩ := Bool.and_eq_true_iff.1 (List.mem_filter.1 hrow).2
  rw [Option.isNone_iff_eq_none] at hend
  have hway (steps : Nat) (hlt : steps < depth) : (t.rowUp? key parent steps row).isSome := by
    by_contra hnone
    rw [Option.not_isSome_iff_eq_none] at hnone
    simp [rowUp?_eq_none hnone (Nat.le_sub_one_of_lt hlt)] at hlast
  have himage : some '' t.wayUp key parent row =
      (t.rowUp? key parent · row) '' (Finset.range depth : Set Nat) := by
    ext above?
    constructor
    · rintro ⟨above, ⟨steps, hup⟩, rfl⟩
      refine ⟨steps, ?_, hup⟩
      by_contra hlt
      simp only [Finset.coe_range, Set.mem_Iio, Nat.not_lt] at hlt
      rw [rowUp?_eq_none hend hlt] at hup
      cases hup
    · rintro ⟨steps, hlt, rfl⟩
      obtain ⟨above, hup⟩ := Option.isSome_iff_exists.1 (hway steps (by simpa using hlt))
      exact ⟨above, ⟨steps, hup⟩, hup.symm⟩
  have hinj := Set.injOn_of_injective (s := t.wayUp key parent row) (Option.some_injective Nat)
  constructor
  · refine Set.Finite.of_finite_image ?_ hinj
    rw [himage]
    exact (Finset.finite_toSet _).image _
  · rw [← hinj.ncard_image, himage, (rowUp?_injOn hend hway).ncard_image, Set.ncard_coe_finset,
      Finset.card_range]

/-- The ways up end if no row lies above itself. -/
theorem acyclic_iff : t.Acyclic key parent ↔ ∀ row < t.rowCount, ¬ t.Endless key parent row := by
  constructor
  · intro hacyclic row hrow hendless
    obtain ⟨depths, hdepths⟩ := (exists_depthsOf_iff rfl).2 hacyclic
    obtain ⟨hlength, hat⟩ := depthsOf_eq_ok rfl hdepths
    have hmem := (hat row _).1 (List.getElem?_eq_getElem (hlength ▸ hrow))
    obtain ⟨-, hend⟩ := Bool.and_eq_true_iff.1 (List.mem_filter.1 hmem).2
    have := hendless depths[row]
    simp_all
  · intro hends row hrow steps hcycle
    exact hends row hrow (rowUp?_of_cycle hcycle)

end Table

namespace Assembly

open CubeQuery.Cube

/-! ### What a step fails over -/

section Failures

variable {α β σ : Type} {c : Cube} {e : Error}

/-- The step fails on the cube `c`. -/
def Fails (x : Assembly α) (c : Cube) (e : Error) : Prop :=
  x.run c = .error e

/-- The step fails over a name that has been taken, or not at all. -/
def FailsByName (x : Assembly α) : Prop :=
  ∀ c e, Fails x c e → ∃ name, e = .schema (.duplicateMember name)

theorem fails_bind {x : Assembly α} {f : α → Assembly β} :
    Fails (x >>= f) c e ↔ Fails x c e ∨ ∃ a c₁, Yields x c a c₁ ∧ Fails (f a) c₁ e := by
  show (x.run c >>= fun p => (f p.1).run p.2) = _ ↔ _
  unfold Fails Yields
  cases x.run c with
  | error e' => simp [bind, Except.bind]
  | ok p =>
    obtain ⟨a, c₁⟩ := p
    simp only [bind, Except.bind, reduceCtorEq, false_or, Except.ok.injEq, Prod.mk.injEq]
    constructor
    · intro h
      exact ⟨a, c₁, ⟨rfl, rfl⟩, h⟩
    · rintro ⟨_, _, ⟨rfl, rfl⟩, h⟩
      exact h

theorem fails_fail {fault : SchemaFault} :
    Fails (fail fault : Assembly α) c e ↔ e = .schema fault := by
  show Except.error _ = Except.error e ↔ _
  rw [Except.error.injEq, eq_comm]

theorem fails_consult_bind {x : Except TableFault α} {a : α} {f : α → Assembly β}
    (hx : x = .ok a) : Fails (consult x >>= f) c e ↔ Fails (f a) c e := by
  subst hx
  rfl

namespace FailsByName

theorem pure {a : α} : FailsByName (pure a) := fun _ _ hf => nomatch hf

theorem get : FailsByName get := fun _ _ hf => nomatch hf

theorem modify {f : Cube → Cube} : FailsByName (modify f) := fun _ _ hf => nomatch hf

theorem bind {x : Assembly α} {f : α → Assembly β} (hx : FailsByName x)
    (hf : ∀ a, FailsByName (f a)) : FailsByName (x >>= f) := by
  intro c e h
  rcases fails_bind.1 h with h | ⟨a, c₁, -, h⟩
  · exact hx c e h
  · exact hf a c₁ e h

theorem foldlM {f : σ → β → Assembly σ} (hf : ∀ s x, FailsByName (f s x)) (xs : List β) (s : σ) :
    FailsByName (xs.foldlM f s) := by
  induction xs generalizing s with
  | nil => exact pure
  | cons x xs ih =>
    rw [List.foldlM_cons]
    exact bind (hf s x) ih

theorem mapM {f : β → Assembly α} (hf : ∀ x, FailsByName (f x)) (xs : List β) :
    FailsByName (xs.mapM f) := by
  induction xs with
  | nil => exact pure
  | cons x xs ih =>
    rw [List.mapM_cons]
    exact bind (hf x) fun _ => bind ih fun _ => pure

theorem register {uniqueName : String} {entity : Entity} :
    FailsByName (register uniqueName entity) := by
  intro c e h
  unfold Assembly.register at h
  rcases fails_bind.1 h with h | ⟨_, _, -, h⟩
  · exact get c e h
  · split at h
    · exact ⟨uniqueName, fails_fail.1 h⟩
    · cases h

theorem addLevel {h : HierarchyId} {name : String} {sourceColumn? : Option String} :
    FailsByName (addLevel h name sourceColumn?) :=
  bind get fun _ => bind register fun _ => bind modify fun _ => pure

theorem addChild {caption : String} {l : LevelId} {p : MemberId} :
    FailsByName (addChild caption l p) :=
  bind get fun _ => bind get fun _ => bind register fun _ => bind modify fun _ => pure

end FailsByName

end Failures

/-! ### The levels -/

section Levels

variable {c₀ c c' : Cube} {h : HierarchyId} {a : MemberId} {table : Table}
  {key parent caption : Nat} {layout : DimensionLayout} {column : String} {rows : KeyRows}
  {parents : List (Option Nat)}

/-- Once the rows above are known, only a way up without end and names can be at fault. -/
theorem fails_addNestedLevels (hparent : table.requireColumn column = .ok parent)
    (hkey : table.requireColumn layout.keyColumn = .ok key)
    (hcaption : table.requireColumn (layout.levelColumns.headD "") = .ok caption)
    (hparents : parentRows table rows key parent = .ok parents) :
    match depthsOf parents with
    | .error row => ∀ c e, Fails (addNestedLevels layout column table rows h a) c e ↔
        e = .schema (.parentCycle table.name (table.cell row key).display)
    | .ok _ => FailsByName (addNestedLevels layout column table rows h a) := by
  have hrest (c : Cube) (e : Error) :=
    ((fails_consult_bind hparent).trans ((fails_consult_bind hkey).trans
      (fails_consult_bind hcaption)) :
        Fails (addNestedLevels layout column table rows h a) c e ↔ _)
  simp only [hparents] at hrest
  cases hdepths : depthsOf parents with
  | error row =>
    simp only [hdepths, fails_fail] at hrest
    exact hrest
  | ok depths =>
    simp only [hdepths] at hrest
    intro c e hf
    refine FailsByName.bind (.mapM (fun depth => .bind .addLevel fun _ => .pure) _)
      (fun levels => ?_) c e ((hrest c e).1 hf)
    exact .foldlM (fun members pair => .foldlM (fun members row =>
      .bind .addChild fun _ => .pure) _ _) _ _

theorem preserves_levelNames_addChild {text : String} {l : LevelId} {p : MemberId} :
    Preserves (·.levelNames h) (addChild text l p) := by
  intro c m c' hy
  obtain ⟨-, -, rfl⟩ := yields_addChild.1 hy
  refine List.map_congr_left fun i _ => ?_
  simp only [level, withMember, Array.getD_eq_getD_getElem?, Array.getElem?_modify]
  split
  · cases c.levels[i.index]? <;> rfl
  · rfl

theorem preserves_levelNames_addDepth {parents : Array (Option Nat)} {depths : Array Nat}
    (members : Array MemberId) (pair : Nat × LevelId) :
    Preserves (·.levelNames h) (addDepth table caption a parents depths members pair) :=
  .foldlM (fun _ _ => .bind preserves_levelNames_addChild fun _ => .pure) _ _

/-- The levels are named by their depths. -/
theorem levelNames_addNestedLevels {members : Array MemberId} (hd : Draft c₀ c h a)
    (hkey : table.requireColumn layout.keyColumn = .ok key)
    (hrows : keyRows table layout.keyColumn key = .ok rows)
    (hy : Yields (addNestedLevels layout column table rows h a) c members c') :
    ∃ deepest, c'.levelNames h =
      c.levelNames h ++ (List.range deepest).map fun i => depthName (i + 1) := by
  obtain ⟨parent, caption, depths, pairs, c₁, -, -, -, hlevels, hmembers⟩ :=
    yields_addNestedLevels hkey hrows hy
  refine ⟨depths.foldl max 0, ?_⟩
  have hsame : c'.levelNames h = c₁.levelNames h := by
    exact Preserves.foldlM preserves_levelNames_addDepth _ _ c₁ members c' hmembers
  rw [hsame]
  have hloop : Draft c₀ c₁ h a ∧ c₁.levelNames h = c.levelNames h ++
      ((List.range (depths.foldl max 0)).map (· + 1)).map depthName := by
    refine mapM_induction (motive := fun done _ c' => Draft c₀ c' h a ∧
      c'.levelNames h = c.levelNames h ++ done.map depthName) hlevels ⟨hd, by simp⟩ ?_
    rintro done depth rest pairs c₁ pair c₂ - ⟨hd₁, hnames⟩ hy
    simp only [yields_bind, yields_pure] at hy
    obtain ⟨l, _, hy, rfl, rfl⟩ := hy
    refine ⟨(hd₁.level hy).1, ?_⟩
    obtain ⟨-, -, rfl⟩ := yields_addLevel.1 hy
    rw [levelNames_withLevel hd₁.graph hd₁.has, hnames]
    simp
  rw [List.map_map] at hloop
  exact hloop.2

/-- The rows have been laid out by their depths: each has a member below that of the row above, and
each depth has a level with the members of its rows in the order of the table. -/
structure ByDepth (c : Cube) (a : MemberId) (table : Table) (key parent caption : Nat)
    (depths : List Nat) (levels : List LevelId) (members : Array MemberId) : Prop where
  greatest : ∀ depth, depth ∈ depths ↔ 0 < depth ∧ depth ≤ levels.length
  level : ∀ i l, levels[i]? = some l →
    (c.level l).ordinal = i + 1 ∧ (c.level l).name = depthName (i + 1) ∧
      (c.level l).members ≠ #[] ∧ (c.level l).members.toList =
        ((List.range table.rowCount).filter fun row => depths[row]? == some (i + 1)).map
          (members.getD · a)
  member : ∀ row depth, depths[row]? = some depth → ∃ m, members[row]? = some m ∧
    levels[depth - 1]? = some (c.member m).level ∧
      (c.member m).parent? =
        some ((table.rowAbove? key parent row).elim a (members.getD · a)) ∧
      (c.member m).caption = captionOf (table.cell row caption)

/-- The member of a row that has its seat. -/
theorem Seating.member_at {members : Array MemberId} {levels : List LevelId}
    {seated : Nat → List Nat} {i row : Nat}
    (hs : Seating c₀ c h a levels table key parent caption members seated)
    (hi : i < levels.length) (hrow : row < table.rowCount) (hseat : row ∈ seated i) :
    ∃ m, members[row]? = some m ∧ levels[i]? = some (c.member m).level ∧
      (c.member m).parent? =
        some ((table.rowAbove? key parent row).elim a (members.getD · a)) ∧
      (c.member m).caption = captionOf (table.cell row caption) := by
  have hl := List.getElem?_eq_getElem hi
  have hin : members.getD row a ∈ (c.level levels[i]).members := by
    rw [← Array.mem_toList_iff, hs.seats.placed i _ hl]
    exact List.mem_map_of_mem hseat
  obtain ⟨x, hx⟩ := Array.mem_iff_getElem?.1 hin
  have hlevel := ((hs.draft.graph.members_at _ (hs.seats.level_has hs.draft hl).1 _ x).1 hx).2.1
  refine ⟨members.getD row a, ?_, by rw [hlevel]; exact hl, ?_, hs.captions i row hi hseat⟩
  · simp [Array.getD_eq_getD_getElem?, hs.size ▸ hrow]
  · rcases hs.seats.parent i row hi hseat with ⟨-, habove, hup⟩ | ⟨_, above, -, habove, -, hup⟩
    · rw [hup, habove]
      rfl
    · rw [hup, habove]
      rfl

theorem byDepth_addNestedLevels {members : Array MemberId} {top : LevelId} {depths : List Nat}
    (hg : Graph c₀) (hd : Draft c₀ c h a) (htop : (c.hierarchy h).levels = [top])
    (hparent : table.requireColumn column = .ok parent)
    (hkey : table.requireColumn layout.keyColumn = .ok key)
    (hcaption : table.requireColumn (layout.levelColumns.headD "") = .ok caption)
    (hrows : keyRows table layout.keyColumn key = .ok rows)
    (hfound : depthsOf ((List.range table.rowCount).map (table.rowAbove? key parent)) = .ok depths)
    (hy : Yields (addNestedLevels layout column table rows h a) c members c') :
    ∃ top levels, (c'.hierarchy h).levels = top :: levels ∧ (c'.level top).members = #[a] ∧
      ByDepth c' a table key parent caption depths levels members := by
  obtain ⟨parent', caption', depths', levels, hparent', hcaption', hfound', hlength, hs⟩ :=
    seating_addNestedLevels hg hd htop hkey hrows hy
  obtain rfl : parent = parent' := Except.ok.inj (hparent.symm.trans hparent')
  obtain rfl : caption = caption' := Except.ok.inj (hcaption.symm.trans hcaption')
  obtain rfl : depths = depths' := Except.ok.inj (hfound.symm.trans hfound')
  obtain ⟨hcount, hdepths⟩ := depthsOf_eq_ok rfl hfound
  obtain ⟨deepest, hnames⟩ := levelNames_addNestedLevels hd hkey hrows hy
  obtain ⟨top', htop'⟩ := hs.seats.below
  have htitles : levels.map (fun l => (c'.level l).name) =
      (List.range deepest).map fun i => depthName (i + 1) := by
    rw [levelNames, levelNames, htop', htop] at hnames
    exact (List.cons.inj hnames).2
  obtain ⟨root, hroot, hall⟩ := hs.draft.graph.top_level h hs.draft.has
  rw [htop', List.getElem?_cons_zero, Option.some.injEq] at hroot
  subst hroot
  refine ⟨top', levels, htop', hs.draft.allMember ▸ hall, ?_, ?_, ?_⟩
  · intro depth
    rw [mem_depths_iff_le hdepths, hlength]
  · intro i l hl
    have hi := (List.getElem?_eq_some_iff.1 hl).1
    have hrowsAt : (c'.level l).members.toList =
        (table.rowsOfDepth key parent (i + 1)).map (members.getD · a) := by
      rw [hs.seats.placed i l hl, seatedTo, if_pos hi]
    refine ⟨(hs.seats.level_has hs.draft hl).2.2, ?_, ?_, ?_⟩
    · have hat := congrArg (·[i]?) htitles
      have hdeepest : levels.length = deepest := by simpa using congrArg List.length htitles
      simpa [hl, hdeepest ▸ hi] using hat
    -- No depth is left out, so no level is empty.
    · intro hempty
      obtain ⟨row, hrow⟩ := List.mem_iff_getElem?.1
        ((mem_depths_iff_le hdepths).2 ⟨i.succ_pos, hlength ▸ hi⟩)
      have := (hdepths row _).1 hrow
      rw [hempty] at hrowsAt
      simp [List.map_eq_nil_iff.1 hrowsAt.symm] at this
    · have hat : ∀ row depth : Nat, depths.toArray[row]? = some depth ↔
          row ∈ table.rowsOfDepth key parent depth := by simpa using hdepths
      rw [hrowsAt, ← filter_depths hat]
      simp
  · intro row depth hrow
    obtain ⟨i, hi, rfl, hseat⟩ := seat_of_depth hrow ((hdepths row _).1 hrow)
    rw [← hlength] at hi hseat
    have hrowCount : row < table.rowCount := hcount ▸ (List.getElem?_eq_some_iff.1 hrow).1
    exact hs.member_at hi hrowCount hseat

/-- Nested rows over keys that differ and parents that are keys. The levels fail over a way up
without end exactly if there is one, and name a row on a cycle then. Otherwise the depth of a row is
the number of rows on its way up, the rows are laid out by their depths, and only a name that has
been taken can still be at fault. -/
theorem nested_rows_by_depth (hparent : table.requireColumn column = .ok parent)
    (hkey : table.requireColumn layout.keyColumn = .ok key)
    (hcaption : table.requireColumn (layout.levelColumns.headD "") = .ok caption)
    (hkeys : (table.keys key).Nodup) (hknown : table.ParentsKnown key parent) :
    ∃ rows, keyRows table layout.keyColumn key = .ok rows ∧
      (∀ h a c, ((∃ text, Fails (addNestedLevels layout column table rows h a) c
          (.schema (.parentCycle table.name text))) ↔
            ∃ row < table.rowCount, table.Endless key parent row) ∧
        ∀ name text, Fails (addNestedLevels layout column table rows h a) c
            (.schema (.parentCycle name text)) →
          name = table.name ∧
            ∃ row, table.OnCycle key parent row ∧ text = (table.cell row key).display) ∧
      ((∀ row < table.rowCount, ¬ table.Endless key parent row) →
        (∀ h a, FailsByName (addNestedLevels layout column table rows h a)) ∧
        ∃ parents depths, parentRows table rows key parent = .ok parents ∧
          depthsOf parents = .ok depths ∧ depths.length = table.rowCount ∧
          (∀ row depth : Nat, depths[row]? = some depth →
            (table.wayUp key parent row).Finite ∧ (table.wayUp key parent row).ncard = depth) ∧
          ∀ dimension kind text c₀ c₁ c₂ c c' h l a members, Graph c₀ →
            Yields (addHierarchy dimension kind) c₀ h c₁ →
            Yields (addLevel h "(All)" none) c₁ l c₂ → Yields (addAllMember h l text) c₂ a c →
            Yields (addNestedLevels layout column table rows h a) c members c' →
            ∃ top levels, (c'.hierarchy h).levels = top :: levels ∧
              (c'.level top).members = #[a] ∧
              ByDepth c' a table key parent caption depths levels members) := by
  obtain ⟨rows, hrows⟩ := exists_keyRows_iff.2 hkeys
  obtain ⟨parents, hparents⟩ := (exists_parentRows_iff hrows).2 hknown
  have hmap := parentRows_eq_ok hrows hparents
  have hfails (h : HierarchyId) (a : MemberId) :=
    fails_addNestedLevels (h := h) (a := a) hparent hkey hcaption hparents
  refine ⟨rows, hrows, fun h a c => ?_, fun hends => ?_⟩
  -- Whether the levels fail over a cycle is whether the depths do.
  · have hfails := hfails h a
    cases hdepths : depthsOf parents with
    | error row =>
      rw [hdepths] at hfails
      have hcycle := depthsOf_eq_error hmap hdepths
      refine ⟨iff_of_true ⟨_, (hfails c _).2 rfl⟩ ?_, fun name text hf => ?_⟩
      · obtain ⟨hrow, steps, hback⟩ := hcycle
        exact ⟨row, hrow, Table.rowUp?_of_cycle hback⟩
      · injection (hfails c _).1 hf with hf
        injection hf with hname htext
        exact ⟨hname, row, hcycle, htext⟩
    | ok depths =>
      rw [hdepths] at hfails
      have hnever (name text : String) : ¬ Fails (addNestedLevels layout column table rows h a) c
          (.schema (.parentCycle name text)) := by
        intro hf
        obtain ⟨_, heq⟩ := hfails c _ hf
        cases heq
      refine ⟨iff_of_false (fun ⟨text, hf⟩ => hnever _ text hf) ?_,
        fun name text hf => absurd hf (hnever name text)⟩
      rintro ⟨row, hrow, hendless⟩
      exact Table.acyclic_iff.1 ((exists_depthsOf_iff hmap).1 ⟨depths, hdepths⟩) row hrow hendless
  · obtain ⟨depths, hdepths⟩ := (exists_depthsOf_iff hmap).2 (Table.acyclic_iff.2 hends)
    simp only [hdepths] at hfails
    obtain ⟨hlength, hat⟩ := depthsOf_eq_ok hmap hdepths
    refine ⟨hfails, parents, depths, hparents, hdepths, hlength, fun row depth hrow =>
      Table.ncard_wayUp ((hat row depth).1 hrow), ?_⟩
    intro dimension kind text c₀ c₁ c₂ c c' h l a members hg h₁ h₂ h₃ hy
    obtain ⟨hd, htop, -⟩ := Draft.root hg h₁ h₂ h₃
    subst hmap
    exact byDepth_addNestedLevels hg hd htop hparent hkey hcaption hrows hdepths hy

end Levels

/-! ### Three people -/

namespace Staff

/-- Cleo reports to Brian, Brian to Ada, and Ada to `above`. -/
def people (above : Value) : Table :=
  { name := "Staff", schema := [⟨"Id", .text⟩, ⟨"Above", .text⟩, ⟨"Name", .text⟩], rowCount := 3
    columns := [#[.text "c", .text "a", .text "b"], #[.text "b", above, .text "a"],
      #[.text "Cleo", .text "Ada", .text "Brian"]] }

def layout : DimensionLayout :=
  { DimensionLayout.create "Staff" "Staff" "Id" "Person" ["Name"] with
    parentColumn? := some "Above" }

def start : Cube := Cube.empty "Staff" (people .null)

theorem column_above (above : Value) : (people above).requireColumn "Above" = .ok 1 := rfl

theorem column_key (above : Value) : (people above).requireColumn layout.keyColumn = .ok 0 := rfl

theorem column_caption (above : Value) :
    (people above).requireColumn (layout.levelColumns.headD "") = .ok 2 := rfl

theorem ends {row : Nat} (hrow : row < 3) : (people .null).rowUp? 0 1 3 row = none := by
  revert row
  decide

theorem not_endless : ∀ row < 3, ¬ (people .null).Endless 0 1 row := by
  intro row hrow hendless
  have := hendless 3
  simp [ends hrow] at this

theorem nests : (people .null).Nests 0 1 2 "All Staff" where
  parents := by
    unfold Table.ParentsKnown
    decide
  acyclic := Table.acyclic_iff.2 not_endless
  places := by decide
  names := by
    refine ⟨3, ⟨by decide, fun depth hdepth => ?_⟩, by decide⟩
    obtain ⟨row, hrow⟩ := List.exists_mem_of_ne_nil _ hdepth
    obtain ⟨hrange, hrow⟩ := List.mem_filter.1 hrow
    by_contra hlt
    have hnone := Table.rowUp?_eq_none (ends (List.mem_range.1 hrange))
      (show 3 ≤ depth - 1 by omega)
    simp [hnone] at hrow

/-- The levels can be added to a cube that has nothing but the root of the dimension. -/
theorem exists_yields {rows : KeyRows} (hrows : keyRows (people .null) "Id" 0 = .ok rows) :
    ∃ c₁ c₂ c c' h l a members, Yields (addHierarchy layout .parentChild) start h c₁ ∧
      Yields (addLevel h "(All)" none) c₁ l c₂ ∧ Yields (addAllMember h l "All Staff") c₂ a c ∧
      Yields (addNestedLevels layout "Above" (people .null) rows h a) c members c' := by
  have hc : Coherent start := .empty _ _
  have hfree (rest : List String) :
      start.names[bracketedPath (layout.name :: rest)]? = none := by
    simp [start, Cube.empty]
  have hroot : Runs (do
      let h ← addHierarchy layout .parentChild
      let l ← addLevel h "(All)" none
      let a ← addAllMember h l "All Staff"
      addNestedLevels layout "Above" (people .null) rows h a) start := by
    refine (runs_root (Q := True) hfree fun h l a c₁ c₂ c₃ h₁ h₂ h₃ => ?_).2 ⟨by decide, trivial⟩
    obtain ⟨-, htop, -⟩ := Draft.root hc.graph h₁ h₂ h₃
    rw [iff_true, runs_addNestedLevels hc (by decide) (column_key _) hrows (by decide)
      (Titles.root hc h₁ h₂ h₃) htop]
    exact ⟨1, 2, rfl, rfl, nests⟩
  simp only [runs_bind] at hroot
  obtain ⟨h, c₁, h₁, l, c₂, h₂, a, c, h₃, members, c', hy⟩ := hroot
  exact ⟨c₁, c₂, c, c', h, l, a, members, h₁, h₂, h₃, hy⟩

end Staff

/-- The first table is laid out on three levels. In the second one Ada reports to Brian. -/
theorem nested_rows_by_depth_staff :
    (∃ rows c members c' h a top levels,
      Yields (addNestedLevels Staff.layout "Above" (Staff.people .null) rows h a) c members c' ∧
        (c'.hierarchy h).levels = top :: levels ∧
        ByDepth c' a (Staff.people .null) 0 1 2 [3, 1, 2] levels members) ∧
    ∃ rows, ∀ h a c, ∃ row, (Staff.people (.text "b")).OnCycle 0 1 row ∧
      Fails (addNestedLevels Staff.layout "Above" (Staff.people (.text "b")) rows h a) c
        (.schema (.parentCycle "Staff" ((Staff.people (.text "b")).cell row 0).display)) := by
  constructor
  · obtain ⟨rows, hrows, -, hends⟩ := nested_rows_by_depth (Staff.column_above .null)
      (Staff.column_key _) (Staff.column_caption _) (by decide) Staff.nests.parents
    obtain ⟨-, parents, depths, hparents, hdepths, hlength, -, hlayout⟩ := hends Staff.not_endless
    obtain ⟨c₁, c₂, c, c', h, l, a, members, h₁, h₂, h₃, hy⟩ := Staff.exists_yields hrows
    obtain ⟨top, levels, hlevels, -, hby⟩ :=
      hlayout _ _ _ _ _ _ _ _ _ _ _ _ (Graph.empty _ _) h₁ h₂ h₃ hy
    have hat := (depthsOf_eq_ok (parentRows_eq_ok hrows hparents) hdepths).2
    obtain rfl : depths = [3, 1, 2] := by
      have hcleo := (hat 0 3).2 (by decide)
      have hada := (hat 1 1).2 (by decide)
      have hbrian := (hat 2 2).2 (by decide)
      obtain ⟨x, y, z, rfl⟩ := List.length_eq_three.1 hlength
      simp_all
    exact ⟨rows, c, members, c', h, a, top, levels, hy, hlevels, hby⟩
  · have hknown : (Staff.people (.text "b")).ParentsKnown 0 1 := by
      unfold Table.ParentsKnown
      decide
    have hback : (Staff.people (.text "b")).rowUp? 0 1 (1 + 1) 1 = some 1 := by decide
    obtain ⟨rows, hrows, hfails, -⟩ := nested_rows_by_depth (Staff.column_above (.text "b"))
      (Staff.column_key _) (Staff.column_caption _) (by decide) hknown
    refine ⟨rows, fun h a c => ?_⟩
    obtain ⟨hiff, hname⟩ := hfails h a c
    obtain ⟨text, hf⟩ := hiff.2 ⟨1, by decide, Table.rowUp?_of_cycle hback⟩
    obtain ⟨-, row, hcycle, rfl⟩ := hname _ _ hf
    exact ⟨row, hcycle, hf⟩

end Assembly

end CubeQuery
