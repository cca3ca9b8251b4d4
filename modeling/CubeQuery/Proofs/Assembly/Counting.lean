import CubeQuery.Proofs.Assembly.Nesting

/-!
How the builder counts the rows on the way up from each row. It walks up until it comes to a row
that has been counted or to the end, and counts the way back down. What has been written down is
right all along, so that it does not matter where a walk ends; and a walk that meets one of its own
rows has found a row that lies above itself.
-/

namespace CubeQuery

section Depths

variable {table : Table} {key parent : Nat}

theorem depth_unique {row depth depth' : Nat} (h : row ∈ table.rowsOfDepth key parent depth)
    (h' : row ∈ table.rowsOfDepth key parent depth') : depth = depth' := by
  have hle {d d' : Nat} (hd : row ∈ table.rowsOfDepth key parent d)
      (hd' : row ∈ table.rowsOfDepth key parent d') : d ≤ d' := by
    simp only [Table.rowsOfDepth, List.mem_filter, Bool.and_eq_true, Option.isNone_iff_eq_none]
      at hd hd'
    by_contra hlt
    have hnone : table.rowUp? key parent (d - 1) row = none :=
      Table.rowUp?_eq_none hd'.2.2 (by omega)
    simp [hnone] at hd
  exact Nat.le_antisymm (hle h h') (hle h' h)

theorem depth_pos {row depth : Nat} (h : row ∈ table.rowsOfDepth key parent depth) :
    depth ≠ 0 := by
  rintro rfl
  simp [Table.rowsOfDepth, Table.rowUp?] at h

/-- The row above stands one level higher. -/
theorem mem_rowsOfDepth_succ {row depth : Nat}
    (h : row ∈ table.rowsOfDepth key parent (depth + 1)) :
    (depth = 0 ∧ table.rowAbove? key parent row = none) ∨
      ∃ above, table.rowAbove? key parent row = some above ∧
        above ∈ table.rowsOfDepth key parent depth := by
  simp only [Table.rowsOfDepth, List.mem_filter, Bool.and_eq_true, Option.isNone_iff_eq_none,
    Nat.add_sub_cancel] at h ⊢
  obtain ⟨-, hsome, hnone⟩ := h
  rw [Table.rowUp?_succ] at hnone
  cases habove : table.rowAbove? key parent row with
  | none =>
    cases depth with
    | zero => exact .inl ⟨rfl, rfl⟩
    | succ depth => simp [Table.rowUp?_succ, habove] at hsome
  | some above =>
    rw [habove] at hnone
    cases depth with
    | zero => cases hnone
    | succ depth =>
      rw [Table.rowUp?_succ, habove] at hsome
      exact .inr ⟨above, rfl, List.mem_range.2 (Table.rowAbove?_lt habove), hsome, hnone⟩

end Depths

/-! ### Ways up -/

namespace Table

variable (t : Table) (key parent : Nat)

/-- The way up goes on with a row of this depth, or has come to its end and the depth is 0. -/
def GoesOnAt (next? : Option Nat) (depth : Nat) : Prop :=
  match next? with
  | none => depth = 0
  | some row => row ∈ t.rowsOfDepth key parent depth

/-- A part of a way up, the topmost row first; it goes on with `next?`. -/
def Climbs (next? : Option Nat) : List Nat → Prop
  | [] => True
  | row :: rest => row < t.rowCount ∧ t.rowAbove? key parent row = next? ∧ Climbs (some row) rest

/-- The way up from a row leads back to it. -/
def OnCycle (row : Nat) : Prop :=
  row < t.rowCount ∧ ∃ steps, t.rowUp? key parent (steps + 1) row = some row

/-- The depths that have been written down are right. -/
structure Counted (depths : Array (Option Nat)) : Prop where
  size : depths.size = t.rowCount
  depth : ∀ row d : Nat, depths[row]? = some (some d) → row ∈ t.rowsOfDepth key parent d

variable {t key parent} {next? : Option Nat} {chain : List Nat} {depths : Array (Option Nat)}
  {row depth : Nat}

theorem GoesOnAt.below (h : t.GoesOnAt key parent (t.rowAbove? key parent row) depth)
    (hrow : row < t.rowCount) : row ∈ t.rowsOfDepth key parent (depth + 1) := by
  cases habove : t.rowAbove? key parent row with
  | none =>
    rw [habove] at h
    obtain rfl : depth = 0 := h
    simp [rowsOfDepth, rowUp?, hrow, habove]
  | some above =>
    rw [habove] at h
    have hmem : above ∈ t.rowsOfDepth key parent depth := h
    obtain ⟨k, rfl⟩ := Nat.exists_eq_succ_of_ne_zero (depth_pos hmem)
    simpa [rowsOfDepth, hrow, rowUp?_succ, habove] using (List.mem_filter.1 hmem).2

/-- Every row of a way up leads to the row that it goes on with. -/
theorem Climbs.rowUp? {above : Nat} (h : t.Climbs key parent (some above) chain)
    (hrow : row ∈ chain) :
    row < t.rowCount ∧ ∃ steps, t.rowUp? key parent (steps + 1) row = some above := by
  induction chain generalizing above with
  | nil => cases hrow
  | cons top rest ih =>
    obtain ⟨hlt, habove, hrest⟩ := h
    rcases List.mem_cons.1 hrow with rfl | hrow
    · exact ⟨hlt, 0, habove⟩
    · obtain ⟨hlt, steps, hup⟩ := ih hrest hrow
      exact ⟨hlt, steps + 1, by rw [Table.rowUp?, hup]; exact habove⟩

theorem Counted.set (h : t.Counted key parent depths)
    (hrow : row ∈ t.rowsOfDepth key parent depth) :
    t.Counted key parent (depths.setIfInBounds row (some depth)) := by
  refine ⟨by simp [h.size], fun r d hd => ?_⟩
  by_cases hr : row = r
  · subst hr
    have hlt : row < depths.size := by
      rw [h.size]
      simpa using List.mem_of_mem_filter hrow
    rw [Array.getElem?_setIfInBounds_self_of_lt hlt] at hd
    obtain rfl := Option.some.inj (Option.some.inj hd)
    exact hrow
  · rw [Array.getElem?_setIfInBounds_ne hr] at hd
    exact h.depth r d hd

/-- By induction on the way up, from its top. -/
theorem Counted.count (h : t.Counted key parent depths)
    (hclimbs : t.Climbs key parent next? chain) (htop : t.GoesOnAt key parent next? depth) :
    t.Counted key parent (countChain depths depth chain) ∧
      ∀ row : Nat, row ∈ chain ∨ (∃ d, depths[row]? = some (some d)) →
        ∃ d, (countChain depths depth chain)[row]? = some (some d) := by
  induction chain generalizing next? depth depths with
  | nil => exact ⟨h, fun row hrow => hrow.resolve_left List.not_mem_nil⟩
  | cons top rest ih =>
    obtain ⟨hlt, rfl, hrest⟩ := hclimbs
    have hdepth := htop.below hlt
    obtain ⟨hcounted, hfilled⟩ := ih (h.set hdepth) hrest hdepth
    refine ⟨hcounted, fun row hrow => hfilled row ?_⟩
    by_cases heq : top = row
    · subst heq
      exact .inr ⟨depth + 1, Array.getElem?_setIfInBounds_self_of_lt (h.size ▸ hlt)⟩
    · rw [Array.getElem?_setIfInBounds_ne heq]
      exact hrow.imp_left fun hrow => (List.mem_cons.1 hrow).resolve_left (Ne.symm heq)

end Table

/-! ### The walk -/

section Walk

variable {table : Table} {key parent : Nat} {parents : List (Option Nat)} {depths : List Nat}
  {known : Array (Option Nat)} {chain rows : List Nat} {next? : Option Nat} {row : Nat}

/-- A walk shows a part of the way up that may be counted, or a row that lies above itself. -/
theorem climb_spec
    (hparents : parents = (List.range table.rowCount).map (table.rowAbove? key parent))
    (hknown : table.Counted key parent known) (hclimbs : table.Climbs key parent next? chain)
    (hnext : ∀ row, next? = some row → row < table.rowCount) :
    match climb parents.toArray known chain next? with
    | .ok (rows, depth) => ∃ top?, table.Climbs key parent top? rows ∧
        table.GoesOnAt key parent top? depth ∧ chain ⊆ rows ∧
        ∀ row, next? = some row → row ∈ rows ∨ ∃ d, known[row]? = some (some d)
    | .error row => table.OnCycle key parent row := by
  have hsize : parents.length = table.rowCount := by simp [hparents]
  fun_induction climb parents.toArray known chain next? with
  -- The way up ends, comes to a row that has been counted, or to one that it has passed.
  | case1 chain => exact ⟨none, hclimbs, rfl, List.Subset.refl _, by simp⟩
  | case2 chain row depth hdepth =>
    have hdepth := Option.join_eq_some_iff.1 hdepth
    refine ⟨some row, hclimbs, hknown.depth row depth hdepth, List.Subset.refl _, ?_⟩
    rintro _ ⟨⟩
    exact .inr ⟨depth, hdepth⟩
  | case3 chain row _ hrow => exact hclimbs.rowUp? hrow
  -- Otherwise it goes on with the row above.
  | case4 chain row _ hrow hlt ih =>
    have habove : parents.toArray[row] = table.rowAbove? key parent row := by simp [hparents]
    have hrec := ih ⟨hnext row rfl, habove.symm, hclimbs⟩ fun above hup =>
      Table.rowAbove?_lt (habove ▸ hup)
    split at hrec
    · obtain ⟨top?, hrows, htop, hsub, -⟩ := hrec
      obtain ⟨hmem, hsub⟩ := List.cons_subset.1 hsub
      refine ⟨top?, hrows, htop, hsub, ?_⟩
      rintro _ ⟨⟩
      exact .inl hmem
    · exact hrec
  | case5 chain row _ hrow hlt =>
    have := hnext row rfl
    simp [hsize] at hlt
    omega

theorem countFrom_spec
    (hparents : parents = (List.range table.rowCount).map (table.rowAbove? key parent))
    (hknown : table.Counted key parent known) (hrow : row < table.rowCount) :
    match countFrom parents.toArray known row with
    | .ok found => table.Counted key parent found ∧ ∀ r : Nat, r = row ∨
        (∃ d, known[r]? = some (some d)) → ∃ d, found[r]? = some (some d)
    | .error bad => table.OnCycle key parent bad := by
  have hclimbs : table.Climbs key parent (some row) [] := trivial
  have hclimb := climb_spec hparents hknown hclimbs fun _ h => Option.some.inj h ▸ hrow
  rw [countFrom]
  cases hwalk : climb parents.toArray known [] (some row) with
  | error bad =>
    rw [hwalk] at hclimb
    exact hclimb
  | ok walked =>
    rw [hwalk] at hclimb
    obtain ⟨top?, hchain, htop, -, hfirst⟩ := hclimb
    obtain ⟨hcounted, hfilled⟩ := hknown.count hchain htop
    refine ⟨hcounted, fun r hr => hfilled r ?_⟩
    rcases hr with rfl | hr
    · exact hfirst r rfl
    · exact .inr hr

/-- By induction on the rows that are left. -/
theorem countRows_spec
    (hparents : parents = (List.range table.rowCount).map (table.rowAbove? key parent))
    (hknown : table.Counted key parent known) (hrows : ∀ row ∈ rows, row < table.rowCount) :
    match rows.foldlM (countFrom parents.toArray) known with
    | .ok found => table.Counted key parent found ∧ ∀ row : Nat, row ∈ rows ∨
        (∃ d, known[row]? = some (some d)) → ∃ d, found[row]? = some (some d)
    | .error bad => table.OnCycle key parent bad := by
  induction rows generalizing known with
  | nil => exact ⟨hknown, fun row hrow => hrow.resolve_left List.not_mem_nil⟩
  | cons row rest ih =>
    obtain ⟨hrow, hrest⟩ := List.forall_mem_cons.1 hrows
    have hfirst := countFrom_spec hparents hknown hrow
    rw [List.foldlM_cons]
    cases hcount : countFrom parents.toArray known row with
    | error bad =>
      rw [hcount] at hfirst
      exact hfirst
    | ok known' =>
      rw [hcount] at hfirst
      have hloop := ih hfirst.1 hrest
      show match rest.foldlM (countFrom parents.toArray) known' with
        | .ok found => _
        | .error bad => _
      split at hloop
      · refine ⟨hloop.1, fun r hr => hloop.2 r ?_⟩
        rcases hr with hr | hr
        · exact (List.mem_cons.1 hr).symm.imp_right fun hr => hfirst.2 r (.inl hr)
        · exact .inr (hfirst.2 r (.inr hr))
      · exact hloop

/-- The builder finds the depths of the table, or a row that lies above itself. -/
theorem depthsOf_spec
    (hparents : parents = (List.range table.rowCount).map (table.rowAbove? key parent)) :
    match depthsOf parents with
    | .ok depths => depths.length = table.rowCount ∧ ∀ row depth : Nat,
        depths[row]? = some depth ↔ row ∈ table.rowsOfDepth key parent depth
    | .error row => table.OnCycle key parent row := by
  have hlength : parents.length = table.rowCount := by simp [hparents]
  have hstart : table.Counted key parent (Array.replicate parents.length none) :=
    ⟨by simp [hlength], by simp [Array.getElem?_replicate]⟩
  have hrange : ∀ row ∈ List.range parents.length, row < table.rowCount := by simp [hlength]
  have hloop := countRows_spec hparents hstart hrange
  rw [depthsOf]
  cases hfold : (List.range parents.length).foldlM (countFrom parents.toArray)
    (Array.replicate parents.length none) with
  | error bad =>
    rw [hfold] at hloop
    exact hloop
  | ok found =>
    rw [hfold] at hloop
    obtain ⟨hcounted, hfilled⟩ := hloop
    -- After the loop every row has been counted.
    have hat (row : Nat) (hrow : row < table.rowCount) :
        ∃ d, found[row]? = some (some d) ∧ row ∈ table.rowsOfDepth key parent d := by
      obtain ⟨d, hd⟩ := hfilled row (.inl (by simpa [hlength] using hrow))
      exact ⟨d, hd, hcounted.depth row d hd⟩
    simp only [bind, Except.bind, pure, Except.pure, List.length_map, Array.length_toList,
      hcounted.size, List.getElem?_map, Array.getElem?_toList, true_and]
    intro row depth
    constructor
    · intro hdepth
      obtain ⟨d?, hd, rfl⟩ := Option.map_eq_some_iff.1 hdepth
      have hrow : row < table.rowCount := hcounted.size ▸ (Array.getElem?_eq_some_iff.1 hd).1
      obtain ⟨d, hsome, hmem⟩ := hat row hrow
      obtain rfl := Option.some.inj (hd.symm.trans hsome)
      exact hmem
    · intro hmem
      obtain ⟨d, hsome, hmem'⟩ := hat row (by simpa using List.mem_of_mem_filter hmem)
      rw [hsome, depth_unique hmem hmem']
      rfl

theorem depthsOf_eq_ok
    (hparents : parents = (List.range table.rowCount).map (table.rowAbove? key parent))
    (h : depthsOf parents = .ok depths) :
    depths.length = table.rowCount ∧ ∀ row depth : Nat,
      depths[row]? = some depth ↔ row ∈ table.rowsOfDepth key parent depth := by
  have hspec := depthsOf_spec hparents
  rwa [h] at hspec

theorem depthsOf_eq_error
    (hparents : parents = (List.range table.rowCount).map (table.rowAbove? key parent))
    (h : depthsOf parents = .error row) : table.OnCycle key parent row := by
  have hspec := depthsOf_spec hparents
  rwa [h] at hspec

end Walk

end CubeQuery
