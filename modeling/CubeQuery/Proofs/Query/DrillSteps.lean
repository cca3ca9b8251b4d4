import CubeQuery.Proofs.Query.DrillOrder

/-!
Drilling down with recursion, one level after the other. A step puts behind every tuple what it
leads to and is not there yet; recursion puts all that lies below there at once, and passes over the
tuples of the set it starts from only. Steps meet it since no tuple is led to from two others: what
a step has added is drilled by the next one exactly where recursion would have gone on.
-/

namespace CubeQuery

open CubeQuery.Language

/-! ### Ways down -/

/-- The tuples in `valid` lead to others that have one level less below them, and no tuple is led to
from two. -/
structure LeadsDown (next : Tuple → TupleSet) (levels : Tuple → Nat) (valid : Tuple → Prop) :
    Prop where
  keeps : ∀ t u, valid t → u ∈ next t → valid u
  one_level : ∀ t u, valid t → u ∈ next t → levels u + 1 = levels t
  nodup : ∀ t, valid t → (next t).Nodup
  unique : ∀ t t' u, u ∈ next t → u ∈ next t' → t = t'

/-- All that a tuple leads to within some levels, each new tuple followed by what it leads to. -/
def branch (next : Tuple → TupleSet) (present : TupleSet) : (levels : Nat) → Tuple → TupleSet
  | 0, _ => []
  | levels + 1, t =>
    ((next t).filter (!present.contains ·)).flatMap fun u => u :: branch next present levels u

/-- Puts a block behind the first occurrence of each tuple. -/
def spread (block : Tuple → TupleSet) : (seen set : TupleSet) → TupleSet
  | _, [] => []
  | seen, t :: rest =>
    t :: (if seen.contains t then [] else block t) ++ spread block (t :: seen) rest

section Spread

variable {block block' : Tuple → TupleSet} {seen seen' set rest a b : TupleSet} {t u : Tuple}

theorem spread_cons : spread block seen (t :: rest) =
    t :: (if t ∈ seen then [] else block t) ++ spread block (t :: seen) rest := by
  simp [spread]

theorem spread_congr (hseen : ∀ t, t ∈ seen ↔ t ∈ seen')
    (hblock : ∀ t ∈ set, block t = block' t) :
    spread block seen set = spread block' seen' set := by
  induction set generalizing seen seen' with
  | nil => rfl
  | cons t rest ih =>
    obtain ⟨ht, hrest⟩ := List.forall_mem_cons.1 hblock
    have hcons : ∀ u, u ∈ t :: seen ↔ u ∈ t :: seen' := by simp [hseen]
    rw [spread_cons, spread_cons, ih hcons hrest, ht]
    simp only [hseen]

theorem spread_append :
    spread block seen (a ++ b) = spread block seen a ++ spread block (a ++ seen) b := by
  induction a generalizing seen with
  | nil => rfl
  | cons t a ih =>
    rw [List.cons_append, spread_cons, spread_cons, ih, List.append_assoc]
    refine congrArg _ (congrArg _ (spread_congr (fun u => ?_) fun _ _ => rfl))
    simp only [List.mem_append, List.mem_cons]
    tauto

/-- Tuples that come for the first time all get their blocks. -/
theorem spread_new (hnodup : set.Nodup) (hnew : ∀ t ∈ set, t ∉ seen) :
    spread block seen set = set.flatMap fun t => t :: block t := by
  induction set generalizing seen with
  | nil => rfl
  | cons t rest ih =>
    obtain ⟨ht, hrest⟩ := List.nodup_cons.1 hnodup
    obtain ⟨htnew, hnew⟩ := List.forall_mem_cons.1 hnew
    rw [spread_cons, if_neg htnew, List.flatMap_cons, ih hrest fun u hu => ?_]
    rintro (_ | ⟨_, hold⟩)
    · exact ht hu
    · exact hnew u hu hold

theorem spread_of_eq_nil (h : ∀ t ∈ set, block t = []) : spread block seen set = set := by
  induction set generalizing seen with
  | nil => rfl
  | cons t rest ih =>
    obtain ⟨ht, hrest⟩ := List.forall_mem_cons.1 h
    rw [spread_cons, ht, ih hrest, ite_self]
    rfl

theorem mem_spread : u ∈ spread block [] set ↔ u ∈ set ∨ ∃ t ∈ set, u ∈ block t := by
  constructor
  · generalize ([] : TupleSet) = seen
    induction set generalizing seen with
    | nil => exact fun hu => nomatch hu
    | cons t rest ih =>
      rw [spread_cons, List.cons_append, List.mem_cons, List.mem_append]
      rintro (rfl | hu | hu)
      · exact .inl List.mem_cons_self
      · split at hu
        · cases hu
        · exact .inr ⟨t, List.mem_cons_self, hu⟩
      · rcases ih _ hu with hu | ⟨v, hv, hu⟩
        · exact .inl (List.mem_cons_of_mem _ hu)
        · exact .inr ⟨v, List.mem_cons_of_mem _ hv, hu⟩
  · -- A tuple that has not been seen yet gets its block.
    suffices ∀ seen, u ∈ set ∨ (∃ t ∈ set, t ∉ seen ∧ u ∈ block t) → u ∈ spread block seen set by
      simpa using this []
    intro seen
    induction set generalizing seen with
    | nil => simp
    | cons v rest ih =>
      rw [spread_cons, List.cons_append]
      rintro (hu | ⟨t, ht, hnew, hu⟩)
      · rcases List.mem_cons.1 hu with rfl | hu
        · exact List.mem_cons_self
        · exact List.mem_cons_of_mem _ (List.mem_append_right _ (ih _ (.inl hu)))
      · refine List.mem_cons_of_mem _ ?_
        by_cases htv : t = v
        · subst htv
          exact List.mem_append_left _ (by rwa [if_neg hnew])
        · refine List.mem_append_right _ (ih _ (.inr ⟨t, ?_, by simp [htv, hnew], hu⟩))
          exact (List.mem_cons.1 ht).resolve_left htv

/-- The blocks of the tuples that have been seen, with one tuple more. -/
theorem mem_block_or (block : Tuple → TupleSet) :
    (u ∈ if t ∈ seen then [] else block t) ∨ (∃ s ∈ seen, u ∈ block s) ↔
      ∃ s ∈ t :: seen, u ∈ block s := by
  simp only [List.mem_cons, or_and_right, exists_or, exists_eq_left]
  split
  · next hagain =>
    simp only [List.not_mem_nil, false_or]
    exact ⟨.inr, fun hu => hu.elim (fun hu => ⟨t, hagain, hu⟩) id⟩
  · rfl

end Spread

/-! ### Branches -/

section Branches

variable {next : Tuple → TupleSet} {levels : Tuple → Nat} {valid : Tuple → Prop}
  {present set : TupleSet} {s t u w : Tuple} {n m : Nat}

/-- A step down to a tuple that is not there yet. -/
def LeadsTo (next : Tuple → TupleSet) (present : TupleSet) (t u : Tuple) : Prop :=
  u ∈ next t ∧ u ∉ present

theorem branch_succ : branch next present (n + 1) t =
    ((next t).filter (· ∉ present)).flatMap fun u => u :: branch next present n u := by
  simp [branch]

theorem mem_branch_succ : u ∈ branch next present (n + 1) t ↔
    ∃ v, LeadsTo next present t v ∧ (u = v ∨ u ∈ branch next present n v) := by
  simp [branch, LeadsTo]

theorem leadsTo_of_mem_branch (hu : u ∈ branch next present n t) :
    Relation.TransGen (LeadsTo next present) t u := by
  induction n generalizing t with
  | zero => cases hu
  | succ n ih =>
    obtain ⟨v, hv, rfl | hu⟩ := mem_branch_succ.1 hu
    · exact .single hv
    · exact .head hv (ih hu)

namespace LeadsDown

theorem valid_of_leadsTo (h : LeadsDown next levels valid) (ht : valid t)
    (hu : Relation.TransGen (LeadsTo next present) t u) : valid u ∧ levels u < levels t := by
  have hstep {v w : Tuple} (hv : valid v) (hw : LeadsTo next present v w) :
      valid w ∧ levels w < levels v :=
    ⟨h.keeps v w hv hw.1, by have := h.one_level v w hv hw.1; omega⟩
  induction hu with
  | single hu => exact hstep ht hu
  | tail _ hw ih =>
    obtain ⟨hvalid, hlt⟩ := hstep ih.1 hw
    exact ⟨hvalid, Nat.lt_trans hlt ih.2⟩

/-- Of two tuples that lead to the same one, one leads to the other. -/
theorem total (h : LeadsDown next levels valid)
    (hs : Relation.ReflTransGen (LeadsTo next present) s u)
    (ht : Relation.ReflTransGen (LeadsTo next present) t u) :
    Relation.ReflTransGen (LeadsTo next present) s t ∨
      Relation.ReflTransGen (LeadsTo next present) t s := by
  have hunique : Relator.RightUnique (Function.swap (LeadsTo next present)) :=
    fun w t t' ht ht' => h.unique t t' w ht.1 ht'.1
  have htotal := Relation.ReflTransGen.total_of_right_unique hunique
    (Relation.reflTransGen_swap.2 hs) (Relation.reflTransGen_swap.2 ht)
  exact htotal.symm.imp Relation.reflTransGen_swap.1 Relation.reflTransGen_swap.1

/-- The branches of a set's own tuples have nothing in common. -/
theorem eq_of_present (h : LeadsDown next levels valid) (hs : s ∈ present) (ht : t ∈ present)
    (hsu : u ∈ branch next present n s) (htu : u ∈ branch next present m t) : s = t := by
  have hnever {s t : Tuple} (ht : t ∈ present)
      (hst : Relation.ReflTransGen (LeadsTo next present) s t) : s = t := by
    rcases hst.cases_tail with heq | ⟨_, -, hlast⟩
    · exact heq.symm
    · exact absurd ht hlast.2
  rcases h.total (leadsTo_of_mem_branch hsu).to_reflTransGen
    (leadsTo_of_mem_branch htu).to_reflTransGen with hst | hts
  · exact hnever ht hst
  · exact (hnever hs hts).symm

theorem nodup_branch (h : LeadsDown next levels valid) (ht : valid t) :
    (branch next present n t).Nodup := by
  induction n generalizing t with
  | zero => exact .nil
  | succ n ih =>
    have hvalid {v : Tuple} (hv : v ∈ (next t).filter (· ∉ present)) :
        valid v ∧ levels v + 1 = levels t :=
      ⟨h.keeps t v ht (List.mem_of_mem_filter hv), h.one_level t v ht (List.mem_of_mem_filter hv)⟩
    rw [branch_succ]
    refine List.nodup_flatMap.2 ⟨fun v hv => List.nodup_cons.2 ⟨fun hmem => ?_, ?_⟩, ?_⟩
    · exact Nat.lt_irrefl _ (h.valid_of_leadsTo (hvalid hv).1 (leadsTo_of_mem_branch hmem)).2
    · exact ih (hvalid hv).1
    · -- What two of them lead to would make one lead to the other, on the same level.
      have hreach {v w : Tuple} (hw : w ∈ v :: branch next present n v) :
          Relation.ReflTransGen (LeadsTo next present) v w := by
        rcases List.mem_cons.1 hw with rfl | hw
        · exact .refl
        · exact (leadsTo_of_mem_branch hw).to_reflTransGen
      have hsame {v v' : Tuple} (hv : v ∈ (next t).filter (· ∉ present))
          (hv' : v' ∈ (next t).filter (· ∉ present))
          (hvv' : Relation.ReflTransGen (LeadsTo next present) v v') : v = v' := by
        rcases Relation.reflTransGen_iff_eq_or_transGen.1 hvv' with heq | hvv'
        · exact heq.symm
        · have hlevel := (hvalid hv).2
          have hlevel' := (hvalid hv').2
          have := (h.valid_of_leadsTo (hvalid hv).1 hvv').2
          omega
      refine ((h.nodup t ht).filter _).imp_of_mem fun {v v'} hv hv' hne w hw hw' => hne ?_
      rcases h.total (hreach hw) (hreach hw') with hvv' | hv'v
      · exact hsame hv hv' hvv'
      · exact (hsame hv' hv hv'v).symm

theorem next_eq_nil (h : LeadsDown next levels valid) (ht : valid t) (hzero : levels t = 0) :
    next t = [] := by
  rw [List.eq_nil_iff_forall_not_mem]
  intro u hu
  have := h.one_level t u ht hu
  omega

/-- Further levels than there are add nothing. -/
theorem branch_of_le (h : LeadsDown next levels valid) (ht : valid t) (hn : levels t ≤ n)
    (hm : levels t ≤ m) : branch next present n t = branch next present m t := by
  induction n generalizing m t with
  | zero =>
    cases m with
    | zero => rfl
    | succ m => rw [branch_succ, h.next_eq_nil ht (Nat.le_zero.1 hn)]; rfl
  | succ n ih =>
    cases m with
    | zero => rw [branch_succ, h.next_eq_nil ht (Nat.le_zero.1 hm)]; rfl
    | succ m =>
      rw [branch_succ, branch_succ]
      refine List.flatMap_congr fun u hu => ?_
      have hu := List.mem_of_mem_filter hu
      have hlevel := h.one_level t u ht hu
      rw [ih (m := m) (h.keeps t u ht hu) (by omega) (by omega)]

/-- What lies below a tuple: behind each of those it leads to, what lies below that. -/
theorem branch_eq (h : LeadsDown next levels valid) (ht : valid t) :
    branch next present (levels t) t = ((next t).filter (· ∉ present)).flatMap fun u =>
      u :: branch next present (levels u) u := by
  rw [h.branch_of_le ht (Nat.le_refl _) (Nat.le_succ _), branch_succ]
  refine List.flatMap_congr fun u hu => ?_
  have hu := List.mem_of_mem_filter hu
  rw [h.branch_of_le (h.keeps t u ht hu) (by have := h.one_level t u ht hu; omega) (Nat.le_refl _)]

/-- A tuple that is not in the set leads to the same ones when a step has been taken, since none of
these comes from a tuple of the set. -/
theorem branch_step (h : LeadsDown next levels valid) {set' : TupleSet} (hsub : set ⊆ set')
    (hadded : ∀ u ∈ set', u ∈ set ∨ ∃ s ∈ set, u ∈ next s) (ht : t ∉ set) (hvalid : valid t) :
    branch next set' n t = branch next set n t := by
  induction n generalizing t with
  | zero => rfl
  | succ n ih =>
    have hsame : (next t).filter (· ∉ set') = (next t).filter (· ∉ set) := by
      refine List.filter_congr fun u hu => ?_
      rw [decide_eq_decide, not_iff_not]
      refine ⟨fun hold => ?_, fun hold => hsub hold⟩
      rcases hadded u hold with hold | ⟨s, hs, hsu⟩
      · exact hold
      · exact absurd (h.unique s t u hsu hu ▸ hs) ht
    rw [branch_succ, branch_succ, hsame]
    refine List.flatMap_congr fun u hu => ?_
    obtain ⟨hu, hnew⟩ := List.mem_filter.1 hu
    rw [ih (by simpa using hnew) (h.keeps t u hvalid hu)]

end LeadsDown

/-! ### Steps -/

/-- One step: each tuple of a set is followed by what it leads to. -/
def stepDown (next : Tuple → TupleSet) (set : TupleSet) : TupleSet :=
  spread (branch next set 1) [] set

/-- All steps at once: each tuple of a set is followed by everything that lies below it. -/
def goDown (next : Tuple → TupleSet) (levels : Tuple → Nat) (set : TupleSet) : TupleSet :=
  spread (fun t => branch next set (levels t) t) [] set

theorem branch_one : branch next present 1 t = (next t).filter (· ∉ present) := by
  simp [branch]

theorem mem_stepDown : u ∈ stepDown next set ↔ u ∈ set ∨ ∃ t ∈ set, u ∈ next t := by
  rw [stepDown, mem_spread]
  simp only [branch_one, List.mem_filter, decide_eq_true_eq]
  by_cases hu : u ∈ set <;> simp [hu]

/-- Where every tuple has what it leads to, there is nothing more to be done. -/
theorem stepDown_of_closed (hclosed : ∀ t ∈ set, next t ⊆ set) : stepDown next set = set := by
  refine spread_of_eq_nil fun t ht => ?_
  rw [branch_one, List.filter_eq_nil_iff]
  intro u hu
  simpa using hclosed t ht hu

namespace LeadsDown

theorem branch_of_closed (h : LeadsDown next levels valid) (ht : valid t)
    (hclosed : next t ⊆ present) : branch next present (levels t) t = [] := by
  rw [h.branch_eq ht, List.flatMap_eq_nil_iff]
  intro u hu
  obtain ⟨hu, hnew⟩ := List.mem_filter.1 hu
  simp [hclosed hu] at hnew

theorem goDown_of_closed (h : LeadsDown next levels valid) (hvalid : ∀ t ∈ set, valid t)
    (hclosed : ∀ t ∈ set, next t ⊆ set) : goDown next levels set = set :=
  spread_of_eq_nil fun t ht => h.branch_of_closed (hvalid t ht) (hclosed t ht)

/-- A step taken beforehand makes no difference: behind a tuple of the set stands now what it leads
to, and what lies below that follows. -/
theorem goDown_stepDown (h : LeadsDown next levels valid) (hvalid : ∀ t ∈ set, valid t) :
    goDown next levels (stepDown next set) = goDown next levels set := by
  have hold (t : Tuple) (ht : t ∈ set) :
      branch next (stepDown next set) (levels t) t = [] :=
    h.branch_of_closed (hvalid t ht) fun u hu => mem_stepDown.2 (.inr ⟨t, ht, hu⟩)
  have hnew (t : Tuple) (ht : t ∈ set) : (branch next set 1 t).flatMap (fun u =>
      u :: branch next (stepDown next set) (levels u) u) = branch next set (levels t) t := by
    rw [branch_one, h.branch_eq (hvalid t ht)]
    refine List.flatMap_congr fun u hu => ?_
    obtain ⟨hu, hnew⟩ := List.mem_filter.1 hu
    rw [h.branch_step (fun u hu => mem_stepDown.2 (.inl hu)) (fun u => mem_stepDown.1)
      (by simpa using hnew) (h.keeps t u (hvalid t ht) hu)]
  -- By induction on the set, with the tuples that have had their turn.
  suffices ∀ rest seen seen', rest ⊆ set → seen ⊆ set →
      (∀ u, u ∈ seen' ↔ u ∈ seen ∨ ∃ s ∈ seen, u ∈ branch next set 1 s) →
      spread (fun t => branch next (stepDown next set) (levels t) t) seen'
        (spread (branch next set 1) seen rest) =
      spread (fun t => branch next set (levels t) t) seen rest from
    this set [] [] (List.Subset.refl _) (List.nil_subset _) (by simp)
  intro rest
  induction rest with
  | nil => exact fun _ _ _ _ _ => rfl
  | cons t rest ih =>
    intro seen seen' hrest hseen hseen'
    obtain ⟨ht, hrest⟩ := List.cons_subset.1 hrest
    rw [spread_cons, spread_cons, List.cons_append, spread_cons, hold t ht, ite_self, spread_append,
      ih (t :: seen) _ hrest (List.cons_subset.2 ⟨ht, hseen⟩)]
    · by_cases hagain : t ∈ seen
      · simp [hagain, spread]
      · rw [if_neg hagain, if_neg hagain, spread_new (h.nodup_branch (hvalid t ht)), hnew t ht]
        · rfl
        · intro u hu
          have hfresh : u ∉ set := by
            have hmem := hu
            rw [branch_one, List.mem_filter] at hmem
            simpa using hmem.2
          rw [List.mem_cons, hseen']
          rintro (rfl | hu' | ⟨s, hs, hsu⟩)
          · exact hfresh ht
          · exact hfresh (hseen hu')
          · exact hagain (h.eq_of_present (hseen hs) ht hsu hu ▸ hs)
    · intro u
      rw [← mem_block_or, List.mem_append, List.mem_cons, List.mem_cons, hseen']
      tauto

theorem valid_stepDown (h : LeadsDown next levels valid) (hvalid : ∀ t ∈ set, valid t) :
    ∀ t ∈ stepDown next set, valid t := by
  intro u hu
  rcases mem_stepDown.1 hu with hu | ⟨t, ht, hu⟩
  · exact hvalid u hu
  · exact h.keeps t u (hvalid t ht) hu

/-- After each step, what is still missing something has one level less below it. -/
theorem iterate_stepDown (h : LeadsDown next levels valid) (hvalid : ∀ t ∈ set, valid t)
    {count : Nat} (hlevels : ∀ t ∈ set, next t = [] ∨ levels t < count) (n : Nat) :
    (∀ t ∈ (stepDown next)^[n] set, valid t) ∧
      (∀ t ∈ (stepDown next)^[n] set,
        next t ⊆ (stepDown next)^[n] set ∨ levels t + n < count) ∧
      goDown next levels ((stepDown next)^[n] set) = goDown next levels set := by
  induction n with
  | zero =>
    refine ⟨hvalid, fun t ht => (hlevels t ht).imp_left fun hnone => ?_, rfl⟩
    rw [hnone]
    exact List.nil_subset _
  | succ n ih =>
    obtain ⟨hkeeps, hmissing, hsame⟩ := ih
    rw [Function.iterate_succ_apply']
    refine ⟨h.valid_stepDown hkeeps, fun u hu => ?_, (h.goDown_stepDown hkeeps).trans hsame⟩
    rcases mem_stepDown.1 hu with hu | ⟨t, ht, hu⟩
    · exact .inl fun w hw => mem_stepDown.2 (.inr ⟨u, hu, hw⟩)
    · rcases hmissing t ht with hall | hlt
      · exact .inl fun w hw => mem_stepDown.2 (.inr ⟨u, hall hu, hw⟩)
      · have hlevel := h.one_level t u (hkeeps t ht) hu
        exact .inr (by omega)

/-- As many steps as there are levels do everything. -/
theorem iterate_eq_goDown (h : LeadsDown next levels valid) (hvalid : ∀ t ∈ set, valid t)
    {count : Nat} (hlevels : ∀ t ∈ set, next t = [] ∨ levels t < count) :
    (stepDown next)^[count] set = goDown next levels set ∧
      ∀ t ∈ goDown next levels set, next t ⊆ goDown next levels set := by
  obtain ⟨hkeeps, hmissing, hsame⟩ := h.iterate_stepDown hvalid hlevels count
  have hclosed : ∀ t ∈ (stepDown next)^[count] set, next t ⊆ (stepDown next)^[count] set :=
    fun t ht => (hmissing t ht).resolve_right (by omega)
  rw [h.goDown_of_closed hkeeps hclosed] at hsame
  exact ⟨hsame, hsame ▸ hclosed⟩

end LeadsDown

end Branches

/-! ### Targets on one facet -/

/-- New tuples, each followed by a block that does not depend on what has been emitted, as long as
all of them come for the first time. -/
theorem childTuples_eq {present emitted : TupleSet} {t : Tuple} {p : Nat} {children : List Element}
    {further : TupleSet → Tuple → Element → TupleSet} (block : Tuple → TupleSet)
    (hfurther : ∀ emitted, ∀ child ∈ children, (∀ u ∈ block (t.set p child), u ∉ emitted) →
      further emitted (t.set p child) child = block (t.set p child))
    (hnodup : (((children.map (t.set p)).filter (· ∉ present)).flatMap
      fun u => u :: block u).Nodup)
    (hnew : ∀ u ∈ ((children.map (t.set p)).filter (· ∉ present)).flatMap fun u => u :: block u,
      u ∉ emitted) :
    childTuples present further t p emitted children =
      ((children.map (t.set p)).filter (· ∉ present)).flatMap fun u => u :: block u := by
  induction children generalizing emitted with
  | nil => rfl
  | cons child rest ih =>
    obtain ⟨hchild, hrest⟩ := List.forall_mem_cons.1
      fun child hchild emitted => hfurther emitted child hchild
    have hrest := fun emitted child h => hrest child h emitted
    rw [List.map_cons] at hnodup hnew ⊢
    rw [childTuples]
    dsimp only
    -- A child that is there already is left out on both sides; otherwise it has not been emitted.
    by_cases hold : t.set p child ∈ present
    · rw [List.filter_cons_of_neg (by simpa using hold)] at hnodup hnew ⊢
      rw [if_pos (.inl hold), ih hrest hnodup hnew]
    · rw [List.filter_cons_of_pos (by simpa using hold), List.flatMap_cons] at hnodup hnew ⊢
      obtain ⟨hblock, htail, hapart⟩ := List.nodup_append.1 hnodup
      have hemitted : t.set p child ∉ emitted := hnew _ (by simp)
      rw [if_neg (by simp [hold, hemitted]), hchild, ih hrest htail]
      · intro u hu hmem
        rcases List.mem_append.1 hmem with hmem | hmem
        · exact hnew u (List.mem_append_right _ hu) hmem
        · exact hapart u hmem u hu rfl
      · intro u hu hmem
        rcases List.mem_append.1 hmem with hmem | hmem
        · exact hnew u (List.mem_append_left _ (List.mem_cons_of_mem _ hu)) hmem
        · exact (List.nodup_cons.1 hblock).1 (List.mem_singleton.1 hmem ▸ hu)

theorem childTuples_eq_nil {present emitted : TupleSet} {t : Tuple} {p : Nat}
    {children : List Element} {further : TupleSet → Tuple → Element → TupleSet}
    (hold : ∀ u ∈ children.map (t.set p), u ∈ present ∨ u ∈ emitted) :
    childTuples present further t p emitted children = [] := by
  induction children with
  | nil => rfl
  | cons child rest ih =>
    obtain ⟨hchild, hrest⟩ := List.forall_mem_cons.1 hold
    rw [childTuples]
    exact (if_pos hchild).trans (ih hrest)

namespace Context

variable {ctx : Context} {targets : List Element} {recursive : Bool} {fs : List Facet}
  {present emitted set : TupleSet} {t u : Tuple} {p : Nat} {e d : Element}

/-- The tuples that the target at a position leads to. -/
def offspring (ctx : Context) (targets : List Element) (p : Nat) (t : Tuple) : TupleSet :=
  match t[p]? with
  | some e => if e ∈ targets then (ctx.childrenOf e).map (t.set p) else []
  | none => []

/-- The levels below the member at a position. -/
def levelsAt (ctx : Context) (p : Nat) (t : Tuple) : Nat :=
  (t[p]?.map ctx.levelsUnder).getD 0

/-- Tuples of the cube and of the definitions, on the given facets. -/
def On (ctx : Context) (fs : List Facet) (t : Tuple) : Prop :=
  ctx.facets t = fs ∧ ctx.HasAll t

theorem mem_offspring : u ∈ ctx.offspring targets p t ↔
    ∃ e ∈ targets, t[p]? = some e ∧ ∃ d ∈ ctx.childrenOf e, t.set p d = u := by
  unfold offspring
  split
  · next e he =>
    rw [he]
    split
    · next htarget => simp [htarget]
    · next htarget => simp [htarget]
  · next he => simp [he]

theorem offspring_eq (he : t[p]? = some e) (htarget : e ∈ targets) :
    ctx.offspring targets p t = (ctx.childrenOf e).map (t.set p) := by
  rw [offspring, he]
  exact if_pos htarget

/-- A tuple leads nowhere with a member that is no target. -/
theorem offspring_set_eq_nil (he : e ∉ targets) : ctx.offspring targets p (t.set p e) = [] := by
  rw [List.eq_nil_iff_forall_not_mem]
  intro u hu
  obtain ⟨e', htarget, hat, -⟩ := mem_offspring.1 hu
  have hlt := (List.getElem?_eq_some_iff.1 hat).1
  rw [List.length_set] at hlt
  rw [List.getElem?_set_self hlt] at hat
  exact he (Option.some.inj hat ▸ htarget)

theorem levelsAt_eq (he : t[p]? = some e) : ctx.levelsAt p t = ctx.levelsUnder e := by
  rw [levelsAt, he]
  rfl

theorem nodup_childrenOf (hg : Cube.Graph ctx.cube) (he : ctx.Has e) :
    (ctx.childrenOf e).Nodup := by
  cases e with
  | member m => exact (hg.nodup_memberChildren he).map fun _ _ h => Element.member.inj h
  | measure id => exact .nil
  | calculated i => exact .nil

/-- A child tells its parent, and with that the whole tuple. -/
theorem leadsDown_offspring (hg : Cube.Graph ctx.cube) (fs : List Facet) (p : Nat) :
    LeadsDown (ctx.offspring targets p) (ctx.levelsAt p) (ctx.On fs) where
  keeps t u ht hu := by
    obtain ⟨e, -, he, d, hd, rfl⟩ := mem_offspring.1 hu
    have hhas := ht.2 e (List.mem_of_getElem? he)
    refine ⟨(facets_set ?_).trans ht.1, ht.2.replace (childrenOf_has hg hhas d hd) p⟩
    rw [facets, List.getElem?_map, he, Option.map_some, childrenOf_facet hg hhas hd]
  one_level t u ht hu := by
    obtain ⟨e, -, he, d, hd, rfl⟩ := mem_offspring.1 hu
    have hlt := (List.getElem?_eq_some_iff.1 he).1
    rw [levelsAt_eq he, levelsAt_eq (List.getElem?_set_self hlt)]
    exact levelsUnder_child hg (ht.2 e (List.mem_of_getElem? he)) hd
  nodup t ht := by
    unfold offspring
    split
    · next e he =>
      have hlt := (List.getElem?_eq_some_iff.1 he).1
      split
      · refine (nodup_childrenOf hg (ht.2 e (List.mem_of_getElem? he))).map fun d d' heq => ?_
        have hsame := congrArg (·[p]?) heq
        simpa [List.getElem?_set_self hlt] using hsame
      · exact .nil
    · exact .nil
  unique t t' u hu hu' := by
    -- The two tuples agree at the position, as a child has one parent, and elsewhere with `u`.
    obtain ⟨e, -, he, d, hd, rfl⟩ := mem_offspring.1 hu
    obtain ⟨e', -, he', d', hd', heq⟩ := mem_offspring.1 hu'
    have hlt := (List.getElem?_eq_some_iff.1 he).1
    have hlt' := (List.getElem?_eq_some_iff.1 he').1
    have hsame := congrArg (·[p]?) heq
    simp only [List.getElem?_set_self hlt, List.getElem?_set_self hlt', Option.some.injEq] at hsame
    subst hsame
    obtain rfl := parent_unique hd hd'
    have hback {s : Tuple} (hs : s[p]? = some e) : (s.set p d').set p e = s := by
      obtain ⟨hlt, hat⟩ := List.getElem?_eq_some_iff.1 hs
      rw [List.set_set, ← hat]
      exact List.set_getElem_self hlt
    rw [← hback he, ← hback he', heq]

/-- No tuple on these facets has a target anywhere else than at this position. -/
def OnlyAt (ctx : Context) (targets : List Element) (fs : List Facet) (p : Nat) : Prop :=
  ∀ t, ctx.On fs t → ∀ q e, FirstTarget targets t q e → q = p

theorem onlyAt_of_facet {f : Facet} (hnodup : fs.Nodup)
    (hfacet : ∀ e ∈ targets, ctx.facetOf e = f) :
    ctx.OnlyAt targets fs (fs.idxOf f) := by
  intro t ht q e hfirst
  have hq : fs[q]? = some f := by
    rw [← ht.1, facets, List.getElem?_map, hfirst.at_position, Option.map_some,
      hfacet e hfirst.target]
  obtain ⟨hlt, rfl⟩ := List.getElem?_eq_some_iff.1 hq
  exact (hnodup.idxOf_getElem q hlt).symm

theorem findIdx?_of_onlyAt (honly : ctx.OnlyAt targets fs p) (ht : ctx.On fs t) :
    match t.findIdx? (targets.contains ·) with
    | some q => q = p ∧
        ctx.offspring targets p t = ((t[p]?.map ctx.childrenOf).getD []).map (t.set p)
    | none => ctx.offspring targets p t = [] := by
  split
  · next q hq =>
    obtain ⟨e, hfirst⟩ := FirstTarget.of_findIdx? hq
    obtain rfl := honly t ht q e hfirst
    exact ⟨rfl, by rw [offspring_eq hfirst.at_position hfirst.target, hfirst.at_position]; rfl⟩
  · next hnone =>
    rw [List.eq_nil_iff_forall_not_mem]
    intro u hu
    obtain ⟨e, htarget, he, -⟩ := mem_offspring.1 hu
    have hstop := List.findIdx?_eq_none_iff.1 hnone e (List.mem_of_getElem? he)
    simp [htarget] at hstop

/-- How far down the block of a tuple goes. -/
def reach (ctx : Context) (recursive : Bool) (p : Nat) (t : Tuple) : Nat :=
  if recursive then ctx.levelsAt p t else 1

theorem branch_reach (hg : Cube.Graph ctx.cube) (ht : ctx.On fs t) :
    branch (ctx.offspring targets p) present (ctx.reach recursive p t) t =
      ((ctx.offspring targets p t).filter (· ∉ present)).flatMap fun u => u ::
        if recursive then branch (ctx.offspring targets p) present (ctx.levelsAt p u) u
        else [] := by
  cases recursive with
  | true => exact (leadsDown_offspring hg fs p).branch_eq ht
  | false => exact branch_succ

/-- A block is what lies below its tuple, as long as nothing of that has been emitted. -/
theorem drillTuple_eq_branch (hg : Cube.Graph ctx.cube) (honly : ctx.OnlyAt targets fs p)
    (ht : ctx.On fs t) {levels : Nat} (hlevels : ctx.levelsAt p t ≤ levels)
    (hnew : ∀ u ∈ branch (ctx.offspring targets p) present (ctx.reach recursive p t) t,
      u ∉ emitted) :
    ctx.drillTuple targets present recursive levels emitted t =
      branch (ctx.offspring targets p) present (ctx.reach recursive p t) t := by
  have h : LeadsDown (ctx.offspring targets p) (ctx.levelsAt p) (ctx.On fs) :=
    leadsDown_offspring hg fs p
  induction levels generalizing t emitted with
  | zero =>
    rw [branch_reach hg ht, h.next_eq_nil ht (Nat.le_zero.1 hlevels)]
    rfl
  | succ levels ih =>
    have hfind := findIdx?_of_onlyAt honly ht
    have hnodup : (branch (ctx.offspring targets p) present (ctx.reach recursive p t) t).Nodup :=
      h.nodup_branch ht
    rw [branch_reach hg ht] at hnew hnodup ⊢
    rw [drillTuple]
    split at hfind
    · next q hq =>
      obtain ⟨rfl, hoffspring⟩ := hfind
      rw [hq]
      rw [hoffspring] at hnew hnodup ⊢
      refine childTuples_eq _ (fun emitted child hchild hnew => ?_) hnodup hnew
      have hmem : t.set q child ∈ ctx.offspring targets q t :=
        hoffspring ▸ List.mem_map_of_mem hchild
      have hvalid := h.keeps t _ ht hmem
      have hlevel := h.one_level t _ ht hmem
      cases recursive with
      | false => rfl
      | true =>
        by_cases htarget : child ∈ targets
        · rw [if_pos (by simp [htarget])]
          exact ih hvalid (by omega) hnew
        · -- It is not drilled, and nothing lies below it.
          rw [if_neg (by simp [htarget])]
          refine (h.branch_of_closed hvalid ?_).symm
          rw [offspring_set_eq_nil htarget]
          exact List.nil_subset _
    · next hnone =>
      rw [hnone, hfind]
      rfl

/-- A tuple whose children are all there adds nothing. -/
theorem drillTuple_eq_nil (honly : ctx.OnlyAt targets fs p) (ht : ctx.On fs t) {levels : Nat}
    (hold : ∀ u ∈ ctx.offspring targets p t, u ∈ present ∨ u ∈ emitted) :
    ctx.drillTuple targets present recursive levels emitted t = [] := by
  cases levels with
  | zero => rfl
  | succ levels =>
    have hfind := findIdx?_of_onlyAt honly ht
    rw [drillTuple]
    split at hfind
    · next q hq =>
      obtain ⟨rfl, hoffspring⟩ := hfind
      rw [hq]
      rw [hoffspring] at hold
      exact childTuples_eq_nil hold
    · next hnone => rw [hnone]

/-- By induction on the set: a tuple that comes again finds everything there. -/
theorem drilldownMember_eq_spread (hg : Cube.Graph ctx.cube) {targets : TupleSet}
    (honly : ctx.OnlyAt targets.flatten fs p) (hset : ∀ t ∈ set, ctx.On fs t) :
    ctx.drilldownMember set targets recursive =
      spread (fun t => branch (ctx.offspring targets.flatten p) set (ctx.reach recursive p t) t)
        [] set := by
  have h : LeadsDown (ctx.offspring targets.flatten p) (ctx.levelsAt p) (ctx.On fs) :=
    leadsDown_offspring hg fs p
  have hbelow (t : Tuple) : ctx.levelsAt p t ≤ ctx.levelsBelow t := by
    rw [levelsAt]
    cases he : t[p]? with
    | none => exact Nat.zero_le _
    | some e => exact levelsUnder_le (List.mem_of_getElem? he)
  -- What has been emitted is what lies below the tuples that have been seen.
  suffices ∀ rest seen emitted, rest ⊆ set → seen ⊆ set → (∀ u, u ∈ emitted ↔ ∃ s ∈ seen,
        u ∈ branch (ctx.offspring targets.flatten p) set (ctx.reach recursive p s) s) →
      interleave (fun emitted t => ctx.drillTuple targets.flatten set recursive (ctx.levelsBelow t)
        emitted t) emitted rest =
      spread (fun t => branch (ctx.offspring targets.flatten p) set (ctx.reach recursive p t) t)
        seen rest from
    this set [] [] (List.Subset.refl _) (List.nil_subset _) (by simp)
  intro rest
  induction rest with
  | nil => exact fun _ _ _ _ _ => rfl
  | cons t rest ih =>
    intro seen emitted hrest hseen hemitted
    obtain ⟨ht, hrest⟩ := List.cons_subset.1 hrest
    have hblock : ctx.drillTuple targets.flatten set recursive (ctx.levelsBelow t) emitted t =
        if t ∈ seen then []
        else branch (ctx.offspring targets.flatten p) set (ctx.reach recursive p t) t := by
      split
      · next hagain =>
        refine drillTuple_eq_nil honly (hset t ht) fun u hu => ?_
        by_cases hold : u ∈ set
        · exact .inl hold
        · refine .inr ((hemitted u).2 ⟨t, hagain, ?_⟩)
          rw [branch_reach hg (hset t ht)]
          exact List.mem_flatMap.2 ⟨u, List.mem_filter.2 ⟨hu, by simpa using hold⟩,
            List.mem_cons_self⟩
      · next hfirst =>
        refine drillTuple_eq_branch hg honly (hset t ht) (hbelow t) fun u hu hu' => ?_
        obtain ⟨s, hs, hsu⟩ := (hemitted u).1 hu'
        exact hfirst (h.eq_of_present (hseen hs) ht hsu hu ▸ hs)
    rw [interleave, spread_cons, hblock, ih (t :: seen) _ hrest (List.cons_subset.2 ⟨ht, hseen⟩)]
    intro u
    rw [List.mem_append, hemitted, or_comm]
    exact mem_block_or fun s => branch _ set (ctx.reach recursive p s) s

theorem drilldownMember_eq_stepDown (hg : Cube.Graph ctx.cube) {targets : TupleSet}
    (honly : ctx.OnlyAt targets.flatten fs p) (hset : ∀ t ∈ set, ctx.On fs t) :
    ctx.drilldownMember set targets false = stepDown (ctx.offspring targets.flatten p) set :=
  drilldownMember_eq_spread hg honly hset

theorem drilldownMember_eq_goDown (hg : Cube.Graph ctx.cube) {targets : TupleSet}
    (honly : ctx.OnlyAt targets.flatten fs p) (hset : ∀ t ∈ set, ctx.On fs t) :
    ctx.drilldownMember set targets true =
      goDown (ctx.offspring targets.flatten p) (ctx.levelsAt p) set :=
  drilldownMember_eq_spread hg honly hset

/-- A tuple that leads to others has a target, with fewer levels below it than its hierarchy has. -/
theorem levelsAt_lt (hg : Cube.Graph ctx.cube) {f : Facet}
    (hfacet : ∀ e ∈ targets, ctx.facetOf e = f) {count : Nat}
    (hcount : ∀ h, f = .hierarchy h → (ctx.cube.hierarchy h).levels.length ≤ count)
    (ht : ctx.On fs t) : ctx.offspring targets p t = [] ∨ ctx.levelsAt p t < count := by
  by_cases hnone : ctx.offspring targets p t = []
  · exact .inl hnone
  · obtain ⟨u, hu⟩ := List.exists_mem_of_ne_nil _ hnone
    obtain ⟨e, htarget, he, d, hd, -⟩ := mem_offspring.1 hu
    obtain ⟨m, -, rfl, -⟩ := mem_childrenOf hd
    have hm := ht.2 _ (List.mem_of_getElem? he)
    have hlevels := hcount _ (hfacet _ htarget).symm
    have hdepth := hg.depth_lt hm
    refine .inr ?_
    rw [levelsAt_eq he, levelsUnder, Cube.levelsBelow]
    omega

/-- With all targets on one facet, drilling down with recursion does what drilling down without it
does when it is done as often as the hierarchy has levels, and then nothing more is added. -/
theorem drilldownMember_iterate {layout : CubeLayout} {catalog : Catalog} {c : Cube}
    (hbuild : Cube.build layout catalog = .ok c) {s : Scope} {set targets : TupleSet}
    (hhas : HasSet ⟨c, s⟩ set) (huniform : Uniform ⟨c, s⟩ set) {f : Facet}
    (hfacet : ∀ e ∈ targets.flatten, facetOf ⟨c, s⟩ e = f) :
    (∀ n, (∀ h, f = .hierarchy h → (c.hierarchy h).levels.length ≤ n) →
      (drilldownMember ⟨c, s⟩ · targets false)^[n] set = drilldownMember ⟨c, s⟩ set targets true) ∧
    ∀ recursive,
      drilldownMember ⟨c, s⟩ (drilldownMember ⟨c, s⟩ set targets true) targets recursive =
        drilldownMember ⟨c, s⟩ set targets true := by
  have hg : Cube.Graph (Context.mk c s).cube := (Cube.built_of_build hbuild).graph
  obtain ⟨fs, hnodup, hspans⟩ := huniform
  have honly := onlyAt_of_facet hnodup hfacet
  have hset : ∀ t ∈ set, On ⟨c, s⟩ fs t := fun t ht => ⟨hspans t ht, hhas t ht⟩
  have h : LeadsDown (offspring ⟨c, s⟩ targets.flatten (fs.idxOf f)) (levelsAt ⟨c, s⟩ (fs.idxOf f))
      (On ⟨c, s⟩ fs) := leadsDown_offspring hg fs _
  have hlevels (n : Nat) (hn : ∀ h, f = .hierarchy h → (c.hierarchy h).levels.length ≤ n) :=
    fun t (ht : t ∈ set) => levelsAt_lt (p := fs.idxOf f) hg hfacet hn (hset t ht)
  rw [drilldownMember_eq_goDown hg honly hset]
  constructor
  -- Every step without recursion is a `stepDown`, and enough of them go down all the way.
  · intro n hn
    rw [← (h.iterate_eq_goDown hset (hlevels n hn)).1]
    suffices ∀ k, (drilldownMember ⟨c, s⟩ · targets false)^[k] set =
      (stepDown (offspring ⟨c, s⟩ targets.flatten (fs.idxOf f)))^[k] set from this n
    intro k
    induction k with
    | zero => rfl
    | succ k ih =>
      rw [Function.iterate_succ_apply', Function.iterate_succ_apply', ih]
      exact drilldownMember_eq_stepDown hg honly (h.iterate_stepDown hset (hlevels n hn) k).1
  · obtain ⟨n, hn⟩ : ∃ n, ∀ h, f = .hierarchy h → (c.hierarchy h).levels.length ≤ n := by
      cases f with
      | measures => exact ⟨0, fun _ h => nomatch h⟩
      | hierarchy i =>
        exact ⟨(c.hierarchy i).levels.length, fun h heq => by rw [Facet.hierarchy.inj heq]⟩
    obtain ⟨hsame, hclosed⟩ := h.iterate_eq_goDown hset (hlevels n hn)
    have hvalid := hsame ▸ (h.iterate_stepDown hset (hlevels n hn) n).1
    intro recursive
    cases recursive with
    | false => rw [drilldownMember_eq_stepDown hg honly hvalid, stepDown_of_closed hclosed]
    | true => rw [drilldownMember_eq_goDown hg honly hvalid, h.goDown_of_closed hvalid hclosed]

/-- The second occurrence of a tuple is not drilled again, neither by recursion nor by steps. -/
theorem drilldownMember_iterate_games :
    let ctx : Context := ⟨Games.cube, .empty⟩
    let all : Tuple := [.member ⟨0⟩, .member ⟨3⟩]
    let targets : TupleSet := [[.member ⟨0⟩], [.member ⟨1⟩]]
    ctx.HasSet [all, all] ∧ ctx.Uniform [all, all] ∧
      (∀ e ∈ targets.flatten, ctx.facetOf e = .hierarchy ⟨0⟩) ∧
      (Games.cube.hierarchy ⟨0⟩).levels.length = 3 ∧
      (ctx.drilldownMember · targets false)^[3] [all, all] =
        [all, [.member ⟨1⟩, .member ⟨3⟩], [.member ⟨2⟩, .member ⟨3⟩], all] ∧
      (ctx.drilldownMember · targets false) [all, all] ≠
        ctx.drilldownMember [all, all] targets true := by
  intro ctx all targets
  have hhas : ctx.HasSet [all, all] := hasSet_games [(0, 3), (0, 3)] (by decide)
  have huniform : ctx.Uniform [all, all] :=
    ⟨[.hierarchy ⟨0⟩, .hierarchy ⟨1⟩], by decide, by unfold Spans; decide⟩
  have hfacet : ∀ e ∈ targets.flatten, ctx.facetOf e = .hierarchy ⟨0⟩ := by decide
  have hlevels : (Games.cube.hierarchy ⟨0⟩).levels.length = 3 := by decide
  have hsteps := (drilldownMember_iterate Games.build_eq_cube hhas huniform hfacet).1 3
    fun h heq => by rw [← Facet.hierarchy.inj heq, hlevels]
  exact ⟨hhas, huniform, hfacet, hlevels, hsteps.trans (by decide), by decide⟩

end Context

end CubeQuery
