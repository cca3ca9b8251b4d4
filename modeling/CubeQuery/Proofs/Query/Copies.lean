import CubeQuery.Proofs.Query.Additions

/-!
Calculated members that are added on one facet. Each is put into a copy of the last tuple that held
a sibling of it before any was added, behind the copies that this tuple has already: these hold
siblings too, and no tuple behind them does.
-/

namespace CubeQuery

open CubeQuery.Language

namespace Context

variable {ctx : Context} {set rest : TupleSet} {fs : List Facet} {t : Tuple} {e : Element}
  {m : CalculatedMember} {is : List Nat} {p i j : Nat}

theorem beside_iff (hfits : ctx.Fits) (hi : i < ctx.scope.members.size) (ht : ctx.HasAll t) :
    ctx.beside p (ctx.scope.member i) t = true ↔
      ∃ x, t[p]? = some x ∧ ctx.Siblings (.calculated i) x := by
  rw [beside, Option.any_eq_true]
  refine exists_congr fun x => and_congr_right fun hx => ?_
  exact isSibling_iff hfits hi (ht x (List.mem_of_getElem? hx))

/-! ### Putting one member into a part of the set -/

/-- Where a sibling follows, what stands before makes no difference. -/
theorem insertCalculated_append_of_mem {before : TupleSet}
    (habsent : ∀ u ∈ before ++ set, u[p]? ≠ some e) (hmem : ∃ u ∈ set, ctx.beside p m u = true) :
    ctx.insertCalculated p m e (before ++ set) = before ++ ctx.insertCalculated p m e set := by
  obtain ⟨between, t, after, rfl, ht, hafter⟩ := exists_last hmem
  have habsent' : ∀ u ∈ between ++ t :: after, u[p]? ≠ some e :=
    fun u hu => habsent u (List.mem_append_right _ hu)
  rw [← List.append_assoc, insertCalculated_eq (by rwa [List.append_assoc]) ht hafter,
    insertCalculated_eq habsent' ht hafter, List.append_assoc]

theorem insertCalculated_append_of_not_mem {after : TupleSet}
    (habsent : ∀ u ∈ set ++ after, u[p]? ≠ some e)
    (hnone : ∀ u ∈ after, ctx.beside p m u = false) :
    ctx.insertCalculated p m e (set ++ after) = ctx.insertCalculated p m e set ++ after := by
  by_cases hmem : ∃ u ∈ set, ctx.beside p m u = true
  · obtain ⟨before, t, between, rfl, ht, hbetween⟩ := exists_last hmem
    have hlater : ∀ u ∈ between ++ after, ctx.beside p m u = false :=
      List.forall_mem_append.2 ⟨hbetween, hnone⟩
    rw [insertCalculated_eq (List.forall_mem_append.1 habsent).1 ht hbetween]
    rw [List.append_assoc, List.cons_append] at habsent ⊢
    rw [insertCalculated_eq habsent ht hlater]
    simp
  · have hset : ∀ u ∈ set, ctx.beside p m u = false := by simpa using hmem
    rw [insertCalculated_eq_self hset,
      insertCalculated_eq_self (List.forall_mem_append.2 ⟨hset, hnone⟩)]

/-! ### Copies -/

/-- The tuple is the last one with a sibling of the calculated member, before the rest. -/
def hosts (ctx : Context) (p : Nat) (t : Tuple) (rest : TupleSet) (i : Nat) : Bool :=
  ctx.beside p (ctx.scope.member i) t && !rest.any (ctx.beside p (ctx.scope.member i))

/-- The set with copies of its tuples: for each of the calculated members, behind the last tuple
with a sibling of it, a copy that holds it in place of the sibling. -/
def withCopies (ctx : Context) (p : Nat) (is : List Nat) : TupleSet → TupleSet
  | [] => []
  | t :: rest => t :: (is.filter (ctx.hosts p t rest)).map (fun i => t.set p (.calculated i)) ++
      ctx.withCopies p is rest

theorem withCopies_nil (set : TupleSet) : ctx.withCopies p [] set = set := by
  induction set with
  | nil => rfl
  | cons t rest ih => rw [withCopies, ih]; rfl

/-- A copy with a sibling in place of another has the same siblings. -/
theorem beside_copy (hfits : ctx.Fits) (hi : i < ctx.scope.members.size)
    (hj : j < ctx.scope.members.size) (ht : ctx.HasAll t)
    (hbeside : ctx.beside p (ctx.scope.member j) t = true) :
    ctx.beside p (ctx.scope.member i) (t.set p (.calculated j)) =
      ctx.beside p (ctx.scope.member i) t := by
  obtain ⟨x, hx, hsiblings⟩ := (beside_iff hfits hj ht).1 hbeside
  have hhas : ctx.Has x := ht x (List.mem_of_getElem? hx)
  have hcopy : (t.set p (.calculated j))[p]? = some (.calculated j) :=
    List.getElem?_set_self (List.getElem?_eq_some_iff.1 hx).1
  have hhas' : ctx.Has (.calculated j) := hj
  rw [beside, beside, hcopy, hx, Option.any_some, Option.any_some,
    Bool.eq_iff_iff, isSibling_iff hfits hi hhas', isSibling_iff hfits hi hhas]
  exact ⟨fun h => h.trans hfits hhas' hsiblings, fun h => h.trans hfits hhas hsiblings.symm⟩

theorem any_withCopies (hfits : ctx.Fits) (hi : i < ctx.scope.members.size)
    (his : ∀ j ∈ is, j < ctx.scope.members.size) (hhas : ctx.HasSet set) :
    (ctx.withCopies p is set).any (ctx.beside p (ctx.scope.member i)) =
      set.any (ctx.beside p (ctx.scope.member i)) := by
  induction set with
  | nil => rfl
  | cons t rest ih =>
    obtain ⟨ht, hrest⟩ := List.forall_mem_cons.1 hhas
    rw [withCopies, List.any_append, List.any_cons, List.any_cons, ih hrest]
    congr 1
    cases hbeside : ctx.beside p (ctx.scope.member i) t with
    | true => rfl
    | false =>
      rw [Bool.false_or, List.any_eq_false]
      intro u hu
      obtain ⟨j, hj, rfl⟩ := List.mem_map.1 hu
      obtain ⟨hj, hhosts⟩ := List.mem_filter.1 hj
      rw [beside_copy hfits hi (his j hj) ht (Bool.and_eq_true_iff.1 hhosts).1, hbeside]
      exact Bool.false_ne_true

/-- Behind a tuple with a sibling, and behind its copies, there is a place for one more copy. -/
theorem insertCalculated_copies (hfits : ctx.Fits) (hi : i < ctx.scope.members.size)
    (his : ∀ j ∈ is, j < ctx.scope.members.size ∧ ctx.beside p (ctx.scope.member j) t = true)
    (ht : ctx.HasAll t) (hbeside : ctx.beside p (ctx.scope.member i) t = true)
    (habsent : ∀ u ∈ t :: is.map (fun j => t.set p (.calculated j)),
      u[p]? ≠ some (Element.calculated i)) :
    ctx.insertCalculated p (ctx.scope.member i) (.calculated i)
      (t :: is.map fun j => t.set p (.calculated j)) =
        t :: (is ++ [i]).map fun j => t.set p (.calculated j) := by
  rcases is.eq_nil_or_concat' with rfl | ⟨before, j, rfl⟩
  · show ctx.insertCalculated p _ _ ([] ++ t :: []) = [] ++ t :: t.set p (.calculated i) :: []
    exact insertCalculated_eq habsent hbeside fun _ hu => absurd hu List.not_mem_nil
  · obtain ⟨hj, hbeside'⟩ := his j (List.mem_append_right _ (List.mem_singleton_self j))
    have hcopy := (beside_copy hfits hi hj ht hbeside').trans hbeside
    rw [List.map_append, List.map_singleton, ← List.cons_append] at habsent ⊢
    rw [insertCalculated_eq habsent hcopy fun _ hu => absurd hu List.not_mem_nil, List.set_set]
    simp

/-- One more member gets one more copy, behind those of the same tuple. -/
theorem insertCalculated_withCopies (hfits : ctx.Fits) (hi : i < ctx.scope.members.size)
    (his : ∀ j ∈ is, j < ctx.scope.members.size) (hhas : ctx.HasSet set)
    (habsent : ∀ u ∈ ctx.withCopies p is set, u[p]? ≠ some (Element.calculated i)) :
    ctx.insertCalculated p (ctx.scope.member i) (.calculated i) (ctx.withCopies p is set) =
      ctx.withCopies p (is ++ [i]) set := by
  induction set with
  | nil => exact insertCalculated_eq_self fun _ hu => absurd hu List.not_mem_nil
  | cons t rest ih =>
    obtain ⟨ht, hrest⟩ := List.forall_mem_cons.1 hhas
    have hany := any_withCopies (p := p) hfits hi his hrest
    rw [withCopies] at habsent ⊢
    obtain ⟨hfirst, hlater⟩ := List.forall_mem_append.1 habsent
    have ih := ih hrest hlater
    rw [withCopies, List.filter_append]
    -- The member goes behind the last sibling: into the rest if there is one, or else behind the
    -- copies of the first tuple.
    cases hbehind : rest.any (ctx.beside p (ctx.scope.member i)) with
    | true =>
      have hhosts : ctx.hosts p t rest i = false := by
        rw [hosts, hbehind, Bool.not_true, Bool.and_false]
      rw [insertCalculated_append_of_mem habsent (List.any_eq_true.1 (hany.trans hbehind)), ih]
      simp [hhosts]
    | false =>
      have hnone : ∀ u ∈ ctx.withCopies p is rest,
          ctx.beside p (ctx.scope.member i) u = false := by
        simpa using hany.trans hbehind
      have hhosts : ctx.hosts p t rest i = ctx.beside p (ctx.scope.member i) t := by
        rw [hosts, hbehind, Bool.not_false, Bool.and_true]
      rw [insertCalculated_append_of_not_mem habsent hnone, ← ih, insertCalculated_eq_self hnone]
      congr 1
      have hcopies : ∀ j ∈ is.filter (ctx.hosts p t rest),
          j < ctx.scope.members.size ∧ ctx.beside p (ctx.scope.member j) t = true := by
        intro j hj
        obtain ⟨hj, hhosts⟩ := List.mem_filter.1 hj
        exact ⟨his j hj, (Bool.and_eq_true_iff.1 hhosts).1⟩
      cases hbeside : ctx.beside p (ctx.scope.member i) t with
      | true =>
        rw [insertCalculated_copies hfits hi hcopies ht hbeside hfirst]
        simp [hhosts, hbeside]
      | false =>
        rw [insertCalculated_eq_self]
        · simp [hhosts, hbeside]
        · refine List.forall_mem_cons.2 ⟨hbeside, fun u hu => ?_⟩
          obtain ⟨j, hj, rfl⟩ := List.mem_map.1 hu
          obtain ⟨hj, hbeside'⟩ := hcopies j hj
          rw [beside_copy hfits hi hj ht hbeside', hbeside]

/-- Where all members that find a place lie on the facet at one position, they are put in as copies
of the tuples that were there. -/
theorem exists_withCopies (hfits : ctx.Fits) (hnodup : fs.Nodup) (hhas : ctx.HasSet set)
    (hone : ∀ i < ctx.scope.members.size, ctx.Eligible fs set i →
      fs[p]? = some (ctx.facetOf (.calculated i))) {count : Nat}
    (hcount : count ≤ ctx.scope.members.size) :
    ∃ is : List Nat, is.Nodup ∧ (∀ i, i ∈ is ↔ i < count ∧ ctx.Eligible fs set i) ∧
      (List.range count).foldl (ctx.insertNext fs) set = ctx.withCopies p is set := by
  induction count with
  | zero => exact ⟨[], List.nodup_nil, by simp, (withCopies_nil set).symm⟩
  | succ count ih =>
    have hlt : count < ctx.scope.members.size := hcount
    obtain ⟨is, his, hmem, heq⟩ := ih hlt.le
    obtain ⟨entries, hentries, hadded⟩ := exists_added hfits hnodup hhas hlt.le
    rw [List.range_succ, List.foldl_append, List.foldl_cons, List.foldl_nil]
    -- The next definition adds one more copy, or is passed over.
    by_cases hplace : ctx.Eligible fs set count
    · obtain ⟨q, hq, habsent, -⟩ := hadded.eligible_now hfits hlt.le (Nat.le_refl count) hplace
      obtain rfl := position_unique hnodup hq (hone count hlt hplace)
      have hnew : count ∉ is := fun hmem' => Nat.lt_irrefl _ ((hmem count).1 hmem').1
      refine ⟨is ++ [count], ?_, fun i => ?_, ?_⟩
      · exact List.nodup_append'.2 ⟨his, List.nodup_singleton _, by simpa using hnew⟩
      · rw [List.mem_append, List.mem_singleton, hmem, Nat.lt_succ_iff_lt_or_eq]
        constructor
        · rintro (⟨hlt, hi⟩ | rfl)
          · exact ⟨.inl hlt, hi⟩
          · exact ⟨.inr rfl, hplace⟩
        · rintro ⟨hlt | rfl, hi⟩
          · exact .inl ⟨hlt, hi⟩
          · exact .inr rfl
      · rw [insertNext_eq hnodup hq, heq]
        rw [← hentries, heq] at habsent
        exact insertCalculated_withCopies hfits hlt (fun j hj => ((hmem j).1 hj).1.trans hlt) hhas
          habsent
    · refine ⟨is, his, fun i => ?_, ?_⟩
      · rw [hmem]
        refine and_congr_left fun hi => ⟨fun hlt => hlt.trans (Nat.lt_succ_self _), fun hlt => ?_⟩
        exact Nat.lt_of_le_of_ne (Nat.le_of_lt_succ hlt) fun heq => hplace (heq ▸ hi)
      · rw [← heq, hentries]
        exact insertNext_eq_self hfits hlt hnodup (hadded.hasSet hfits hlt.le hhas)
          fun hnow => hplace (hadded.eligible_before hfits hlt.le hnow)

theorem addCalculatedMembers_eq_self (hfits : ctx.Fits) (hhas : ctx.HasSet set) (hnodup : fs.Nodup)
    (hspans : ctx.Spans fs set) (hnone : ∀ i < ctx.scope.members.size, ¬ ctx.Eligible fs set i) :
    ctx.addCalculatedMembers set = set := by
  obtain ⟨is, -, hmem, heq⟩ := exists_withCopies (p := 0) hfits hnodup hhas
    (fun i hi hplace => absurd hplace (hnone i hi)) (Nat.le_refl _)
  obtain rfl : is = [] :=
    List.eq_nil_iff_forall_not_mem.2 fun i hi => hnone i ((hmem i).1 hi).1 ((hmem i).1 hi).2
  rw [addCalculatedMembers_eq hspans, heq, withCopies_nil]

end Context

end CubeQuery
