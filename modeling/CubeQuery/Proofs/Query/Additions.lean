import CubeQuery.Proofs.Query.Formats
import CubeQuery.Proofs.Query.Traversal

/-!
Adding calculated members to a set. One after the other is put behind the last tuple that holds a
sibling of it, and may serve as such a sibling for those that follow. This brings nothing into a set
that was not near it: whatever stands in a tuple that has been put in is a sibling of something that
the set held there before. So a member finds a place when it would have found one in the set as it
was, and a second run finds all of them in theirs.
-/

namespace CubeQuery

open CubeQuery.Language

/-- Of the elements with a property, the last one. -/
theorem exists_last {α : Type} {q : α → Bool} {l : List α} (h : ∃ a ∈ l, q a = true) :
    ∃ before a after, l = before ++ a :: after ∧ q a = true ∧ ∀ b ∈ after, q b = false := by
  induction l with
  | nil => exact absurd h (by simp)
  | cons b l ih =>
    by_cases hlater : ∃ a ∈ l, q a = true
    · obtain ⟨before, a, after, rfl, ha, hafter⟩ := ih hlater
      exact ⟨b :: before, a, after, rfl, ha, hafter⟩
    · have hnone : ∀ a ∈ l, q a = false := by simpa using hlater
      obtain ⟨a, ha, hq⟩ := h
      rcases List.mem_cons.1 ha with rfl | ha
      · exact ⟨[], a, l, rfl, hq, hnone⟩
      · exact absurd ⟨a, ha, hq⟩ hlater

theorem position_unique {fs : List Facet} (hnodup : fs.Nodup) {f : Facet} {p q : Nat}
    (hp : fs[p]? = some f) (hq : fs[q]? = some f) : p = q :=
  (List.getElem?_inj (List.getElem?_eq_some_iff.1 hp).1 hnodup).1 (hp.trans hq.symm)

namespace Context

variable {ctx : Context} {set : TupleSet} {fs : List Facet} {t : Tuple} {e x y z : Element}
  {p i count : Nat}

/-! ### Siblings -/

/-- Elements with the same parent. Measures and calculated measures have none, and are siblings of
each other. -/
def Siblings (ctx : Context) (x y : Element) : Prop :=
  (∃ parent, ctx.parentOf? x = some parent ∧ ctx.parentOf? y = some parent) ∨
    (ctx.facetOf x = .measures ∧ ctx.facetOf y = .measures)

theorem parentOf?_of_measures (hfits : ctx.Fits) (hx : ctx.Has x)
    (h : ctx.facetOf x = .measures) : ctx.parentOf? x = none := by
  cases x with
  | member m => cases h
  | measure m => rfl
  | calculated i =>
    rcases hfits.place_cases hx with ⟨hnone, -⟩ | ⟨parent, -, -, hfacet⟩
    · rw [parentOf?, hnone]
      rfl
    · cases hfacet.symm.trans h

theorem Siblings.symm (h : ctx.Siblings x y) : ctx.Siblings y x :=
  h.imp (fun ⟨parent, hx, hy⟩ => ⟨parent, hy, hx⟩) And.symm

theorem Siblings.trans (hfits : ctx.Fits) (hy : ctx.Has y) (hxy : ctx.Siblings x y)
    (hyz : ctx.Siblings y z) : ctx.Siblings x z := by
  rcases hxy with ⟨parent, hx, hparent⟩ | ⟨hx, hmeasures⟩
  · rcases hyz with ⟨parent', hparent', hz⟩ | ⟨hmeasures, -⟩
    · exact .inl ⟨parent, hx, hz.trans (hparent'.symm.trans hparent)⟩
    · cases (parentOf?_of_measures hfits hy hmeasures).symm.trans hparent
  · rcases hyz with ⟨parent, hparent, -⟩ | ⟨-, hz⟩
    · cases (parentOf?_of_measures hfits hy hmeasures).symm.trans hparent
    · exact .inr ⟨hx, hz⟩

theorem isSibling_iff (hfits : ctx.Fits) (hi : i < ctx.scope.members.size) (hx : ctx.Has x) :
    ctx.isSibling (ctx.scope.member i) x ↔ ctx.Siblings (.calculated i) x := by
  rw [isSibling, Siblings, parentOf?, facetOf]
  rcases hfits.place_cases hi with ⟨hparent, hfacet⟩ | ⟨parent, hparent, -, hfacet⟩
  · simpa [hparent, hfacet] using parentOf?_of_measures hfits hx
  · simp [hparent, hfacet]

/-! ### One member -/

/-- A calculated member has a place in a set of tuples on the given facets: no tuple holds it, and
some tuple holds a sibling of it. -/
def Eligible (ctx : Context) (fs : List Facet) (set : TupleSet) (i : Nat) : Prop :=
  ∃ p : Nat, fs[p]? = some (ctx.facetOf (.calculated i)) ∧
    (∀ t ∈ set, t[p]? ≠ some (Element.calculated i)) ∧
    ∃ t ∈ set, ∃ x, t[p]? = some x ∧ ctx.Siblings (.calculated i) x

/-- The set with one more calculated member. -/
def insertNext (ctx : Context) (fs : List Facet) (set : TupleSet) (i : Nat) : TupleSet :=
  match fs.findIdx? (· = (ctx.scope.member i).facet) with
  | some position => ctx.insertCalculated position (ctx.scope.member i) (.calculated i) set
  | none => set

/-- Whether the tuple holds a sibling of the calculated member, at the position. -/
def beside (ctx : Context) (p : Nat) (m : CalculatedMember) (t : Tuple) : Bool :=
  t[p]?.any (ctx.isSibling m)

theorem insertCalculated_eq_self {m : CalculatedMember}
    (hnone : ∀ u ∈ set, ctx.beside p m u = false) : ctx.insertCalculated p m e set = set := by
  have hfound : set.reverse.findIdx? (ctx.beside p m) = none :=
    List.findIdx?_eq_none_iff.2 fun u hu => hnone u (List.mem_reverse.1 hu)
  unfold beside at hfound
  rw [insertCalculated, hfound]
  exact ite_self _

/-- A member that no tuple holds is put behind the last tuple with a sibling. -/
theorem insertCalculated_eq {m : CalculatedMember} {before after : TupleSet}
    (habsent : ∀ u ∈ before ++ t :: after, u[p]? ≠ some e) (ht : ctx.beside p m t = true)
    (hafter : ∀ u ∈ after, ctx.beside p m u = false) :
    ctx.insertCalculated p m e (before ++ t :: after) =
      before ++ t :: t.set p e :: after := by
  have hholds : (before ++ t :: after).any (fun u => u[p]? == some e) = false :=
    List.any_eq_false.2 fun u hu => by simpa using habsent u hu
  have hnone : after.reverse.findIdx? (ctx.beside p m) = none :=
    List.findIdx?_eq_none_iff.2 fun u hu => hafter u (List.mem_reverse.1 hu)
  have hfound : (before ++ t :: after).reverse.findIdx? (ctx.beside p m) = some after.length := by
    rw [List.reverse_append, List.reverse_cons, List.append_assoc, List.findIdx?_append, hnone,
      List.singleton_append, List.findIdx?_cons, ht]
    simp
  unfold beside at hfound
  rw [insertCalculated, hholds, hfound]
  simp [List.take_append, List.drop_append, List.take_of_length_le, List.drop_of_length_le]

theorem insertCalculated_cases (position : Nat) (m : CalculatedMember) (e : Element)
    (set : TupleSet) :
    (ctx.insertCalculated position m e set = set ∧ ((∃ t ∈ set, t[position]? = some e) ∨
      ∀ t ∈ set, ∀ x, t[position]? = some x → ctx.isSibling m x = false)) ∨
    ∃ before t after x, set = before ++ t :: after ∧
      ctx.insertCalculated position m e set = before ++ t :: t.set position e :: after ∧
      (∀ u ∈ set, u[position]? ≠ some e) ∧ t[position]? = some x ∧ ctx.isSibling m x = true ∧
      ∀ u ∈ after, ∀ y, u[position]? = some y → ctx.isSibling m y = false := by
  have hbeside {u : Tuple} {y : Element} (hy : u[position]? = some y) :
      ctx.beside position m u = ctx.isSibling m y := by
    rw [beside, hy, Option.any_some]
  by_cases hholds : set.any fun t => t[position]? == some e
  · rw [insertCalculated, if_pos hholds]
    obtain ⟨t, ht, heq⟩ := List.any_eq_true.1 hholds
    exact .inl ⟨rfl, .inl ⟨t, ht, by simpa using heq⟩⟩
  · have habsent : ∀ u ∈ set, u[position]? ≠ some e := by simpa using hholds
    by_cases hsibling : ∃ t ∈ set, ctx.beside position m t = true
    · obtain ⟨before, t, after, rfl, ht, hafter⟩ := exists_last hsibling
      obtain ⟨x, hx, hsibling⟩ := (Option.any_eq_true _ _).1 ht
      exact .inr ⟨before, t, after, x, rfl, insertCalculated_eq habsent ht hafter, habsent, hx,
        hsibling, fun u hu y hy => (hbeside hy).symm.trans (hafter u hu)⟩
    · have hnone : ∀ t ∈ set, ctx.beside position m t = false := by simpa using hsibling
      exact .inl ⟨insertCalculated_eq_self hnone,
        .inr fun t ht x hx => (hbeside hx).symm.trans (hnone t ht)⟩

theorem insertNext_eq (hnodup : fs.Nodup) (hp : fs[p]? = some (ctx.facetOf (.calculated i))) :
    ctx.insertNext fs set i =
      ctx.insertCalculated p (ctx.scope.member i) (.calculated i) set := by
  rw [insertNext]
  split
  · next q hq =>
    obtain ⟨hlt, hfacet, -⟩ := List.findIdx?_eq_some_iff_getElem.1 hq
    obtain rfl := position_unique hnodup
      (List.getElem?_eq_some_iff.2 ⟨hlt, of_decide_eq_true hfacet⟩) hp
    rfl
  · next hnone =>
    have := List.findIdx?_eq_none_iff.1 hnone _ (List.mem_of_getElem? hp)
    simp [facetOf] at this

/-- A definition finds its place behind the last tuple with a sibling, or has none. -/
theorem insertNext_cases (hfits : ctx.Fits) (hi : i < ctx.scope.members.size) (hnodup : fs.Nodup)
    (hhas : ctx.HasSet set) :
    (ctx.insertNext fs set i = set ∧ ¬ ctx.Eligible fs set i) ∨
    ∃ (p : Nat) (before : TupleSet) (t : Tuple) (after : TupleSet) (x : Element),
      fs[p]? = some (ctx.facetOf (.calculated i)) ∧ set = before ++ t :: after ∧
      ctx.insertNext fs set i = before ++ t :: t.set p (.calculated i) :: after ∧
      (∀ u ∈ set, u[p]? ≠ some (Element.calculated i)) ∧
      t[p]? = some x ∧ ctx.Siblings (.calculated i) x ∧
      ∀ u ∈ after, ∀ y, u[p]? = some y → ¬ ctx.Siblings (.calculated i) y := by
  have hsibling {u : Tuple} (hu : u ∈ set) {p : Nat} {y : Element} (hy : u[p]? = some y) :
      ctx.isSibling (ctx.scope.member i) y ↔ ctx.Siblings (.calculated i) y :=
    isSibling_iff hfits hi (hhas u hu y (List.mem_of_getElem? hy))
  -- The set need not have a position for the facet of the member.
  by_cases hfacet : ctx.facetOf (.calculated i) ∈ fs
  · obtain ⟨p, hp⟩ := List.mem_iff_getElem?.1 hfacet
    rw [insertNext_eq hnodup hp]
    rcases ctx.insertCalculated_cases p (ctx.scope.member i) (.calculated i) set with
      ⟨hsame, hwhy⟩ | ⟨before, t, after, x, hset, hinsert, habsent, hx, hx', hafter⟩
    · refine .inl ⟨hsame, ?_⟩
      rintro ⟨q, hq, habsent, t, ht, x, hx, hsiblings⟩
      obtain rfl := position_unique hnodup hq hp
      rcases hwhy with ⟨u, hu, hholds⟩ | hnone
      · exact habsent u hu hholds
      · cases ((hsibling ht hx).2 hsiblings).symm.trans (hnone t ht x hx)
    · have ht : t ∈ set := hset ▸ List.mem_append_right _ List.mem_cons_self
      refine .inr ⟨p, before, t, after, x, hp, hset, hinsert, habsent, hx,
        (hsibling ht hx).1 hx', fun u hu y hy hsiblings => ?_⟩
      have hu' : u ∈ set := hset ▸ List.mem_append_right _ (List.mem_cons_of_mem _ hu)
      cases ((hsibling hu' hy).2 hsiblings).symm.trans (hafter u hu y hy)
  · refine .inl ⟨?_, fun ⟨p, hp, _⟩ => hfacet (List.mem_of_getElem? hp)⟩
    have hnone : fs.findIdx? (· = (ctx.scope.member i).facet) = none :=
      List.findIdx?_eq_none_iff.2 fun f hf => decide_eq_false fun heq =>
        hfacet (show (ctx.scope.member i).facet ∈ fs from heq ▸ hf)
    rw [insertNext, hnone]

theorem insertNext_eq_self (hfits : ctx.Fits) (hi : i < ctx.scope.members.size)
    (hnodup : fs.Nodup) (hhas : ctx.HasSet set) (hplace : ¬ ctx.Eligible fs set i) :
    ctx.insertNext fs set i = set := by
  rcases insertNext_cases hfits hi hnodup hhas with
    ⟨hsame, -⟩ | ⟨p, before, t, after, x, hp, hsplit, -, habsent, hx, hsiblings, -⟩
  · exact hsame
  · have ht : t ∈ set := hsplit ▸ List.mem_append_right _ List.mem_cons_self
    exact absurd ⟨p, hp, habsent, t, ht, x, hx, hsiblings⟩ hplace

theorem addCalculatedMembers_eq (hspans : ctx.Spans fs set) : ctx.addCalculatedMembers set =
    (List.range ctx.scope.members.size).foldl (ctx.insertNext fs) set := by
  cases set with
  | nil =>
    refine (List.foldl_fixed' (fun i => ?_) _).symm
    rw [insertNext]
    split
    · rfl
    · rfl
  | cons first rest =>
    rw [addCalculatedMembers, hspans first List.mem_cons_self, zipIdx_members,
      List.foldl_map]
    rfl

/-! ### All members -/

/-- A tuple of a set, with the calculated member it has been put in for, if any. -/
abbrev Entry := Tuple × Option Nat

/-- The members that tuples have been put in for. -/
def newMembers (entries : List Entry) : List Nat :=
  entries.filterMap Prod.snd

/-- A tuple that has been put in holds its member in place of a sibling. -/
def Behind (ctx : Context) (fs : List Facet) (host entry : Entry) : Prop :=
  ∀ i, entry.2 = some i → ∃ p x, fs[p]? = some (ctx.facetOf (.calculated i)) ∧
    host.1[p]? = some x ∧ x ≠ .calculated i ∧ ctx.Siblings (.calculated i) x ∧
    entry.1 = host.1.set p (.calculated i)

/-- Of the siblings of a member that has been put in only those follow that were put in later. -/
def OnlyLater (ctx : Context) (entry later : Entry) : Prop :=
  ∀ i, entry.2 = some i → ∀ x, later.1[0]? = some x → ctx.Siblings (.calculated i) x →
    ∃ j, later.2 = some j ∧ x = .calculated j ∧ i < j

/-- The set when so many definitions have been gone through. -/
structure Added (ctx : Context) (fs : List Facet) (set : TupleSet) (count : Nat)
    (entries : List Entry) : Prop where
  kept : (entries.filter (·.2.isNone)).map Prod.fst = set
  once : (newMembers entries).Nodup
  added : ∀ i, i ∈ newMembers entries ↔ i < count ∧ ctx.Eligible fs set i
  /-- The first tuple is one of the set, so that each new one has a tuple before it. -/
  first : ∀ entry ∈ entries.head?, entry.2 = none
  behind : entries.IsChain (ctx.Behind fs)
  last : fs.length = 1 → entries.Pairwise ctx.OnlyLater

theorem added_zero : ctx.Added fs set 0 (set.map (·, none)) where
  kept := by simp [List.filter_map, Function.comp_def]
  once := by simp [newMembers, List.filterMap_map]
  added := by simp [newMembers, List.filterMap_map]
  first := by simp [List.head?_map]
  behind := (List.pairwise_map.2 (List.pairwise_of_forall fun _ _ _ h => nomatch h)).isChain
  last _ := List.pairwise_map.2 (List.pairwise_of_forall fun _ _ _ h => nomatch h)

namespace Added

variable {entries : List Entry} {entry : Entry}

theorem mem_of_old (h : ctx.Added fs set count entries) (hentry : entry ∈ entries)
    (hold : entry.2 = none) : entry.1 ∈ set := by
  rw [← h.kept]
  exact List.mem_map_of_mem (List.mem_filter.2 ⟨hentry, by simp [hold]⟩)

theorem subset (h : ctx.Added fs set count entries) : set ⊆ entries.map Prod.fst := by
  intro t ht
  rw [← h.kept] at ht
  obtain ⟨entry, hentry, rfl⟩ := List.mem_map.1 ht
  exact List.mem_map_of_mem (List.mem_of_mem_filter hentry)

theorem lt_of_new (h : ctx.Added fs set count entries) (hentry : entry ∈ entries)
    (hnew : entry.2 = some i) : i < count :=
  ((h.added i).1 (List.mem_filterMap.2 ⟨entry, hentry, hnew⟩)).1

/-- A tuple that has been put in has one before it. -/
theorem exists_host (h : ctx.Added fs set count entries) {n : Nat}
    (hentry : entries[n]? = some entry) (hnew : entry.2 = some i) :
    ∃ m host, n = m + 1 ∧ entries[m]? = some host ∧ ctx.Behind fs host entry := by
  cases n with
  | zero =>
    have hold := h.first entry (by rw [List.head?_eq_getElem?, hentry]; rfl)
    cases hold.symm.trans hnew
  | succ m =>
    obtain ⟨hlt, rfl⟩ := List.getElem?_eq_some_iff.1 hentry
    exact ⟨m, entries[m], rfl, List.getElem?_eq_getElem _,
      List.isChain_iff_getElem.1 h.behind m hlt⟩

/-- What stands in a tuple was there in the set, or is a sibling of what was. -/
theorem comes (h : ctx.Added fs set count entries) (hfits : ctx.Fits)
    (hcount : count ≤ ctx.scope.members.size) (hentry : entry ∈ entries)
    (hx : entry.1[p]? = some x) : ∃ t ∈ set, ∃ y, t[p]? = some y ∧
      (x = y ∨ ∃ j < count, x = .calculated j ∧ ctx.Siblings x y) := by
  obtain ⟨n, hn⟩ := List.mem_iff_getElem?.1 hentry
  induction n using Nat.strong_induction_on generalizing entry x with
  | h n ih =>
    cases hnew : entry.2 with
    | none => exact ⟨entry.1, h.mem_of_old hentry hnew, x, hx, .inl rfl⟩
    | some i =>
      obtain ⟨m, host, rfl, hm, hbehind⟩ := h.exists_host hn hnew
      obtain ⟨q, y, -, hy, -, hsiblings, hset⟩ := hbehind i hnew
      have hhost : host ∈ entries := List.mem_of_getElem? hm
      rw [hset] at hx
      by_cases hqp : q = p
      · subst hqp
        rw [List.getElem?_set_self (List.getElem?_eq_some_iff.1 hy).1] at hx
        obtain rfl := Option.some.inj hx
        have hi : i < count := h.lt_of_new hentry hnew
        obtain ⟨t, ht, z, hz, rfl | ⟨j, hj, rfl, hyz⟩⟩ := ih m (Nat.lt_succ_self m) hhost hy hm
        · exact ⟨t, ht, y, hz, .inr ⟨i, hi, rfl, hsiblings⟩⟩
        · have hhas : ctx.Has (.calculated j) := Nat.lt_of_lt_of_le hj hcount
          exact ⟨t, ht, z, hz, .inr ⟨i, hi, rfl, hsiblings.trans hfits hhas hyz⟩⟩
      · rw [List.getElem?_set_ne hqp] at hx
        exact ih m (Nat.lt_succ_self m) hhost hx hm

theorem hasSet (h : ctx.Added fs set count entries) (hfits : ctx.Fits)
    (hcount : count ≤ ctx.scope.members.size) (hhas : ctx.HasSet set) :
    ctx.HasSet (entries.map Prod.fst) := by
  intro u hu x hx
  obtain ⟨entry, hentry, rfl⟩ := List.mem_map.1 hu
  obtain ⟨p, hp⟩ := List.mem_iff_getElem?.1 hx
  obtain ⟨t, ht, y, hy, rfl | ⟨j, hj, rfl, -⟩⟩ := h.comes hfits hcount hentry hp
  · exact hhas t ht x (List.mem_of_getElem? hy)
  · exact Nat.lt_of_lt_of_le hj hcount

/-- What has been put in makes no place for a member that had none. -/
theorem eligible_before (h : ctx.Added fs set count entries) (hfits : ctx.Fits)
    (hcount : count ≤ ctx.scope.members.size)
    (hplace : ctx.Eligible fs (entries.map Prod.fst) i) : ctx.Eligible fs set i := by
  obtain ⟨p, hp, habsent, u, hu, x, hx, hsiblings⟩ := hplace
  refine ⟨p, hp, fun t ht => habsent t (h.subset ht), ?_⟩
  obtain ⟨entry, hentry, rfl⟩ := List.mem_map.1 hu
  obtain ⟨t, ht, y, hy, rfl | ⟨j, hj, rfl, hxy⟩⟩ := h.comes hfits hcount hentry hx
  · exact ⟨t, ht, x, hy, hsiblings⟩
  · have hhas : ctx.Has (.calculated j) := Nat.lt_of_lt_of_le hj hcount
    exact ⟨t, ht, y, hy, hsiblings.trans hfits hhas hxy⟩

/-- It takes no place from the members whose turn has not come. -/
theorem eligible_now (h : ctx.Added fs set count entries) (hfits : ctx.Fits)
    (hcount : count ≤ ctx.scope.members.size) (hi : count ≤ i)
    (hplace : ctx.Eligible fs set i) : ctx.Eligible fs (entries.map Prod.fst) i := by
  obtain ⟨p, hp, habsent, t, ht, x, hx, hsiblings⟩ := hplace
  refine ⟨p, hp, fun u hu hholds => ?_, t, h.subset ht, x, hx, hsiblings⟩
  obtain ⟨entry, hentry, rfl⟩ := List.mem_map.1 hu
  obtain ⟨t, ht, y, hy, rfl | ⟨j, hj, heq, -⟩⟩ := h.comes hfits hcount hentry hholds
  · exact habsent t ht hy
  · obtain rfl := Element.calculated.inj heq
    omega

/-- No member has a place twice. -/
theorem not_eligible (h : ctx.Added fs set count entries) (hnodup : fs.Nodup)
    (hi : i ∈ newMembers entries) : ¬ ctx.Eligible fs (entries.map Prod.fst) i := by
  rintro ⟨p, hp, habsent, -⟩
  obtain ⟨entry, hentry, hnew⟩ := List.mem_filterMap.1 hi
  obtain ⟨n, hn⟩ := List.mem_iff_getElem?.1 hentry
  obtain ⟨m, host, -, -, hbehind⟩ := h.exists_host hn hnew
  obtain ⟨q, x, hq, hx, -, -, hset⟩ := hbehind i hnew
  obtain rfl := position_unique hnodup hq hp
  refine habsent entry.1 (List.mem_map_of_mem hentry) ?_
  rw [hset, List.getElem?_set_self (List.getElem?_eq_some_iff.1 hx).1]

end Added

/-! ### One more tuple -/

section Insertion

variable {before after : List Entry} {host entry next : Entry}

/-- The tuple that is put in for a member behind its host. -/
def hosted (host : Entry) (p i : Nat) : Entry :=
  (host.1.set p (.calculated i), some i)

theorem newMembers_insert : (newMembers (before ++ host :: hosted host p i :: after)).Perm
    (i :: newMembers (before ++ host :: after)) := by
  have hperm := @List.perm_middle _ (hosted host p i) (before ++ [host]) after
  simpa [newMembers, hosted] using hperm.filterMap Prod.snd

/-- Behind the last tuple with a sibling stands none that was put in, as it would hold one too. -/
theorem Behind.old (hfits : ctx.Fits) (h : ctx.Behind fs host next) (hx : host.1[p]? = some x)
    (hhas : ctx.Has x) (hsiblings : ctx.Siblings (.calculated i) x)
    (hnext : ∀ y, next.1[p]? = some y → ¬ ctx.Siblings (.calculated i) y) : next.2 = none := by
  rw [Option.eq_none_iff_forall_ne_some]
  intro j hj
  obtain ⟨q, y, -, hy, -, hsiblings', hset⟩ := h j hj
  rw [hset] at hnext
  by_cases hqp : q = p
  · subst hqp
    obtain rfl := Option.some.inj (hx.symm.trans hy)
    exact hnext _ (List.getElem?_set_self (List.getElem?_eq_some_iff.1 hx).1)
      (hsiblings.trans hfits hhas hsiblings'.symm)
  · exact hnext x (by rwa [List.getElem?_set_ne hqp]) hsiblings

theorem isChain_insert (h : (before ++ host :: after).IsChain (ctx.Behind fs))
    (hentry : ctx.Behind fs host entry)
    (hold : ∀ next, ctx.Behind fs host next → next ∈ after → next.2 = none) :
    (before ++ host :: entry :: after).IsChain (ctx.Behind fs) := by
  obtain ⟨hbefore, hafter⟩ := List.isChain_split.1 h
  obtain ⟨hnext, hafter⟩ := List.isChain_cons.1 hafter
  refine List.isChain_split.2 ⟨hbefore, .cons_cons hentry (hafter.cons fun next hhead j hj => ?_)⟩
  cases (hold next (hnext next hhead) (List.mem_of_mem_head? hhead)).symm.trans hj

theorem pairwise_insert (h : (before ++ host :: after).Pairwise ctx.OnlyLater)
    (hentry : ∀ earlier ∈ before ++ [host], ctx.OnlyLater earlier entry)
    (hafter : ∀ later ∈ after, ctx.OnlyLater entry later) :
    (before ++ host :: entry :: after).Pairwise ctx.OnlyLater := by
  rw [List.append_cons] at h ⊢
  obtain ⟨hbefore, hlater, hboth⟩ := List.pairwise_append.1 h
  refine List.pairwise_append.2 ⟨hbefore, .cons hafter hlater, fun earlier hearlier later hl => ?_⟩
  rcases List.mem_cons.1 hl with rfl | hl
  · exact hentry earlier hearlier
  · exact hboth earlier hearlier later hl

/-- A member that has a place is put there. -/
theorem Added.insert (h : ctx.Added fs set count (before ++ host :: after)) (hfits : ctx.Fits)
    (hcount : count < ctx.scope.members.size) (hhas : ctx.HasSet set)
    (hp : fs[p]? = some (ctx.facetOf (.calculated count)))
    (habsent : ∀ u ∈ (before ++ host :: after).map Prod.fst,
      u[p]? ≠ some (Element.calculated count))
    (hx : host.1[p]? = some x) (hsiblings : ctx.Siblings (.calculated count) x)
    (hafter : ∀ u ∈ after.map Prod.fst, ∀ y, u[p]? = some y →
      ¬ ctx.Siblings (.calculated count) y) :
    ctx.Added fs set (count + 1) (before ++ host :: hosted host p count :: after) where
  kept := by simpa [List.filter_cons, hosted] using h.kept
  once := newMembers_insert.nodup_iff.2 (List.nodup_cons.2
    ⟨fun hmem => Nat.lt_irrefl _ ((h.added count).1 hmem).1, h.once⟩)
  added i := by
    have hhost : host.1 ∈ (before ++ host :: after).map Prod.fst := by simp
    have hplace : ctx.Eligible fs set count :=
      h.eligible_before hfits hcount.le ⟨p, hp, habsent, host.1, hhost, x, hx, hsiblings⟩
    rw [newMembers_insert.mem_iff, List.mem_cons, h.added, Nat.lt_succ_iff_lt_or_eq]
    constructor
    · rintro (rfl | ⟨hlt, hi⟩)
      · exact ⟨.inr rfl, hplace⟩
      · exact ⟨.inl hlt, hi⟩
    · rintro ⟨hlt | rfl, hi⟩
      · exact .inr ⟨hlt, hi⟩
      · exact .inl rfl
  first := by
    have := h.first
    cases before with
    | nil => exact this
    | cons _ _ => exact this
  behind := by
    have hhost : host.1 ∈ (before ++ host :: after).map Prod.fst := by simp
    have hhas' : ctx.Has x := h.hasSet hfits hcount.le hhas _ hhost x (List.mem_of_getElem? hx)
    refine isChain_insert h.behind (fun i hi => ?_) fun next hnext hmem =>
      hnext.old hfits hx hhas' hsiblings (hafter next.1 (List.mem_map_of_mem hmem))
    obtain rfl := Option.some.inj hi
    exact ⟨p, x, hp, hx, fun heq => habsent _ hhost (heq ▸ hx), hsiblings, rfl⟩
  last hlength := by
    -- Among single members the place is the first one.
    have hzero : p = 0 := by
      have := (List.getElem?_eq_some_iff.1 hp).1
      omega
    subst hzero
    refine pairwise_insert (h.last hlength) (fun earlier hearlier i hi y hy _ => ?_)
      fun later hlater i hi y hy hsiblings' => ?_
    · have hlt : 0 < host.1.length := (List.getElem?_eq_some_iff.1 hx).1
      have hmem : earlier ∈ before ++ host :: after := by
        rw [List.append_cons]
        exact List.mem_append_left _ hearlier
      rw [hosted, List.getElem?_set_self hlt] at hy
      exact ⟨count, rfl, (Option.some.inj hy).symm, h.lt_of_new hmem hi⟩
    · obtain rfl := Option.some.inj hi
      exact absurd hsiblings' (hafter later.1 (List.mem_map_of_mem hlater) y hy)

end Insertion

/-! ### All definitions -/

/-- The next definition: its member gets a tuple if it has a place in the set. -/
theorem Added.next {entries : List Entry} (h : ctx.Added fs set count entries) (hfits : ctx.Fits)
    (hcount : count < ctx.scope.members.size) (hnodup : fs.Nodup) (hhas : ctx.HasSet set) :
    ∃ entries', ctx.insertNext fs (entries.map Prod.fst) count = entries'.map Prod.fst ∧
      ctx.Added fs set (count + 1) entries' := by
  rcases insertNext_cases hfits hcount hnodup (h.hasSet hfits hcount.le hhas) with
    ⟨hsame, hnone⟩ | ⟨p, before, t, after, x, hp, hsplit, hinsert, habsent, hx, hsiblings, hafter⟩
  · refine ⟨entries, hsame, { h with added := fun i => (h.added i).trans ?_ }⟩
    refine and_congr_left fun hi => ⟨fun hlt => Nat.lt_succ_of_lt hlt, fun hlt => ?_⟩
    refine Nat.lt_of_le_of_ne (Nat.le_of_lt_succ hlt) fun heq => hnone ?_
    exact h.eligible_now hfits hcount.le (Nat.le_refl count) (heq ▸ hi)
  · obtain ⟨before, rest, rfl, rfl, hrest⟩ := List.map_eq_append_iff.1 hsplit
    obtain ⟨host, after, rfl, rfl, rfl⟩ := List.map_eq_cons_iff.1 hrest
    refine ⟨_, hinsert.trans ?_, h.insert hfits hcount hhas hp habsent hx hsiblings hafter⟩
    simp [hosted]

theorem exists_added (hfits : ctx.Fits) (hnodup : fs.Nodup) (hhas : ctx.HasSet set)
    (hcount : count ≤ ctx.scope.members.size) : ∃ entries,
      (List.range count).foldl (ctx.insertNext fs) set = entries.map Prod.fst ∧
        ctx.Added fs set count entries := by
  induction count with
  | zero => exact ⟨_, by simp [Function.comp_def], added_zero⟩
  | succ count ih =>
    obtain ⟨entries, heq, hadded⟩ := ih (Nat.le_of_succ_le hcount)
    obtain ⟨entries', heq', hadded'⟩ := hadded.next hfits hcount hnodup hhas
    refine ⟨entries', ?_, hadded'⟩
    rw [List.range_succ, List.foldl_append, heq]
    exact heq'

/-- With all definitions gone through, none finds a place any more. -/
theorem Added.insertNext_eq {entries : List Entry}
    (h : ctx.Added fs set ctx.scope.members.size entries) (hfits : ctx.Fits) (hnodup : fs.Nodup)
    (hhas : ctx.HasSet set) (hi : i < ctx.scope.members.size) :
    ctx.insertNext fs (entries.map Prod.fst) i = entries.map Prod.fst := by
  refine insertNext_eq_self hfits hi hnodup (h.hasSet hfits (Nat.le_refl _) hhas) fun hplace => ?_
  have hnew : i ∈ newMembers entries :=
    (h.added i).2 ⟨hi, h.eligible_before hfits (Nat.le_refl _) hplace⟩
  exact h.not_eligible hnodup hnew hplace

/-! ### The set that comes out -/

/-- Calculated members are added to a set as it is: for each that it does not hold, but a sibling of
it, there is one tuple more. The tuple before is the same up to the sibling whose place the member
takes. Among single members no sibling follows but those that have been put in later. To add them
again changes nothing. -/
theorem addCalculatedMembers_inserts {layout : CubeLayout} {catalog : Catalog} {c : Cube}
    {definitions : List Definition} {s : Scope} (hbuild : Cube.build layout catalog = .ok c)
    (hscope : (Scope.ofDefinitions c definitions).result = .ok s)
    (hhas : HasSet ⟨c, s⟩ set) (hnodup : fs.Nodup) (hspans : Spans ⟨c, s⟩ fs set) :
    (∃ entries, addCalculatedMembers ⟨c, s⟩ set = entries.map Prod.fst ∧
      Added ⟨c, s⟩ fs set s.members.size entries) ∧
    addCalculatedMembers ⟨c, s⟩ (addCalculatedMembers ⟨c, s⟩ set) =
      addCalculatedMembers ⟨c, s⟩ set := by
  have hfits := (sound_ofDefinitions (Cube.built_of_build hbuild) hscope).fits
  obtain ⟨entries, heq, hadded⟩ := exists_added hfits hnodup hhas (Nat.le_refl _)
  rw [← addCalculatedMembers_eq hspans] at heq
  refine ⟨⟨entries, heq, hadded⟩, ?_⟩
  rw [addCalculatedMembers_eq (spans_addCalculatedMembers hspans), heq]
  refine List.foldlRecOn (motive := (· = entries.map Prod.fst)) _ _ rfl fun set hset i hi => ?_
  rw [hset]
  exact hadded.insertNext_eq hfits hnodup hhas (List.mem_range.1 hi)

/-- A share beside the measure, and the rest beside Rome: its tuple stands behind the one that the
share was put in for. -/
theorem addCalculatedMembers_inserts_rest :
    let ctx := Sample.restContext
    let rome : Tuple := [.measure ⟨0⟩, .member ⟨1⟩]
    let fs : List Facet := [.measures, .hierarchy ⟨0⟩]
    (Cube.build Sample.layout Sample.catalog = .ok ctx.cube ∧
      (Scope.ofDefinitions ctx.cube Sample.restReport.definitions).result = .ok ctx.scope ∧
      ctx.HasSet [rome] ∧ fs.Nodup ∧ ctx.Spans fs [rome]) ∧
    (∃ entries, ctx.addCalculatedMembers [rome] = entries.map Prod.fst ∧
      ctx.Added fs [rome] 2 entries) ∧
    ctx.addCalculatedMembers [rome] =
      [rome, [.calculated 0, .member ⟨1⟩], [.calculated 0, .calculated 1]] ∧
    ctx.addCalculatedMembers
      [rome, [.calculated 0, .member ⟨1⟩], [.calculated 0, .calculated 1]] =
      [rome, [.calculated 0, .member ⟨1⟩], [.calculated 0, .calculated 1]] := by
  intro ctx rome fs
  have hhas : ctx.HasSet [rome] := by
    refine List.forall_mem_singleton.2 (List.forall_mem_cons.2 ⟨?_, List.forall_mem_singleton.2 ?_⟩)
    · exact show 0 < Sample.cube.measures.size by decide
    · exact show 1 < Sample.cube.members.size by decide
  have hspans : ctx.Spans fs [rome] := by
    unfold Spans
    decide
  have hresult : ctx.addCalculatedMembers [rome] =
      [rome, [.calculated 0, .member ⟨1⟩], [.calculated 0, .calculated 1]] := by decide
  have hnodup : fs.Nodup := by decide
  have hinserts := addCalculatedMembers_inserts Sample.build_eq_cube Sample.ofDefinitions_rest hhas
    hnodup hspans
  have hagain : ctx.addCalculatedMembers (ctx.addCalculatedMembers [rome]) =
      ctx.addCalculatedMembers [rome] := hinserts.2
  rw [hresult] at hagain
  exact ⟨⟨Sample.build_eq_cube, Sample.ofDefinitions_rest, hhas, hnodup, hspans⟩, hinserts.1,
    hresult, hagain⟩

end Context

end CubeQuery
