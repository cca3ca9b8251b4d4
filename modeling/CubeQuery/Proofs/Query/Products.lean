import CubeQuery.Proofs.Query.Hierarchizing
import Mathlib.Data.List.GetD
import Mathlib.Data.List.Perm.Basic

/-!
Products of sets. The first tuples of two uniform sets tell whether they can be joined, and then the
product lists their tuples as the digits of a number with two places run. Joining is associative,
and sorting a product comes to the same as sorting its factors.
-/

namespace CubeQuery

open CubeQuery.Language

namespace Context

variable {ctx : Context} {post : Bool} {a b d joined : TupleSet} {t u v w : Tuple}
  {fs gs hs : List Facet}

/-! ### The tuples of a product -/

theorem product_nil (a : TupleSet) : product a [] = [] :=
  List.flatMap_eq_nil_iff.2 fun _ _ => rfl

theorem length_product (a b : TupleSet) : (product a b).length = a.length * b.length := by
  simp [product, List.length_flatMap]

theorem getD_product {a b : TupleSet} {p q : Nat} (hp : p < a.length) (hq : q < b.length) :
    (product a b).getD (p * b.length + q) [] = a.getD p [] ++ b.getD q [] := by
  induction a generalizing p with
  | nil => cases hp
  | cons l a ih =>
    rw [product, List.flatMap_cons]
    cases p with
    | zero =>
      rw [Nat.zero_mul, Nat.zero_add, List.getD_append _ _ _ _ (by simpa using hq)]
      simp [hq]
    | succ p =>
      have hsucc : (p + 1) * b.length + q = (p * b.length + q) + b.length := by
        rw [Nat.succ_mul]
        omega
      rw [hsucc, List.getD_append_right _ _ _ _ (by simp)]
      simpa [product] using ih (Nat.lt_of_succ_lt_succ hp)

theorem getElem?_product {i j : Nat} (hi : i < a.length) (hj : j < b.length) :
    (product a b)[i * b.length + j]? = some (a[i] ++ b[j]) := by
  have hlt : i * b.length + j < (product a b).length := by
    rw [length_product]
    calc i * b.length + j
      _ < i * b.length + b.length := Nat.add_lt_add_left hj _
      _ = (i + 1) * b.length := (Nat.succ_mul _ _).symm
      _ ≤ a.length * b.length := Nat.mul_le_mul_right _ hi
  have hat := getD_product hi hj
  rw [List.getD_eq_getElem _ _ hlt, List.getD_eq_getElem _ _ hi, List.getD_eq_getElem _ _ hj] at hat
  rw [List.getElem?_eq_getElem hlt, hat]

theorem product_ne_nil (ha : a ≠ []) (hb : b ≠ []) : product a b ≠ [] := by
  rw [ne_eq, ← List.length_eq_zero_iff, length_product, Nat.mul_eq_zero, List.length_eq_zero_iff,
    List.length_eq_zero_iff]
  exact not_or.2 ⟨ha, hb⟩

theorem product_assoc (a b d : TupleSet) :
    product (product a b) d = product a (product b d) := by
  unfold product
  rw [List.flatMap_assoc]
  refine List.flatMap_congr fun l _ => ?_
  rw [List.flatMap_map, List.map_flatMap]
  refine List.flatMap_congr fun r _ => ?_
  simp [Function.comp_def]

theorem product_perm {a' b' : TupleSet} (ha : a'.Perm a) (hb : b'.Perm b) :
    (product a' b').Perm (product a b) :=
  ha.flatMap fun _ _ => hb.map _

theorem spans_product (ha : ctx.Spans fs a) (hb : ctx.Spans gs b) :
    ctx.Spans (fs ++ gs) (product a b) := by
  intro t ht
  obtain ⟨l, hl, r, hr, rfl⟩ := mem_product.1 ht
  rw [facets_append, ha l hl, hb r hr]

theorem hasSet_product (ha : ctx.HasSet a) (hb : ctx.HasSet b) : ctx.HasSet (product a b) := by
  intro t ht
  obtain ⟨l, hl, r, hr, rfl⟩ := mem_product.1 ht
  exact (ha l hl).append (hb r hr)

/-! ### When sets can be joined -/

theorem apart_iff (ha : a ≠ []) (hb : b ≠ []) (hfs : ctx.Spans fs a) (hgs : ctx.Spans gs b) :
    (∀ l ∈ a, ∀ r ∈ b, (ctx.facets (l ++ r)).Nodup) ↔ (fs ++ gs).Nodup := by
  constructor
  · intro h
    obtain ⟨l, hl⟩ := List.exists_mem_of_ne_nil a ha
    obtain ⟨r, hr⟩ := List.exists_mem_of_ne_nil b hb
    have hlr := h l hl r hr
    rwa [facets_append, hfs l hl, hgs r hr] at hlr
  · intro h l hl r hr
    rwa [facets_append, hfs l hl, hgs r hr]

theorem eq_product_of_crossjoin (h : ctx.crossjoin a b = .ok joined) : joined = product a b := by
  cases a with
  | nil => exact (Except.ok.inj h).symm
  | cons l a =>
    cases b with
    | nil =>
      rw [product_nil]
      exact (Except.ok.inj h).symm
    | cons r b =>
      obtain ⟨_, -, h⟩ := bind_eq_ok_iff.1 h
      exact (Except.ok.inj h).symm

/-- The check of the first tuples decides for all. -/
theorem crossjoin_eq_ok_iff (ha : a ≠ []) (hb : b ≠ []) (hfs : ctx.Spans fs a)
    (hgs : ctx.Spans gs b) :
    ctx.crossjoin a b = .ok joined ↔ (fs ++ gs).Nodup ∧ joined = product a b := by
  obtain ⟨l, a, rfl⟩ := List.exists_cons_of_ne_nil ha
  obtain ⟨r, b, rfl⟩ := List.exists_cons_of_ne_nil hb
  have hfacets : ctx.facets (l ++ r) = fs ++ gs := by
    rw [facets_append, hfs l List.mem_cons_self, hgs r List.mem_cons_self]
  rw [← hfacets, ← checkTuple_eq_ok_iff (v := ()), crossjoin]
  cases ctx.checkTuple (l ++ r) with
  | error e => exact iff_of_false (fun h => nomatch h) fun h => nomatch h.1
  | ok _ => exact ⟨fun h => ⟨rfl, (Except.ok.inj h).symm⟩, fun h => congrArg Except.ok h.2.symm⟩

/-- All three sets have to be apart, in whichever order they are joined. -/
theorem crossjoin_assoc (ha : a ≠ []) (hb : b ≠ []) (hd : d ≠ []) (hfs : ctx.Spans fs a)
    (hgs : ctx.Spans gs b) (hhs : ctx.Spans hs d) :
    (ctx.crossjoin a b >>= fun left => ctx.crossjoin left d) = .ok joined ↔
      (ctx.crossjoin b d >>= fun right => ctx.crossjoin a right) = .ok joined := by
  have hab := product_ne_nil ha hb
  have hbd := product_ne_nil hb hd
  have hspans := spans_product hfs hgs
  have hspans' := spans_product hgs hhs
  constructor
  · intro h
    obtain ⟨left, hleft, h⟩ := bind_eq_ok_iff.1 h
    obtain ⟨-, rfl⟩ := (crossjoin_eq_ok_iff ha hb hfs hgs).1 hleft
    obtain ⟨hall, rfl⟩ := (crossjoin_eq_ok_iff hab hd hspans hhs).1 h
    rw [List.append_assoc] at hall
    have hright := hall.sublist (List.sublist_append_right _ _)
    exact bind_eq_ok_iff.2 ⟨_, (crossjoin_eq_ok_iff hb hd hgs hhs).2 ⟨hright, rfl⟩,
      (crossjoin_eq_ok_iff ha hbd hfs hspans').2 ⟨hall, product_assoc a b d⟩⟩
  · intro h
    obtain ⟨right, hright, h⟩ := bind_eq_ok_iff.1 h
    obtain ⟨-, rfl⟩ := (crossjoin_eq_ok_iff hb hd hgs hhs).1 hright
    obtain ⟨hall, rfl⟩ := (crossjoin_eq_ok_iff ha hbd hfs hspans').1 h
    rw [← List.append_assoc] at hall
    have hleft := hall.sublist (List.sublist_append_left _ _)
    exact bind_eq_ok_iff.2 ⟨_, (crossjoin_eq_ok_iff ha hb hfs hgs).2 ⟨hleft, rfl⟩,
      (crossjoin_eq_ok_iff hab hd hspans hhs).2 ⟨hall, (product_assoc a b d).symm⟩⟩

/-! ### Products in the order of the hierarchies -/

theorem ranks_append_le (h : ctx.ranks post u ≤ ctx.ranks post v) :
    ctx.ranks post (t ++ u) ≤ ctx.ranks post (t ++ v) := by
  induction t with
  | nil => exact h
  | cons e t ih => exact ranks_cons_le.2 (.inr ⟨rfl, ih⟩)

/-- What comes first decides, as long as it is equally long. -/
theorem ranks_append_le_of_lt (hlength : t.length = u.length)
    (h : ctx.ranks post t < ctx.ranks post u) :
    ctx.ranks post (t ++ v) ≤ ctx.ranks post (u ++ w) := by
  induction t generalizing u with
  | nil =>
    obtain rfl := List.length_eq_zero_iff.1 hlength.symm
    exact absurd h (lt_irrefl _)
  | cons e t ih =>
    obtain ⟨e', u, rfl⟩ := List.exists_cons_of_length_eq_add_one hlength.symm
    refine ranks_cons_le.2 ((List.cons_lt_cons_iff.1 h).imp_right fun ⟨hsame, hrest⟩ => ?_)
    exact ⟨hsame, ih (Nat.succ.inj hlength) hrest⟩

/-- The walk through a product goes through the second factor once for each tuple of the first
one. -/
theorem Walked.product {walkedA walkedB : TupleSet} (hg : Cube.Graph ctx.cube) (hfits : ctx.Fits)
    (hhas : ctx.HasSet a) (hfs : ctx.Spans fs a) (hnodup : a.Nodup)
    (ha : ctx.Walked post a walkedA) (hb : ctx.Walked post b walkedB) :
    ctx.Walked post (product a b) (product walkedA walkedB) := by
  refine ⟨product_perm ha.perm hb.perm, ?_⟩
  have hstrict : walkedA.Pairwise fun t u => ctx.ranks post t < ctx.ranks post u := by
    refine (ha.sorted.and (ha.perm.nodup_iff.2 hnodup)).imp_of_mem fun {t u} ht hu h => ?_
    have ht := ha.perm.mem_iff.1 ht
    have hu := ha.perm.mem_iff.1 hu
    refine lt_of_le_of_ne h.1 fun heq => h.2 ?_
    exact ranks_injective hg hfits (hhas t ht) ((hfs u hu).trans (hfs t ht).symm) heq
  refine List.pairwise_flatMap.2 ⟨fun l _ => ?_, hstrict.imp_of_mem fun {l l'} hl hl' hlt => ?_⟩
  · exact List.pairwise_map.2 (hb.sorted.imp ranks_append_le)
  · intro t ht u hu
    obtain ⟨r, -, rfl⟩ := List.mem_map.1 ht
    obtain ⟨r', -, rfl⟩ := List.mem_map.1 hu
    have hlength := congrArg List.length
      ((hfs l (ha.perm.mem_iff.1 hl)).trans (hfs l' (ha.perm.mem_iff.1 hl')).symm)
    rw [facets, facets, List.length_map, List.length_map] at hlength
    exact ranks_append_le_of_lt hlength hlt

/-- The product of the sorted factors is the sorted product, as there is one way only to sort it. -/
theorem hierarchize_product (hg : Cube.Graph ctx.cube) (hfits : ctx.Fits) (hhas : ctx.HasSet a)
    (hhas' : ctx.HasSet b) (hfs : ctx.Spans fs a) (hgs : ctx.Spans gs b) (hnodup : a.Nodup) :
    ctx.hierarchize (product a b) post =
      product (ctx.hierarchize a post) (ctx.hierarchize b post) := by
  have hwalked : ctx.Walked post (product a b)
      (product (ctx.hierarchize a post) (ctx.hierarchize b post)) :=
    (walked_hierarchize hg hfits hhas hfs).product hg hfits hhas hfs hnodup
      (walked_hierarchize hg hfits hhas' hgs)
  have hboth : ctx.HasSet (product a b) := hasSet_product hhas hhas'
  have hspans : ctx.Spans (fs ++ gs) (product a b) := spans_product hfs hgs
  exact hwalked.unique hg hfits hboth hspans (walked_hierarchize hg hfits hboth hspans) (.refl _)

theorem hierarchize_ne_nil (ha : a ≠ []) : ctx.hierarchize a post ≠ [] := by
  obtain ⟨t, ht⟩ := List.exists_mem_of_ne_nil a ha
  exact List.ne_nil_of_mem (mem_hierarchize.2 ht)

theorem spans_hierarchize (hfs : ctx.Spans fs a) : ctx.Spans fs (ctx.hierarchize a post) :=
  fun t ht => hfs t (mem_hierarchize.1 ht)

/-! ### The product of a query -/

/-- A product exists if no two of its members lie on one hierarchy, and lists all pairs, the right
tuples running fastest. Whether three sets are joined from the left or from the right makes no
difference, and neither does whether a product is sorted or its factors are. -/
theorem crossjoin_ordered {layout : CubeLayout} {catalog : Catalog} {c : Cube}
    (hbuild : Cube.build layout catalog = .ok c) {definitions : List Definition} {s : Scope}
    (hscope : (Scope.ofDefinitions c definitions).result = .ok s) {a b d : TupleSet}
    (ha : a ≠ []) (hb : b ≠ []) (hd : d ≠ []) (hua : Uniform ⟨c, s⟩ a) (hub : Uniform ⟨c, s⟩ b)
    (hud : Uniform ⟨c, s⟩ d) :
    ((∃ joined, crossjoin ⟨c, s⟩ a b = .ok joined) ↔
      ∀ l ∈ a, ∀ r ∈ b, (facets ⟨c, s⟩ (l ++ r)).Nodup) ∧
    (∀ joined, crossjoin ⟨c, s⟩ a b = .ok joined → joined.length = a.length * b.length ∧
      ∀ i j (hi : i < a.length) (hj : j < b.length),
        joined[i * b.length + j]? = some (a[i] ++ b[j])) ∧
    (∀ joined, (crossjoin ⟨c, s⟩ a b >>= fun left => crossjoin ⟨c, s⟩ left d) = .ok joined ↔
      (crossjoin ⟨c, s⟩ b d >>= fun right => crossjoin ⟨c, s⟩ a right) = .ok joined) ∧
    (HasSet ⟨c, s⟩ a → HasSet ⟨c, s⟩ b → a.Nodup →
      ∀ joined, crossjoin ⟨c, s⟩ a b = .ok joined → ∀ post,
      crossjoin ⟨c, s⟩ (hierarchize ⟨c, s⟩ a post) (hierarchize ⟨c, s⟩ b post) =
        .ok (hierarchize ⟨c, s⟩ joined post)) := by
  have hb' := Cube.built_of_build hbuild
  have hfits := (sound_ofDefinitions hb' hscope).fits
  have hg : Cube.Graph (Context.mk c s).cube := hb'.graph
  obtain ⟨fs, -, hfs⟩ := hua
  obtain ⟨gs, -, hgs⟩ := hub
  obtain ⟨hs, -, hhs⟩ := hud
  have hjoined {joined : TupleSet} : crossjoin ⟨c, s⟩ a b = .ok joined ↔ _ :=
    crossjoin_eq_ok_iff ha hb hfs hgs
  refine ⟨?_, fun joined h => ?_, fun joined => crossjoin_assoc ha hb hd hfs hgs hhs,
    fun hhas hhas' hnodup joined h post => ?_⟩
  · refine Iff.trans ?_ (apart_iff ha hb hfs hgs).symm
    exact ⟨fun ⟨_, h⟩ => (hjoined.1 h).1, fun h => ⟨_, hjoined.2 ⟨h, rfl⟩⟩⟩
  · obtain ⟨-, rfl⟩ := hjoined.1 h
    exact ⟨length_product a b, fun i j hi hj => getElem?_product hi hj⟩
  · obtain ⟨hapart, rfl⟩ := hjoined.1 h
    rw [hierarchize_product hg hfits hhas hhas' hfs hgs hnodup]
    exact (crossjoin_eq_ok_iff (hierarchize_ne_nil ha) (hierarchize_ne_nil hb)
      (spans_hierarchize hfs) (spans_hierarchize hgs)).2 ⟨hapart, rfl⟩

/-- Both sets are out of order, and so is their product. -/
theorem crossjoin_ordered_games :
    let ctx : Context := ⟨Games.cube, .empty⟩
    let home : TupleSet := [[.member ⟨1⟩], [.member ⟨0⟩]]
    let away : TupleSet := [[.member ⟨5⟩], [.member ⟨3⟩]]
    let goals : TupleSet := [[.measure ⟨0⟩]]
    (home ≠ [] ∧ away ≠ [] ∧ goals ≠ []) ∧ (ctx.HasSet home ∧ ctx.HasSet away) ∧
      (ctx.Uniform home ∧ ctx.Uniform away ∧ ctx.Uniform goals) ∧ home.Nodup ∧
      (product home away).length = 2 * 2 ∧
      (product home away)[1 * 2 + 0]? = some [.member ⟨0⟩, .member ⟨5⟩] ∧
      ctx.crossjoin (ctx.hierarchize home false) (ctx.hierarchize away false) =
        .ok (ctx.hierarchize (product home away) false) := by
  intro ctx home away goals
  have hscope : (Scope.ofDefinitions Games.cube []).result = .ok .empty := rfl
  have hne : home ≠ [] ∧ away ≠ [] ∧ goals ≠ [] := by decide
  have hsize : Games.cube.members.size = 6 := by decide
  have hhome : ctx.HasAll [.member ⟨1⟩, .member ⟨0⟩] := by simp [HasAll, Has, Cube.Has, ctx, hsize]
  have haway : ctx.HasAll [.member ⟨5⟩, .member ⟨3⟩] := by simp [HasAll, Has, Cube.Has, ctx, hsize]
  have hhas : ctx.HasSet home ∧ ctx.HasSet away := ⟨hasSet_map hhome, hasSet_map haway⟩
  have hhomeFacet : ∀ e ∈ [Element.member ⟨1⟩, .member ⟨0⟩], ctx.facetOf e = .hierarchy ⟨0⟩ := by
    decide
  have hawayFacet : ∀ e ∈ [Element.member ⟨5⟩, .member ⟨3⟩], ctx.facetOf e = .hierarchy ⟨1⟩ := by
    decide
  have huniform : ctx.Uniform home ∧ ctx.Uniform away ∧ ctx.Uniform goals :=
    ⟨uniform_map hhomeFacet, uniform_map hawayFacet, uniform_singleton _⟩
  have hnodup : home.Nodup := by decide
  obtain ⟨-, hpairs, -, hsorted⟩ :=
    crossjoin_ordered Games.build_eq_cube hscope hne.1 hne.2.1 hne.2.2
    huniform.1 huniform.2.1 huniform.2.2
  have hjoined : ctx.crossjoin home away = .ok (product home away) := rfl
  obtain ⟨hlength, hat⟩ := hpairs _ hjoined
  exact ⟨hne, hhas, huniform, hnodup, hlength, hat 1 0 (by decide) (by decide),
    hsorted hhas.1 hhas.2 hnodup _ hjoined false⟩

end Context

end CubeQuery
