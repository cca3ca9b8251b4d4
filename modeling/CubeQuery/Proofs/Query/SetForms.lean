import CubeQuery.Proofs.Language.Chains
import CubeQuery.Proofs.Query.Repetitions
import CubeQuery.Proofs.Query.Uniform
import CubeQuery.Query.SetEvaluation
import Mathlib.Data.List.Forall2

/-!
Operators, braces and functions that say the same. A chain of products joins its operands one by one
as the function does. A chain of sums checks and cleans up after every operand, a union once at its
end, and a set in braces before repetitions are left out; all of them come to the same set or fail
together.
-/

namespace CubeQuery

open CubeQuery.Language Noted

theorem Noted.sequence_eq_ok_iff {α : Type} {xs : List (Noted α)} {as : List α} :
    (sequence xs).result = .ok as ↔ List.Forall₂ (fun x a => x.result = .ok a) xs as := by
  induction xs generalizing as with
  | nil =>
    rw [sequence, result_pure, Except.ok.injEq, List.forall₂_nil_left_iff, eq_comm]
  | cons x xs ih =>
    simp only [sequence, result_bind_eq_ok, result_pure, Except.ok.injEq, ih]
    constructor
    · rintro ⟨a, ha, as, has, rfl⟩
      exact .cons ha has
    · rintro (_ | ⟨ha, has⟩)
      exact ⟨_, ha, _, has, rfl⟩

namespace Context

/-- The expressions evaluate to these sets. -/
def Evaluates (ctx : Context) (es : List Expr) (sets : List TupleSet) : Prop :=
  List.Forall₂ (fun e set => (ctx.evalSet e).result = .ok set) es sets

/-- All tuples have their members on the same facets. -/
def SameFacets (ctx : Context) (set : TupleSet) : Prop :=
  ∀ t ∈ set, ∀ u ∈ set, ctx.facets t = ctx.facets u

variable {ctx : Context} {a b set : TupleSet} {sets : List TupleSet} {e e₁ e₂ : Expr}
  {es : List Expr}

/-! ### Checks -/

theorem checkUniform_eq_ok_iff {v : Unit} :
    ctx.checkUniform set e = .ok v ↔ ctx.SameFacets set := by
  unfold checkUniform
  split
  · exact iff_of_true rfl fun _ h => absurd h List.not_mem_nil
  · rename_i first rest
    split
    · rename_i other hfound
      refine iff_of_false (fun h => nomatch h) fun hsame => ?_
      have hdiffers := List.find?_some hfound
      refine of_decide_eq_true hdiffers ?_
      exact hsame _ (List.mem_cons_of_mem _ (List.mem_of_find?_eq_some hfound)) _ List.mem_cons_self
    · rename_i hnone
      have hfirst : ∀ t ∈ first :: rest, ctx.facets t = ctx.facets first := by
        refine List.forall_mem_cons.2 ⟨rfl, fun t ht => ?_⟩
        simpa using List.find?_eq_none.1 hnone t ht
      exact iff_of_true rfl fun t ht u hu => (hfirst t ht).trans (hfirst u hu).symm

theorem SameFacets.mono (h : ctx.SameFacets b) (hab : ∀ t ∈ a, t ∈ b) : ctx.SameFacets a :=
  fun t ht u hu => h t (hab t ht) u (hab u hu)

theorem sameFacets_distinct : ctx.SameFacets (distinct a) ↔ ctx.SameFacets a :=
  ⟨fun h => h.mono fun _ => List.mem_eraseDups.2, fun h => h.mono fun _ => List.mem_eraseDups.1⟩

/-- A set that is checked is passed on as it is. -/
theorem checked_eq_ok_iff {kept : TupleSet} :
    (ofResult (ctx.checkUniform set e) >>= fun _ => pure kept : Noted TupleSet).result = .ok b ↔
      ctx.SameFacets set ∧ b = kept := by
  rw [result_bind_eq_ok]
  simp only [result_ofResult, checkUniform_eq_ok_iff, exists_const, result_pure, Except.ok.injEq]
  rw [eq_comm (a := b)]

/-! ### Products -/

theorem evalSet_products (e : Expr) (es : List Expr) :
    ctx.evalSet (es.foldl (.binary .multiply) e) =
      ctx.evalSet e >>= fun left => ctx.crossjoinAll left (es.zip (ctx.evalEach es)) := by
  induction es generalizing e with
  | nil => exact (bind_pure _).symm
  | cons e' es ih =>
    rw [List.foldl_cons, ih, evalSet]
    simp only [bind_assoc]
    rfl

theorem evalSet_crossJoin (e : Expr) (es : List Expr) :
    ctx.evalSet (.call .crossJoin (e :: es)) =
      ctx.evalSet e >>= fun left => ctx.crossjoinAll left (es.zip (ctx.evalEach es)) := by
  rw [evalSet]
  rfl

/-! ### Sums -/

theorem evaluates_iff :
    (Noted.sequence (ctx.evalEach es)).result = .ok sets ↔ ctx.Evaluates es sets := by
  rw [evalEach_eq_map, sequence_eq_ok_iff, List.forall₂_map_left_iff]
  rfl

theorem evaluates_concat : ctx.Evaluates (es ++ [e]) sets ↔
    ∃ before last, ctx.Evaluates es before ∧ (ctx.evalSet e).result = .ok last ∧
      sets = before ++ [last] := by
  constructor
  · intro h
    obtain ⟨before, last, rfl⟩ : ∃ before last, sets = before ++ [last] := by
      have hne : sets ≠ [] := by
        rintro rfl
        simpa using h.length_eq
      exact ⟨_, _, (List.dropLast_append_getLast hne).symm⟩
    have hlength : before.length = es.length := by simpa using h.length_eq.symm
    have htake := List.forall₂_take es.length h
    have hdrop := List.forall₂_drop es.length h
    rw [List.take_left, ← hlength, List.take_left] at htake
    rw [List.drop_left, ← hlength, List.drop_left, List.forall₂_cons] at hdrop
    exact ⟨before, last, htake, hdrop.1, rfl⟩
  · rintro ⟨before, last, hbefore, hlast, rfl⟩
    exact List.rel_append hbefore (.cons hlast .nil)

theorem evalSet_union : (ctx.evalSet (.call .union (e :: es))).result = .ok set ↔
    ∃ sets, ctx.Evaluates (e :: es) sets ∧ ctx.SameFacets sets.flatten ∧
      set = distinct sets.flatten := by
  have hvalues : ((e :: es).zip (ctx.evalEach (e :: es))).map (·.2) = ctx.evalEach (e :: es) := by
    rw [evalEach_eq_map]
    exact List.map_snd_zip (by simp)
  rw [evalSet, evalCall, hvalues, result_bind_eq_ok]
  refine exists_congr fun sets => and_congr evaluates_iff ?_
  rw [← sameFacets_distinct]
  exact checked_eq_ok_iff

theorem evalSet_set : (ctx.evalSet (.set es)).result = .ok set ↔
    ∃ sets, ctx.Evaluates es sets ∧ ctx.SameFacets sets.flatten ∧ set = sets.flatten := by
  rw [evalSet, result_bind_eq_ok]
  exact exists_congr fun sets => and_congr evaluates_iff checked_eq_ok_iff

theorem evalSet_distinct : (ctx.evalSet (.call .distinct [.set es])).result = .ok set ↔
    ∃ sets, ctx.Evaluates es sets ∧ ctx.SameFacets sets.flatten ∧ set = distinct sets.flatten := by
  have hcall : (ctx.evalSet (.call .distinct [.set es])).result = .ok set ↔
      ∃ listed, (ctx.evalSet (.set es)).result = .ok listed ∧ distinct listed = set := by
    rw [evalSet]
    exact result_bind_eq_ok.trans
      (exists_congr fun listed => and_congr Iff.rfl (Except.ok.injEq _ _).to_iff)
  rw [hcall]
  constructor
  · rintro ⟨_, hset, rfl⟩
    obtain ⟨sets, hsets, hsame, rfl⟩ := evalSet_set.1 hset
    exact ⟨sets, hsets, hsame, rfl⟩
  · rintro ⟨sets, hsets, hsame, rfl⟩
    exact ⟨_, evalSet_set.2 ⟨sets, hsets, hsame, rfl⟩, rfl⟩

theorem evalSet_sum : (ctx.evalSet (.binary .add e₁ e₂)).result = .ok set ↔
    ∃ a b, (ctx.evalSet e₁).result = .ok a ∧ (ctx.evalSet e₂).result = .ok b ∧
      ctx.SameFacets (a ++ b) ∧ set = distinct (a ++ b) := by
  rw [evalSet, result_bind_eq_ok]
  refine exists_congr fun a => ?_
  rw [result_bind_eq_ok, ← exists_and_left]
  refine exists_congr fun b => ?_
  rw [union_pair, ← sameFacets_distinct, and_left_comm, and_left_comm (a := _ = _)]
  exact and_congr_right fun _ => and_congr_right fun _ => checked_eq_ok_iff

/-- By induction on the operands from the last one: what has been joined is the set of all before,
cleaned up. -/
theorem evalSet_sums :
    (ctx.evalSet (es.foldl (.binary .add) (.binary .add e₁ e₂))).result = .ok set ↔
      ∃ sets, ctx.Evaluates (e₁ :: e₂ :: es) sets ∧ ctx.SameFacets sets.flatten ∧
        set = distinct sets.flatten := by
  induction es using List.reverseRecOn generalizing set with
  | nil =>
    rw [List.foldl_nil, evalSet_sum]
    constructor
    · rintro ⟨a, b, ha, hb, hsame, rfl⟩
      refine ⟨[a, b], .cons ha (.cons hb .nil), ?_⟩
      rw [List.flatten_cons, List.flatten_cons, List.flatten_nil, List.append_nil]
      exact ⟨hsame, rfl⟩
    · rintro ⟨sets, hsets, hsame, rfl⟩
      cases hsets with
      | @cons _ a _ _ ha hrest =>
        cases hrest with
        | @cons _ b _ _ hb hnil =>
          cases hnil
          rw [List.flatten_cons, List.flatten_cons, List.flatten_nil, List.append_nil] at hsame ⊢
          exact ⟨a, b, ha, hb, hsame, rfl⟩
  | append_singleton es e ih =>
    rw [List.foldl_concat, evalSet_sum, ← List.cons_append, ← List.cons_append]
    simp only [evaluates_concat, ih]
    constructor
    · rintro ⟨_, last, ⟨before, hbefore, -, rfl⟩, hlast, hsame, rfl⟩
      refine ⟨_, ⟨before, last, hbefore, hlast, rfl⟩, ?_⟩
      -- To clean up what comes before first makes no difference to the whole.
      rw [List.flatten_concat]
      rw [← sameFacets_distinct, distinct, distinct, eraseDups_append_left] at hsame
      exact ⟨sameFacets_distinct.1 hsame, eraseDups_append_left _ _⟩
    · rintro ⟨_, ⟨before, last, hbefore, hlast, rfl⟩, hsame, rfl⟩
      rw [List.flatten_concat] at hsame ⊢
      refine ⟨_, last, ⟨before, hbefore, hsame.mono fun t => List.mem_append_left last, rfl⟩,
        hlast, ?_⟩
      refine ⟨?_, (eraseDups_append_left _ _).symm⟩
      rw [← sameFacets_distinct, distinct, distinct, eraseDups_append_left]
      exact sameFacets_distinct.2 hsame

/-! ### All forms -/

/-- A chain of products is the function with the same operands, to the last notice and error. A
chain of sums, the union of its operands and the set of all of them without repetitions fail
together or are the same set, which has each tuple once, where it first occurred. Unions and
differences obey the laws of sets. -/
theorem set_forms_agree (ctx : Context) (e₁ e₂ : Expr) (es : List Expr) :
    ctx.evalSet (e₁.grouped ((e₂ :: es).map (Operator.multiply, ·))) =
      ctx.evalSet (.call .crossJoin (e₁ :: e₂ :: es)) ∧
    (∀ set, (ctx.evalSet (e₁.grouped ((e₂ :: es).map (Operator.add, ·)))).result = .ok set ↔
      (ctx.evalSet (.call .union (e₁ :: e₂ :: es))).result = .ok set) ∧
    (∀ set, (ctx.evalSet (.call .union (e₁ :: e₂ :: es))).result = .ok set ↔
      (ctx.evalSet (.call .distinct [.set (e₁ :: e₂ :: es)])).result = .ok set) ∧
    (∀ set, (ctx.evalSet (.call .union (e₁ :: e₂ :: es))).result = .ok set →
      ∃ sets, ctx.Evaluates (e₁ :: e₂ :: es) sets ∧ set.Nodup ∧
        (∀ t, t ∈ set ↔ t ∈ sets.flatten) ∧
        set.Pairwise fun t u => sets.flatten.idxOf t < sets.flatten.idxOf u) ∧
    ∀ a b d : TupleSet, union [union [a, b], d] = union [a, union [b, d]] ∧
      (union [a, a] = distinct a ∧ (a.Nodup → union [a, a] = a)) ∧
      except (except a b) d = except a (b ++ d) ∧
      except (union [a, b]) d = union [except a d, except b d] := by
  refine ⟨?_, fun set => ?_, fun set => ?_, fun set hset => ?_, fun a b d =>
    ⟨union_assoc a b d, ⟨union_self a, fun hnodup => ?_⟩, except_except a b d, except_union a b d⟩⟩
  · rw [Expr.grouped_products, evalSet_products, evalSet_crossJoin]
  · rw [Expr.grouped_sums, List.foldl_cons, evalSet_sums, evalSet_union]
  · rw [evalSet_union, evalSet_distinct]
  · obtain ⟨sets, hsets, -, rfl⟩ := evalSet_union.1 hset
    exact ⟨sets, hsets, nodup_eraseDups _, fun t => List.mem_eraseDups, pairwise_eraseDups _⟩
  · exact (union_self a).trans (eraseDups_eq_self hnodup)

end Context

end CubeQuery
