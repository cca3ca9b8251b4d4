import CubeQuery.Proofs.Query.MirroredSets
import CubeQuery.Proofs.Query.Products

/-!
Set expressions and formulas in scopes that differ in the order of their calculated members. The set
functions are applied to sets that mirror each other, and what they come to does so too, if
calculated members are added only where their order does not show. A formula has one tuple wherever
it has a set, and so it is the same formula in both scopes.
-/

namespace CubeQuery

open CubeQuery.Language Context Noted

namespace Context

mutual

/-- Wherever the expression adds calculated members to a set, their order does not show. -/
def AdditionsOrderFree (ctx : Context) : Expr → Prop
  | .set items => AllAdditionsOrderFree ctx items
  | .tuple items => AllAdditionsOrderFree ctx items
  | .call f arguments => AllAdditionsOrderFree ctx arguments ∧
      (f = .addCalculatedMembers → ∀ e ∈ arguments.head?, (ctx.evalSet e).Gives ctx.OrderFree)
  | .negate e => AdditionsOrderFree ctx e
  | .binary _ left right => AdditionsOrderFree ctx left ∧ AdditionsOrderFree ctx right
  | _ => True

def AllAdditionsOrderFree (ctx : Context) : List Expr → Prop
  | [] => True
  | e :: es => AdditionsOrderFree ctx e ∧ AllAdditionsOrderFree ctx es

end

end Context

/-- The first set is uniform and of the cube and the definitions, and the second mirrors it. -/
structure Reflects (σ : Equiv.Perm ℕ) (ctx : Context) (a a' : TupleSet) : Prop where
  mirrors : Mirrors σ a a'
  has : ctx.HasSet a
  uniform : ctx.Uniform a

/-- The same expressions, with values that mirror each other. -/
def OperandsReflect (σ : Equiv.Perm ℕ) (ctx : Context) : List Operand → List Operand → Prop :=
  List.Forall₂ fun o o' => o.1 = o'.1 ∧ o.2.Relates (Reflects σ ctx) o'.2

variable {σ : Equiv.Perm ℕ} {c : Cube} {s s' : Scope} {a a' b b' set set' : TupleSet}
  {operands operands' : List Operand} {e : Expr} {es : List Expr}

/-! ### Operands -/

theorem map_snd_zip_evalEach (ctx : Context) (es : List Expr) :
    (es.zip (ctx.evalEach es)).map (·.2) = ctx.evalEach es := by
  rw [evalEach_eq_map]
  exact List.map_snd_zip (List.length_map _).le

namespace OperandsReflect

variable {ctx : Context}

/-- At every position both calls have an operand, or neither. -/
theorem getElem? (h : OperandsReflect σ ctx operands operands') (index : ℕ) :
    Option.Rel (fun o o' => o.1 = o'.1 ∧ o.2.Relates (Reflects σ ctx) o'.2) operands[index]?
      operands'[index]? := by
  induction h generalizing index with
  | nil => exact .none
  | cons hfirst _ ih =>
    cases index with
    | zero => exact .some hfirst
    | succ index => exact ih index

theorem relates_argument (h : OperandsReflect σ ctx operands operands') (f : SetFunction)
    (index : ℕ) : (argument f operands index).Relates (Reflects σ ctx)
      (argument f operands' index) := by
  unfold argument
  have hat := h.getElem? index
  generalize operands[index]? = o, operands'[index]? = o' at hat
  cases hat with
  | none => exact relates_fail_left _
  | some hat => exact hat.2

/-- Flags are read off the expressions. -/
theorem relates_flagged (h : OperandsReflect σ ctx operands operands') (f : SetFunction) (index : ℕ)
    (flag : Flag) :
    (flagged f operands index flag).Relates Eq (flagged f operands' index flag) := by
  unfold flagged
  have hat := h.getElem? index
  generalize operands[index]? = o, operands'[index]? = o' at hat
  cases hat with
  | none => exact relates_refl
  | @some o o' hat =>
    obtain ⟨e, value⟩ := o
    obtain ⟨e', value'⟩ := o'
    obtain ⟨rfl, -⟩ : e = e' ∧ _ := hat
    cases e <;> exact relates_refl

theorem values (h : OperandsReflect σ ctx operands operands') :
    List.Forall₂ (Relates (Reflects σ ctx)) (operands.map (·.2)) (operands'.map (·.2)) := by
  rw [List.forall₂_map_left_iff, List.forall₂_map_right_iff]
  exact h.imp fun _ _ => And.right

end OperandsReflect

/-! ### Calls -/

section Calls

theorem relates_crossjoin (ha : Reflects σ ⟨c, s⟩ a a') (hb : Reflects σ ⟨c, s⟩ b b') :
    (Noted.ofResult (crossjoin ⟨c, s⟩ a b)).Relates (Reflects σ ⟨c, s⟩)
      (Noted.ofResult (crossjoin ⟨c, s'⟩ a' b')) := by
  intro set set' hset hset'
  obtain ⟨fs, -, hspans⟩ := ha.uniform
  have hlength : ∀ l ∈ a, l.length = fs.length := by
    intro l hl
    rw [← hspans l hl, Context.facets, List.length_map]
  refine ⟨?_, forall_crossjoin (fun _ _ => HasAll.append) ha.has hb.has hset,
    uniform_crossjoin ha.uniform hb.uniform hset⟩
  rw [eq_product_of_crossjoin hset, eq_product_of_crossjoin hset']
  exact ha.mirrors.product hb.mirrors hlength

theorem relates_crossjoinAll (h : OperandsReflect σ ⟨c, s⟩ operands operands')
    (ha : Reflects σ ⟨c, s⟩ a a') :
    (crossjoinAll ⟨c, s⟩ a operands).Relates (Reflects σ ⟨c, s⟩)
      (crossjoinAll ⟨c, s'⟩ a' operands') := by
  induction h generalizing a a' with
  | nil => exact relates_pure ha
  | cons hfirst _ ih =>
    exact relates_bind hfirst.2 fun b b' hb =>
      relates_bind (relates_crossjoin ha hb) fun joined joined' hjoined => ih hjoined

variable (hr : Renames σ s s') (hs : Sound ⟨c, s⟩) (hs' : Sound ⟨c, s'⟩)
include hr hs

theorem relates_levelArgument (h : OperandsReflect σ ⟨c, s⟩ operands operands') (index : ℕ) :
    (levelArgument ⟨c, s⟩ operands[index]?).Relates Eq
      (levelArgument ⟨c, s'⟩ operands'[index]?) := by
  have hat := h.getElem? index
  generalize operands[index]? = o, operands'[index]? = o' at hat
  cases hat with
  | none => exact relates_refl
  | @some o o' hat =>
    obtain ⟨e, value⟩ := o
    obtain ⟨e', value'⟩ := o'
    obtain ⟨rfl, -⟩ : e = e' ∧ _ := hat
    cases e with
    | path p =>
      refine relates_bind (hr.relates_resolve hs.graph hs.named p) ?_
      rintro r _ rfl
      cases r <;> exact relates_refl
    | _ => exact relates_refl

include hs'

theorem relates_evalCall (f : SetFunction) (h : OperandsReflect σ ⟨c, s⟩ operands operands')
    (hfree : f = .addCalculatedMembers → (argument f operands 0).Gives (OrderFree ⟨c, s⟩)) :
    (evalCall ⟨c, s⟩ f operands).Relates (Mirrors σ) (evalCall ⟨c, s'⟩ f operands') := by
  have harg := h.relates_argument f
  cases f with
  | hierarchize =>
    refine relates_bind (harg 0) fun a a' ha => relates_bind (h.relates_flagged _ _ _) ?_
    rintro post _ rfl
    obtain ⟨fs, -, hspans⟩ := ha.uniform
    exact relates_pure
      (ha.mirrors.hierarchize hr hs.graph hs.fits hs'.fits ha.has hspans post)
  | addCalculatedMembers =>
    intro set set' hset hset'
    obtain ⟨a, ha, hset⟩ := result_bind_eq_ok.1 hset
    obtain ⟨a', ha', hset'⟩ := result_bind_eq_ok.1 hset'
    obtain rfl := Except.ok.inj hset
    obtain rfl := Except.ok.inj hset'
    have hrefl := harg 0 a a' ha ha'
    exact hrefl.mirrors.addCalculatedMembers hr hs.fits hs'.fits hrefl.has hrefl.uniform
      (hfree rfl a ha)
  | drilldownMember =>
    refine relates_bind (harg 0) fun a a' ha => relates_bind (harg 1) fun b b' hb =>
      relates_bind (h.relates_flagged _ _ _) ?_
    rintro recursive _ rfl
    exact relates_pure (ha.mirrors.drilldownMember hb.mirrors recursive)
  | drilldownLevel =>
    refine relates_bind (harg 0) fun a a' ha => relates_bind (relates_levelArgument hr hs h 1) ?_
    rintro level? _ rfl
    exact relates_pure (ha.mirrors.drilldownLevel level?)
  | crossJoin =>
    have htail : OperandsReflect σ ⟨c, s⟩ operands.tail operands'.tail := by
      cases h with
      | nil => exact .nil
      | cons _ hrest => exact hrest
    refine relates_bind (harg 0) fun a a' ha => ?_
    exact fun set set' hset hset' => (relates_crossjoinAll htail ha set set' hset hset').mirrors
  | union =>
    refine relates_bind (relates_sequence h.values) fun sets sets' hsets => ?_
    have hunion : Mirrors σ (union sets) (union sets') :=
      Mirrors.union (hsets.imp fun _ _ => Reflects.mirrors)
    cases h with
    | nil => exact relates_pure hunion
    | cons _ _ => exact relates_bind relates_true fun _ _ _ => relates_pure hunion
  | except =>
    exact relates_bind (harg 0) fun a a' ha => relates_bind (harg 1) fun b b' hb =>
      relates_pure (ha.mirrors.except hb.mirrors)
  | distinct =>
    exact relates_bind (harg 0) fun a a' ha => relates_pure ha.mirrors.distinct

end Calls

/-! ### Expressions -/

section Expressions

variable (hr : Renames σ s s') (hs : Sound ⟨c, s⟩) (hs' : Sound ⟨c, s'⟩)
include hr hs

theorem reflects_of_mirrors (h : (evalSet ⟨c, s⟩ e).Relates (Mirrors σ) (evalSet ⟨c, s'⟩ e)) :
    (evalSet ⟨c, s⟩ e).Relates (Reflects σ ⟨c, s⟩) (evalSet ⟨c, s'⟩ e) := by
  have huniform : UniformScope ⟨c, s⟩ := by
    intro set hset
    rw [hr.sets] at hset
    exact absurd hset (Array.not_mem_empty set)
  exact fun a a' ha ha' =>
    ⟨h a a' ha ha', gives_evalSet hs e a ha, gives_uniform_evalSet hs huniform e a ha⟩

theorem relates_evalProperty (p : Path) (property : Property) :
    (evalProperty ⟨c, s⟩ p property).Relates (Mirrors σ) (evalProperty ⟨c, s'⟩ p property) := by
  refine relates_bind (hr.relates_resolve hs.graph hs.named p) ?_
  rintro r _ rfl
  split
  · rename_i set hset
    split
    · rename_i set' hset'
      exact relates_pure (hr.propertySet? hset hset')
    · exact relates_fail_right _
  · exact relates_fail_left _

omit hr hs in
/-- Each item is a single tuple in both scopes, and so the same one. -/
theorem relates_evalTuple (h : OperandsReflect σ ⟨c, s⟩ operands operands') :
    (evalTuple operands).Relates (fun t t' => t' = t.map (Element.renamed σ))
      (evalTuple operands') := by
  induction h with
  | nil => exact relates_pure rfl
  | cons hfirst _ ih =>
    refine relates_bind hfirst.2 fun a a' ha => ?_
    split
    · rename_i members
      split
      · rename_i members'
        obtain rfl := ha.mirrors.of_singleton
        refine relates_bind ih ?_
        rintro t _ rfl
        exact relates_pure List.map_append.symm
      · exact relates_fail_right _
    · exact relates_fail_left _

include hs'

theorem relates_evalSet (e : Expr) (hfree : AdditionsOrderFree ⟨c, s⟩ e) :
    (evalSet ⟨c, s⟩ e).Relates (Reflects σ ⟨c, s⟩) (evalSet ⟨c, s'⟩ e) := by
  have heach {es : List Expr} (h : ∀ e ∈ es, AdditionsOrderFree ⟨c, s⟩ e →
      (evalSet ⟨c, s⟩ e).Relates (Reflects σ ⟨c, s⟩) (evalSet ⟨c, s'⟩ e))
      (hfree : AllAdditionsOrderFree ⟨c, s⟩ es) :
      OperandsReflect σ ⟨c, s⟩ (es.zip (evalEach ⟨c, s⟩ es)) (es.zip (evalEach ⟨c, s'⟩ es)) := by
    induction es with
    | nil => exact .nil
    | cons e es ih =>
      obtain ⟨he, hes⟩ := List.forall_mem_cons.1 h
      rw [evalEach, evalEach]
      exact .cons ⟨rfl, he hfree.1⟩ (ih hes hfree.2)
  induction e using evalSet_induction with
  | path p =>
    refine reflects_of_mirrors hr hs ?_
    rw [evalSet, evalSet]
    refine relates_bind (hr.relates_resolve hs.graph hs.named p) ?_
    rintro r _ rfl
    exact relates_pure (.of_eq (hr.referredSet r))
  | property p property =>
    refine reflects_of_mirrors hr hs ?_
    rw [evalSet, evalSet]
    exact relates_evalProperty hr hs p property
  | set items ih =>
    refine reflects_of_mirrors hr hs ?_
    have hitems := (heach ih hfree).values
    rw [map_snd_zip_evalEach, map_snd_zip_evalEach] at hitems
    rw [evalSet, evalSet]
    refine relates_bind (relates_sequence hitems) fun sets sets' hsets => ?_
    refine relates_bind relates_true fun _ _ _ => relates_pure ?_
    exact .flatten (hsets.imp fun _ _ => Reflects.mirrors)
  | tuple items ih =>
    refine reflects_of_mirrors hr hs ?_
    rw [evalSet, evalSet]
    refine relates_bind (relates_evalTuple (heach ih hfree)) ?_
    rintro t _ rfl
    exact relates_bind relates_true fun _ _ _ => relates_pure (mirrors_renamed [t])
  | call f items ih =>
    refine reflects_of_mirrors hr hs ?_
    rw [evalSet, evalSet]
    refine relates_evalCall hr hs hs' f (heach ih hfree.1) fun hf => ?_
    cases items with
    | nil => exact gives_fail _
    | cons e es => exact hfree.2 hf e rfl
  | multiply left right ihl ihr =>
    rw [evalSet, evalSet]
    exact relates_bind (ihl hfree.1) fun a a' ha =>
      relates_bind (ihr hfree.2) fun b b' hb => relates_crossjoin ha hb
  | add left right ihl ihr =>
    refine reflects_of_mirrors hr hs ?_
    rw [evalSet, evalSet]
    refine relates_bind (ihl hfree.1) fun a a' ha => relates_bind (ihr hfree.2) fun b b' hb => ?_
    refine relates_bind relates_true fun _ _ _ => relates_pure ?_
    exact .union (.cons ha.mirrors (.cons hb.mirrors .nil))
  | other e hfail =>
    rw [hfail]
    exact relates_fail_left _

/-! ### Formulas -/

theorem relates_single (e : Expr) (hfree : AdditionsOrderFree ⟨c, s⟩ e) :
    (formula.single ⟨c, s⟩ e).Relates (fun f f' => f' = f.renamed σ)
      (formula.single ⟨c, s'⟩ e) := by
  refine relates_bind (relates_evalSet hr hs hs' e hfree) fun a a' ha => ?_
  split
  · split
    · rw [ha.mirrors.of_singleton]
      exact relates_pure rfl
    · exact relates_fail_right _
  · exact relates_fail_left _

theorem relates_formula (e : Expr) (hfree : AdditionsOrderFree ⟨c, s⟩ e) :
    (Context.formula ⟨c, s⟩ e).Relates (fun f f' => f' = f.renamed σ)
      (Context.formula ⟨c, s'⟩ e) := by
  induction e using formula_induction with
  | number x => exact relates_pure rfl
  | text s => exact relates_pure rfl
  | negate e ih =>
    refine relates_bind (ih hfree) ?_
    rintro f _ rfl
    exact relates_pure rfl
  | binary op left right ihl ihr =>
    refine relates_bind (ihl hfree.1) ?_
    rintro l _ rfl
    refine relates_bind (ihr hfree.2) ?_
    rintro r _ rfl
    exact relates_pure rfl
  | single e heq =>
    rw [heq, heq]
    exact relates_single hr hs hs' e hfree
  | other e hfail =>
    rw [hfail]
    exact relates_fail_left _

end Expressions

end CubeQuery
