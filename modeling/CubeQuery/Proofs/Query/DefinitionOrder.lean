import CubeQuery.Proofs.Query.MirroredEvaluation
import CubeQuery.Proofs.Query.ReadBack

/-!
The order of definitions. A calculated member is declared alike whatever has been declared before
it, since it may neither stand below another one nor share a name, and its formula is read alike in
every order, if calculated members are added to sets only where their order does not show. Scopes
with the same definitions in different orders then agree on the value and the format of every cell.
-/

namespace CubeQuery

open CubeQuery.Language Context Noted

variable {c : Cube} {s s' : Scope} {ds ds' : List MemberDefinition} {d : MemberDefinition}

/-! ### What a definition needs of those before it -/

/-- A name above a calculated member is not that of another one: nothing stands below these. -/
theorem resolve_of_place? {p : Path} {r : Referent} {place : Facet × Option MemberId}
    (hsets : s.sets = #[]) (hr : (resolve ⟨c, s⟩ p).result = .ok r)
    (hplace : place? ⟨c, s⟩ r = some place) : (resolve ⟨c, .empty⟩ p).result = .ok r := by
  have hset : s.findSet? p = none := by
    rw [Scope.findSet?, hsets]
    rfl
  rw [resolve, hset] at hr
  cases hmember : s.findMember? p with
  | some i =>
    rw [hmember] at hr
    obtain rfl := Except.ok.inj hr
    cases hplace
  | none =>
    rw [hmember] at hr
    rw [resolve_empty]
    exact hr

/-- What has been declared before can make a declaration fail, but changes nothing in it. -/
theorem declared_alone {m : CalculatedMember} (hsets : s.sets = #[])
    (h : (declared ⟨c, s⟩ d).result = .ok m) : (declared ⟨c, .empty⟩ d).result = .ok m := by
  unfold declared at h ⊢
  split at h
  · cases h
  · rename_i caption hcaption
    dsimp only at h
    split at h
    · cases h
    · rename_i habove
      obtain ⟨r, hr, h⟩ := result_bind_eq_ok.1 h
      split at h
      · cases h
      · rename_i facet parent? hplace
        split at h
        · cases h
        · rename_i hfree
          have hfree' : ¬ nameTaken ⟨c, .empty⟩ d.path caption facet = true := by
            simp only [nameTaken, Bool.or_eq_true, not_or] at hfree ⊢
            exact ⟨⟨Bool.false_ne_true, hfree.1.2⟩, hfree.2⟩
          dsimp only
          rw [if_neg habove]
          refine result_bind_eq_ok.2 ⟨r, resolve_of_place? hsets hr hplace, ?_⟩
          rw [show place? ⟨c, .empty⟩ r = _ from hplace]
          dsimp only
          rw [if_neg hfree']
          exact h

/-- Drilling down asks for stored members alone. -/
theorem drilldownMember_scope (s s' : Scope) (a targets : TupleSet) (recursive : Bool) :
    drilldownMember ⟨c, s'⟩ a targets recursive = drilldownMember ⟨c, s⟩ a targets recursive := by
  have hdrill (levels : ℕ) (emitted : TupleSet) (t : Tuple) :
      drillTuple ⟨c, s'⟩ targets.flatten a recursive levels emitted t =
        drillTuple ⟨c, s⟩ targets.flatten a recursive levels emitted t := by
    induction levels generalizing emitted t with
    | zero => rfl
    | succ levels ih =>
      rw [drillTuple, drillTuple]
      simp only [ih]
      rfl
  unfold drilldownMember
  simp only [hdrill]
  rfl

theorem crossjoinAll_formulas (s : Scope) (fs : Array Formula) (a : TupleSet)
    (operands : List Operand) : crossjoinAll ⟨c, { s with formulas := fs }⟩ a operands =
      crossjoinAll ⟨c, s⟩ a operands := by
  induction operands generalizing a with
  | nil => rfl
  | cons o rest ih =>
    rw [crossjoinAll, crossjoinAll]
    simp only [ih]
    rfl

/-- What a set comes to does not depend on the formulas that have been read. -/
theorem evalSet_formulas (s : Scope) (fs : Array Formula) (e : Expr) :
    evalSet ⟨c, { s with formulas := fs }⟩ e = evalSet ⟨c, s⟩ e := by
  have heach {es : List Expr}
      (h : ∀ e ∈ es, evalSet ⟨c, { s with formulas := fs }⟩ e = evalSet ⟨c, s⟩ e) :
      evalEach ⟨c, { s with formulas := fs }⟩ es = evalEach ⟨c, s⟩ es := by
    rw [evalEach_eq_map, evalEach_eq_map]
    exact List.map_congr_left h
  induction e using evalSet_induction with
  | path p =>
    rw [evalSet, evalSet]
    rfl
  | property p property =>
    rw [evalSet, evalSet]
    rfl
  | set items ih =>
    rw [evalSet, evalSet, heach ih]
    rfl
  | tuple items ih =>
    rw [evalSet, evalSet, heach ih]
    rfl
  | call f items ih =>
    rw [evalSet, evalSet, heach ih]
    cases f with
    | drilldownMember =>
      simp only [evalCall, drilldownMember_scope s { s with formulas := fs }]
    | crossJoin => simp only [evalCall, crossjoinAll_formulas]
    | _ => rfl
  | multiply left right ihl ihr =>
    rw [evalSet, evalSet, ihl, ihr]
    rfl
  | add left right ihl ihr =>
    rw [evalSet, evalSet, ihl, ihr]
    rfl
  | other e hfail => rw [hfail, hfail]

theorem formula_formulas (s : Scope) (fs : Array Formula) (e : Expr) :
    Context.formula ⟨c, { s with formulas := fs }⟩ e = Context.formula ⟨c, s⟩ e := by
  have hsingle (e : Expr) :
      formula.single ⟨c, { s with formulas := fs }⟩ e = formula.single ⟨c, s⟩ e := by
    rw [formula.single, formula.single, evalSet_formulas]
  induction e using formula_induction with
  | number x => rfl
  | text s => rfl
  | negate e ih => rw [Context.formula, Context.formula, ih]
  | binary op left right ihl ihr => rw [Context.formula, Context.formula, ihl, ihr]
  | single e heq => rw [heq, heq, hsingle]
  | other e hfail => rw [hfail, hfail]

/-! ### What definitions leave in scope -/

/-- The scope has what each of the definitions declares, and nothing else yet. -/
structure DeclaredBy (c : Cube) (ds : List MemberDefinition) (s : Scope) : Prop where
  members : s.members.toList.map Except.ok = ds.map fun d => (declared ⟨c, .empty⟩ d).result
  formulas : s.formulas = #[]
  sets : s.sets = #[]

theorem gives_declareAll (ds : List MemberDefinition) :
    ((ds.map Definition.member).foldlM (Scope.declare c) .empty).Gives (DeclaredBy c ds) := by
  rw [List.foldlM_map]
  refine gives_foldlM_prefix ⟨rfl, rfl, rfl⟩ (fun before s d h => ?_) ds
  refine gives_bind (fun m => declared_alone h.sets) fun m hm => gives_pure ?_
  refine ⟨?_, h.formulas, h.sets⟩
  rw [Array.toList_push, List.map_append, h.members, List.map_append, List.map_singleton,
    List.map_singleton, hm]

/-- The scope has what each of the definitions declares, and the formula of each. -/
structure LeftBy (c : Cube) (ds : List MemberDefinition) (s : Scope) : Prop where
  members : s.members.toList.map Except.ok = ds.map fun d => (declared ⟨c, .empty⟩ d).result
  formulas : s.formulas.toList.map Except.ok =
    ds.map fun d => (Context.formula ⟨c, s⟩ d.expr).result
  sets : s.sets = #[]

theorem gives_readAll (s : Scope) (hformulas : s.formulas = #[]) (ds : List MemberDefinition) :
    ((ds.map Definition.member).foldlM (Scope.read c) s).Gives fun s' =>
      ∃ fs : Array Formula, s' = { s with formulas := fs } ∧
        fs.toList.map Except.ok = ds.map fun d => (Context.formula ⟨c, s⟩ d.expr).result := by
  rw [List.foldlM_map]
  refine gives_foldlM_prefix (P := fun ds s' => ∃ fs : Array Formula,
    s' = { s with formulas := fs } ∧ fs.toList.map Except.ok =
      ds.map fun d => (Context.formula ⟨c, s⟩ d.expr).result) ⟨#[], ?_, rfl⟩ ?_ ds
  · rw [← hformulas]
  · rintro before _ d ⟨fs, rfl, hfs⟩
    refine gives_bind (fun f hf => hf) fun f hf => gives_pure ⟨fs.push f, rfl, ?_⟩
    rw [formula_formulas] at hf
    rw [Array.toList_push, List.map_append, hfs, List.map_append, List.map_singleton,
      List.map_singleton, hf]

theorem leftBy_ofDefinitions (hs : (Scope.ofDefinitions c (ds.map .member)).result = .ok s) :
    LeftBy c ds s := by
  have hgives : (Scope.ofDefinitions c (ds.map .member)).Gives (LeftBy c ds) := by
    refine gives_bind (gives_declareAll ds) fun s hdeclared => ?_
    refine (gives_readAll s hdeclared.formulas ds).mono ?_
    rintro _ ⟨fs, rfl, hfs⟩
    refine ⟨hdeclared.members, ?_, hdeclared.sets⟩
    simp only [formula_formulas]
    exact hfs
  exact hgives s hs

/-! ### The same definitions in another order -/

/-- Where the elements with a property are one at most, the search finds it wherever it has been
moved. -/
theorem findIdx?_reindexed {α : Type} {l l' : List α} {σ : Equiv.Perm ℕ}
    (hσ : ∀ i, l'[σ i]? = l[i]?) {p : α → Bool}
    (honce : l'.Pairwise fun x y => ¬(p x = true ∧ p y = true)) :
    l'.findIdx? p = (l.findIdx? p).map σ := by
  cases hfound : l.findIdx? p with
  | none =>
    refine List.findIdx?_eq_none_iff.2 fun x hx => ?_
    obtain ⟨i, hi⟩ := List.mem_iff_getElem?.1 hx
    obtain ⟨j, rfl⟩ := σ.surjective i
    rw [hσ] at hi
    exact List.findIdx?_eq_none_iff.1 hfound x (List.mem_of_getElem? hi)
  | some i =>
    obtain ⟨hlt, hp, -⟩ := List.findIdx?_eq_some_iff_getElem.1 hfound
    have hat : l'[σ i]? = some l[i] := (hσ i).trans (List.getElem?_eq_getElem hlt)
    obtain ⟨hlt', hget⟩ := List.getElem?_eq_some_iff.1 hat
    refine List.findIdx?_eq_some_iff_getElem.2 ⟨hlt', hget ▸ hp, fun j hj hpj => ?_⟩
    exact List.pairwise_iff_getElem.1 honce j (σ i) (hj.trans hlt') hlt' hj ⟨hpj, hget ▸ hp⟩

/-- Definitions that have been moved leave what they define at the places that they have been moved
to. -/
theorem getElem?_moved {α β : Type} {xs xs' : List β} {f : α → Except Error β} {as as' : List α}
    {σ : Equiv.Perm ℕ} (hσ : ∀ i, as'[σ i]? = as[i]?) (h : xs.map Except.ok = as.map f)
    (h' : xs'.map Except.ok = as'.map f) (i : ℕ) : xs'[σ i]? = xs[i]? := by
  have hinjective : Function.Injective (Except.ok : β → Except Error β) := fun _ _ => Except.ok.inj
  apply Option.map_injective hinjective
  rw [← List.getElem?_map, ← List.getElem?_map, h, h', List.getElem?_map, List.getElem?_map, hσ]

theorem LeftBy.renames (h : LeftBy c ds s) (h' : LeftBy c ds' s') (ho' : OwnKeys c s')
    {σ : Equiv.Perm ℕ} (hσ : ∀ i, ds'[σ i]? = ds[i]?) : Renames σ s s' := by
  have hmembers (i : ℕ) : s'.members.toList[σ i]? = s.members.toList[i]? :=
    getElem?_moved hσ h.members h'.members i
  refine ⟨fun i => ?_, fun p => findIdx?_reindexed hmembers (ho'.apart.imp ?_), h.sets, h'.sets⟩
  · rw [← Array.getElem?_toList, ← Array.getElem?_toList, hmembers]
  · rintro m m' hapart ⟨hm, hm'⟩
    exact hapart ((beq_iff_eq.1 hm).trans (beq_iff_eq.1 hm').symm)

/-- Both scopes have the formula of each definition, and it is the same one. -/
theorem LeftBy.formulas_renamed (h : LeftBy c ds s) (h' : LeftBy c ds' s') (hs : Sound ⟨c, s⟩)
    (hs' : Sound ⟨c, s'⟩) {σ : Equiv.Perm ℕ} (hr : Renames σ s s')
    (hσ : ∀ i, ds'[σ i]? = ds[i]?) (hfree : ∀ d ∈ ds, AdditionsOrderFree ⟨c, s⟩ d.expr) (i : ℕ) :
    s'.formulas[σ i]? = (s.formulas[i]?).map (Formula.renamed σ) := by
  have hat := congrArg (·[i]?) h.formulas
  have hat' := congrArg (·[σ i]?) h'.formulas
  simp only [List.getElem?_map, Array.getElem?_toList, hσ] at hat hat'
  cases hd : ds[i]? with
  | none =>
    rw [hd, Option.map_none, Option.map_eq_none_iff] at hat hat'
    rw [hat, hat']
    rfl
  | some d =>
    rw [hd, Option.map_some, Option.map_eq_some_iff] at hat hat'
    obtain ⟨f, hf, heq⟩ := hat
    obtain ⟨f', hf', heq'⟩ := hat'
    have hsame := relates_formula hr hs hs' d.expr (hfree d (List.mem_of_getElem? hd)) f f'
      heq.symm heq'.symm
    rw [hf, hf', hsame]
    rfl

/-! ### Coordinates that are given by names -/

/-- The element of one scope and that of the other have the same unique name. -/
def SameElement (ctx ctx' : Context) (e e' : Element) : Prop :=
  ctx.Has e ∧ ctx'.Has e' ∧ ctx.uniqueName e = ctx'.uniqueName e'

/-- The choices hold elements with the same unique names. -/
inductive SameChoice (ctx ctx' : Context) : Choice → Choice → Prop
  | one {e e' : Element} (same : SameElement ctx ctx' e e') : SameChoice ctx ctx' (.one e) (.one e')
  | any {es es' : List Element} (same : List.Forall₂ (SameElement ctx ctx') es es') :
    SameChoice ctx ctx' (.any es) (.any es')

/-- The coordinates have the same facets and the same choices, by name. -/
def SameCoordinate (ctx ctx' : Context) (x x' : Coordinate) : Prop :=
  List.Forall₂ (fun slot slot' => slot.1 = slot'.1 ∧ SameChoice ctx ctx' slot.2 slot'.2) x x'

section Coordinates

variable {σ : Equiv.Perm ℕ} (hr : Renames σ s s') (hn : Cube.Named c) (ho' : OwnNames c s')
include hr hn ho'

/-- No two elements of a scope have the same unique name. -/
theorem SameElement.eq_renamed {e e' : Element} (h : SameElement ⟨c, s⟩ ⟨c, s'⟩ e e') :
    e' = e.renamed σ :=
  uniqueName_injective hn ho' h.2.1 (hr.has_iff.2 h.1) (h.2.2.symm.trans (hr.uniqueName e).symm)

theorem SameChoice.eq_renamed {choice choice' : Choice}
    (h : SameChoice ⟨c, s⟩ ⟨c, s'⟩ choice choice') : choice' = choice.renamed σ := by
  cases h with
  | one hsame => rw [hsame.eq_renamed hr hn ho', Choice.renamed]
  | any hsame =>
    rw [Choice.renamed]
    congr 1
    induction hsame with
    | nil => rfl
    | cons hfirst _ ih => rw [List.map_cons, hfirst.eq_renamed hr hn ho', ih]

theorem SameCoordinate.eq_renamed {x x' : Coordinate}
    (h : SameCoordinate ⟨c, s⟩ ⟨c, s'⟩ x x') : x' = x.renamed σ := by
  induction h with
  | nil => rfl
  | @cons slot slot' rest rest' hslot _ ih =>
    rw [ih]
    show slot' :: _ = (slot.1, slot.2.renamed σ) :: Coordinate.renamed σ rest
    rw [← hslot.2.eq_renamed hr hn ho', hslot.1]

end Coordinates

/-! ### A measure and a shop, in both orders -/

namespace Sample

variable {s : Scope}

def restFirstContext : Context :=
  ⟨cube, ⟨#[restMember, shareMember], #[.number 0.25, .number 0.5], #[]⟩⟩

theorem declared_shareBesideRest :
    (Context.declared ⟨cube, ⟨#[restMember], #[], #[]⟩⟩ share).result = .ok shareMember := by
  have hrender : share.path.render = "[Measures].[Share]" := by decide
  have hfree : Context.nameTaken ⟨cube, ⟨#[restMember], #[], #[]⟩⟩ share.path "Share" .measures =
      false :=
    Context.nameTaken_eq_false named (by decide) (by decide) (by decide)
  exact Context.declared_measure rfl hrender (by decide) rfl hfree

theorem ofDefinitions_restFirst :
    (Scope.ofDefinitions cube ([rest, share].map .member)).result =
      .ok restFirstContext.scope :=
  Context.ofDefinitions_eq_ok
    ((Context.foldlM_declare_member (declared_alone rfl declared_rest)).trans
      (Context.foldlM_declare_member declared_shareBesideRest))
    rfl

end Sample

namespace Context

/-- Scopes with the same definitions in different orders agree on the value and the format of every
cell, if no formula adds calculated members to a set where their order shows. -/
theorem cell_independent_of_definition_order {layout : CubeLayout} {catalog : Catalog} {c : Cube}
    (hbuild : Cube.build layout catalog = .ok c) {ds ds' : List MemberDefinition}
    (hperm : ds.Perm ds') {s s' : Scope}
    (hs : (Scope.ofDefinitions c (ds.map .member)).result = .ok s)
    (hs' : (Scope.ofDefinitions c (ds'.map .member)).result = .ok s')
    (hfree : ∀ d ∈ ds, AdditionsOrderFree ⟨c, s⟩ d.expr) {x x' : Coordinate}
    (hx : SameCoordinate ⟨c, s⟩ ⟨c, s'⟩ x x') (earlier earlier' : List Coordinate)
    (options : QueryOptions) :
    cellAfter ⟨c, s'⟩ earlier' x' = cellAfter ⟨c, s⟩ earlier x ∧
      cellFormat ⟨c, s'⟩ options x' = cellFormat ⟨c, s⟩ options x := by
  have hb := Cube.built_of_build hbuild
  have hleft := leftBy_ofDefinitions hs
  have hleft' := leftBy_ofDefinitions hs'
  obtain ⟨σ, hσ⟩ := exists_reindexing hperm
  have hr := hleft.renames hleft' (ownKeys_ofDefinitions hs') hσ
  have hformulas := hleft.formulas_renamed hleft' (sound_ofDefinitions hb hs)
    (sound_ofDefinitions hb hs') hr hσ hfree
  obtain rfl := hx.eq_renamed hr hb.named (ownNames_ofDefinitions hs')
  exact ⟨hr.cellAfter hformulas earlier earlier' x, hr.cellFormat options x⟩

/-- The share of the rest, with either of them defined first. -/
theorem cell_independent_of_definition_order_rest :
    let ctx := Sample.restContext
    let ctx' := Sample.restFirstContext
    let x : Coordinate := Sample.restCoordinate
    let x' : Coordinate :=
      [(.measures, .one (.calculated 1)), (.hierarchy ⟨0⟩, .one (.calculated 0))]
    SameCoordinate ctx ctx' x x' ∧ ctx'.cellAfter [] x' = ctx.cellAfter [] x ∧
      ctx'.cellFormat {} x' = ctx.cellFormat {} x := by
  intro ctx ctx' x x'
  have hsame : SameCoordinate ctx ctx' x x' := by
    refine .cons ⟨rfl, .one ⟨?_, ?_, rfl⟩⟩ (.cons ⟨rfl, .one ⟨?_, ?_, rfl⟩⟩ .nil)
    · exact show 0 < 2 by decide
    · exact show 1 < 2 by decide
    · exact show 1 < 2 by decide
    · exact show 0 < 2 by decide
  have hscope : (Scope.ofDefinitions Sample.cube ([Sample.share, Sample.rest].map .member)).result =
      .ok ctx.scope := Sample.ofDefinitions_rest
  have hfree : ∀ d ∈ [Sample.share, Sample.rest], AdditionsOrderFree ctx d.expr := by
    intro d hd
    rcases List.mem_pair.1 hd with rfl | rfl <;> trivial
  exact ⟨hsame, cell_independent_of_definition_order Sample.build_eq_cube (.swap _ _ []) hscope
    Sample.ofDefinitions_restFirst hfree hsame [] [] {}⟩

end Context

/-! ### Where the order shows -/

namespace Sample

def amountPath : Path := ⟨["Measures", "Amount"], 0⟩

def romePath : Path := ⟨["Shop", "Shop", "City", "Rome"], 0⟩

/-- A shop that stands for one of two cells. A share and a rest are added to the tuple of the amount
of Rome; the second of them joins the first, whose own tuple alone is not taken away again. -/
def either : MemberDefinition where
  path := ⟨["Shop", "Shop", "City", "Rome", "Either"], 0⟩
  expr := .tuple [.call .except [
    .call .addCalculatedMembers [.set [.tuple [.path amountPath, .path romePath]]],
    .set [.tuple [.path amountPath, .path romePath], .tuple [.path share.path, .path rest.path]]]]
  format? := none
  solveOrder := 0

def eitherMember : CalculatedMember :=
  ⟨"Either", "[Shop].[Shop].[City].[Rome].[Either]", .hierarchy ⟨0⟩, some ⟨1⟩, none, 0⟩

def eitherContext : Context :=
  ⟨cube, ⟨#[shareMember, restMember, eitherMember],
    #[.number 0.5, .number 0.25, .tuple [.calculated 0, .member ⟨1⟩]], #[]⟩⟩

def eitherContext' : Context :=
  ⟨cube, ⟨#[restMember, shareMember, eitherMember],
    #[.number 0.25, .number 0.5, .tuple [.measure ⟨0⟩, .calculated 0]], #[]⟩⟩

theorem resolve_amount (hmember : s.findMember? amountPath = none)
    (hset : s.findSet? amountPath = none) :
    Context.resolve ⟨cube, s⟩ amountPath = pure (.element (.measure ⟨0⟩)) := by
  have hmeasures : Text.sameName "Measures" "Measures" = true := Text.sameName_refl _
  have hfound : cube.measureByName? "Amount" = some ⟨0⟩ := by decide
  rw [Context.resolve_of_free hmember hset]
  simp only [Context.resolveInCube, amountPath, hmeasures, if_true, Cube.resolveMeasure?, hfound]
  rfl

theorem resolve_romePath (hmember : s.findMember? romePath = none)
    (hset : s.findSet? romePath = none) :
    Context.resolve ⟨cube, s⟩ romePath = pure (.element (.member ⟨1⟩)) := by
  have hhas : cube.Has (.member ⟨1⟩) := show 1 < cube.members.size by decide
  exact resolve_uniqueName rfl (by decide) hhas hmember hset

theorem declared_either (hrome : s.findMember? romePath = none)
    (hmember : s.findMember? either.path = none) (hsets : s.sets = #[]) :
    (Context.declared ⟨cube, s⟩ either).result = .ok eitherMember := by
  have hset : s.findSet? romePath = none := by
    rw [Scope.findSet?, hsets]
    rfl
  have hrender : either.path.render = "[Shop].[Shop].[City].[Rome].[Either]" := by decide
  have hfree : Context.nameTaken ⟨cube, s⟩ either.path "Either" (.hierarchy ⟨0⟩) = false :=
    Context.nameTaken_eq_false named hmember (by decide) (by decide)
  have hsegments : either.path.segments = romePath.segments ++ ["Either"] := rfl
  exact Context.declared_eq_ok hsegments (List.cons_ne_nil _ _) hrender
    (resolve_romePath hrome hset) rfl hfree

/-- What the names in the formula denote, wherever the share and the rest are defined. -/
theorem resolve_either {ctx : Context} (i j : ℕ) (hcube : ctx.cube = cube)
    (hamount : ctx.scope.findMember? amountPath = none)
    (hrome : ctx.scope.findMember? romePath = none)
    (hshare : ctx.scope.findMember? share.path = some i)
    (hrest : ctx.scope.findMember? rest.path = some j) (hsets : ctx.scope.sets = #[]) :
    ctx.resolve amountPath = pure (.element (.measure ⟨0⟩)) ∧
      ctx.resolve romePath = pure (.element (.member ⟨1⟩)) ∧
      ctx.resolve share.path = pure (.element (.calculated i)) ∧
      ctx.resolve rest.path = pure (.element (.calculated j)) := by
  obtain ⟨c, s⟩ := ctx
  obtain rfl : c = cube := hcube
  have hset (p : Path) : s.findSet? p = none := by
    rw [Scope.findSet?, hsets]
    rfl
  exact ⟨resolve_amount hamount (hset _), resolve_romePath hrome (hset _),
    Context.resolve_of_defined hshare, Context.resolve_of_defined hrest⟩

theorem formula_either : (Context.formula eitherContext either.expr).result =
    .ok (.tuple [.calculated 0, .member ⟨1⟩]) := by
  obtain ⟨hamount, hrome, hshare, hrest⟩ := @resolve_either eitherContext 0 1 rfl
    (by decide) (by decide) (by decide) (by decide) rfl
  show (Context.formula.single eitherContext (.tuple _)).result = _
  rw [Context.formula.single]
  simp only [evalSet, evalEach, hamount, hrome, hshare, hrest, pure_bind]
  rfl

theorem formula_either' : (Context.formula eitherContext' either.expr).result =
    .ok (.tuple [.measure ⟨0⟩, .calculated 0]) := by
  obtain ⟨hamount, hrome, hshare, hrest⟩ := @resolve_either eitherContext' 1 0 rfl
    (by decide) (by decide) (by decide) (by decide) rfl
  show (Context.formula.single eitherContext' (.tuple _)).result = _
  rw [Context.formula.single]
  simp only [evalSet, evalEach, hamount, hrome, hshare, hrest, pure_bind]
  rfl

theorem ofDefinitions_either :
    (Scope.ofDefinitions cube ([share, rest, either].map .member)).result =
      .ok eitherContext.scope := by
  have heither := declared_either (s := ⟨#[shareMember, restMember], #[], #[]⟩)
    (by decide) (by decide) rfl
  have hformula := formula_either
  rw [eitherContext, ← formula_formulas _ #[.number 0.5, .number 0.25]] at hformula
  refine Context.ofDefinitions_eq_ok ?_ ?_
  · exact (Context.foldlM_declare_member declared_share).trans
      ((Context.foldlM_declare_member declared_rest).trans
        (Context.foldlM_declare_member heither))
  · exact (Context.foldlM_read_member rfl).trans
      ((Context.foldlM_read_member rfl).trans (Context.foldlM_read_member hformula))

theorem ofDefinitions_either' :
    (Scope.ofDefinitions cube ([rest, share, either].map .member)).result =
      .ok eitherContext'.scope := by
  have heither := declared_either (s := ⟨#[restMember, shareMember], #[], #[]⟩)
    (by decide) (by decide) rfl
  have hformula := formula_either'
  rw [eitherContext', ← formula_formulas _ #[.number 0.25, .number 0.5]] at hformula
  refine Context.ofDefinitions_eq_ok ?_ ?_
  · exact (Context.foldlM_declare_member (declared_alone rfl declared_rest)).trans
      ((Context.foldlM_declare_member declared_shareBesideRest).trans
        (Context.foldlM_declare_member heither))
  · exact (Context.foldlM_read_member rfl).trans
      ((Context.foldlM_read_member rfl).trans (Context.foldlM_read_member hformula))

end Sample

namespace Context

/-- The same definitions, a cell given by the same name, and two values. -/
theorem definition_order_matters :
    let ctx := Sample.eitherContext
    let ctx' := Sample.eitherContext'
    let x : Coordinate := [(.hierarchy ⟨0⟩, .one (.calculated 2))]
    Cube.build Sample.layout Sample.catalog = .ok Sample.cube ∧
      [Sample.share, Sample.rest, Sample.either].Perm
        [Sample.rest, Sample.share, Sample.either] ∧
      (Scope.ofDefinitions Sample.cube
        ([Sample.share, Sample.rest, Sample.either].map .member)).result = .ok ctx.scope ∧
      (Scope.ofDefinitions Sample.cube
        ([Sample.rest, Sample.share, Sample.either].map .member)).result = .ok ctx'.scope ∧
      SameCoordinate ctx ctx' x x ∧
      ctx.cellAfter [] x = .ok ⟨.number 0.5, false⟩ ∧
      ctx'.cellAfter [] x = .ok ⟨.number 0.25, false⟩ ∧ (0.5 : Float) ≠ 0.25 := by
  intro ctx ctx' x
  have hhas : Has ctx (.calculated 2) := show 2 < 3 by decide
  have hhas' : Has ctx' (.calculated 2) := show 2 < 3 by decide
  have hb := Cube.built_of_build Sample.build_eq_cube
  have hvalue {s : Scope} {ds : List MemberDefinition} {v : CellValue}
      (hs : (Scope.ofDefinitions Sample.cube (ds.map .member)).result = .ok s)
      (hhas : Has ⟨Sample.cube, s⟩ (.calculated 2))
      (hv : valueWithin ⟨Sample.cube, s⟩ (rowsThrough ⟨Sample.cube, s⟩) (calculationLimit + 1) x =
        .ok v) :
      cellAfter ⟨Sample.cube, s⟩ [] x = .ok v := by
    have hcoordinate : HasCoordinate ⟨Sample.cube, s⟩ x := by
      intro slot hslot e he
      obtain rfl := List.mem_singleton.1 hslot
      obtain rfl := List.mem_singleton.1 he
      exact hhas
    exact (cellAfter_eq hb (sound_ofDefinitions hb hs).fits hcoordinate []).trans hv
  exact ⟨Sample.build_eq_cube, .swap _ _ _, Sample.ofDefinitions_either,
    Sample.ofDefinitions_either', .cons ⟨rfl, .one ⟨hhas, hhas', rfl⟩⟩ .nil,
    hvalue Sample.ofDefinitions_either hhas rfl, hvalue Sample.ofDefinitions_either' hhas' rfl,
    by decide⟩

end Context

end CubeQuery
