import CubeQuery.Proofs.Query.Resolving
import CubeQuery.Query.Definitions

/-!
What a definition declares and leaves in scope, when the name above it denotes a place and its own
name is free.
-/

namespace CubeQuery

open CubeQuery.Language Noted Text

namespace Context

variable {ctx : Context} {c : Cube} {s : Scope} {p : Path} {d : MemberDefinition}

theorem resolve_of_free (hmember : ctx.scope.findMember? p = none)
    (hset : ctx.scope.findSet? p = none) : ctx.resolve p = ctx.resolveInCube p := by
  rw [resolve, hmember, hset]

theorem resolve_of_defined {i : Nat} (h : ctx.scope.findMember? p = some i) :
    ctx.resolve p = pure (.element (.calculated i)) := by
  rw [resolve, h]

/-- What a calculated measure is defined on, whatever the cube. -/
theorem resolve_measures {position : Nat} (hmember : s.findMember? ⟨["Measures"], position⟩ = none)
    (hset : s.findSet? ⟨["Measures"], position⟩ = none) :
    resolve ⟨c, s⟩ ⟨["Measures"], position⟩ = pure .measures := by
  have hmeasures : sameName "Measures" "Measures" = true := sameName_refl _
  rw [resolve_of_free hmember hset]
  simp only [resolveInCube, hmeasures, if_true]
  rfl

theorem declared_eq_ok {above : List String} {caption name : String} {r : Referent} {facet : Facet}
    {parent? : Option MemberId} (hsegments : d.path.segments = above ++ [caption])
    (hne : above ≠ []) (hname : d.path.render = name)
    (hresolve : ctx.resolve ⟨above, d.path.position⟩ = pure r)
    (hplace : ctx.place? r = some (facet, parent?))
    (hfree : ctx.nameTaken d.path caption facet = false) :
    (ctx.declared d).result = .ok { caption, uniqueName := name, facet, parent?
                                    format? := d.format?, solveOrder := d.solveOrder } := by
  have hlast : d.path.segments.getLast? = some caption := by
    rw [hsegments, List.getLast?_concat]
  have habove : d.path.segments.dropLast = above := by
    rw [hsegments, List.dropLast_concat]
  simp only [declared, hlast, habove, if_neg hne, result_bind, hresolve, result_pure]
  show Noted.result _ = _
  rw [hplace]
  dsimp only
  rw [if_neg (Bool.eq_false_iff.1 hfree), hname]
  rfl

theorem declared_measure {caption name : String}
    (hsegments : d.path.segments = ["Measures", caption]) (hname : d.path.render = name)
    (hmember : s.findMember? ⟨["Measures"], d.path.position⟩ = none)
    (hset : s.findSet? ⟨["Measures"], d.path.position⟩ = none)
    (hfree : nameTaken ⟨c, s⟩ d.path caption .measures = false) :
    (declared ⟨c, s⟩ d).result =
      .ok ⟨caption, name, .measures, none, d.format?, d.solveOrder⟩ :=
  declared_eq_ok (show _ = ["Measures"] ++ [caption] from hsegments) (List.cons_ne_nil _ _) hname
    (resolve_measures hmember hset) rfl hfree

/-! ### One definition after another -/

theorem foldlM_declare_member {m : CalculatedMember} {definitions : List Definition}
    (h : (declared ⟨c, s⟩ d).result = .ok m) :
    ((Definition.member d :: definitions).foldlM (Scope.declare c) s).result =
      (definitions.foldlM (Scope.declare c) { s with members := s.members.push m }).result := by
  rw [List.foldlM_cons, result_bind, Scope.declare, result_bind, h]
  rfl

theorem foldlM_read_member {f : Formula} {definitions : List Definition}
    (h : (formula ⟨c, s⟩ d.expr).result = .ok f) :
    ((Definition.member d :: definitions).foldlM (Scope.read c) s).result =
      (definitions.foldlM (Scope.read c) { s with formulas := s.formulas.push f }).result := by
  rw [List.foldlM_cons, result_bind, Scope.read, result_bind, h]
  rfl

theorem ofDefinitions_eq_ok {definitions : List Definition}
    (hdeclare : (definitions.foldlM (Scope.declare c) .empty).result =
      .ok { s with formulas := #[] })
    (hread : (definitions.foldlM (Scope.read c) { s with formulas := #[] }).result = .ok s) :
    (Scope.ofDefinitions c definitions).result = .ok s := by
  rw [Scope.ofDefinitions, result_bind, hdeclare]
  exact hread

/-! ### Names of single elements -/

theorem evalSet_calculated {i : Nat} (h : ctx.scope.findMember? p = some i) :
    (ctx.evalSet (.path p)).result = .ok [[.calculated i]] := by
  rw [evalSet, resolve_of_defined h]
  rfl

/-- A name is free if nothing in scope has it, and nothing in the cube in any case. -/
theorem nameTaken_eq_false (hn : Cube.Named c) {caption : String} {facet : Facet}
    (hmember : s.findMember? p = none)
    (hfree : ∀ e ∈ c.entities, lowercase (c.uniqueName e) ≠ lowercase p.render)
    (hmeasure : c.measureByName? caption = none) :
    nameTaken ⟨c, s⟩ p caption facet = false := by
  rw [nameTaken, hmember, hn.find?_eq_none hfree, hmeasure]
  simp

/-- A unique name of the cube, beside definitions with other names. -/
theorem resolve_uniqueName (hn : Cube.Named c) {e : Entity} {first : String} {rest : List String}
    (hsegments : p.segments = first :: rest) (hmeasures : sameName first "Measures" = false)
    (hname : p.render = c.uniqueName e) (he : c.Has e) (hmember : s.findMember? p = none)
    (hset : s.findSet? p = none) : resolve ⟨c, s⟩ p = pure (.ofEntity e) := by
  have hfound := hn.find?_uniqueName he
  rw [← hname] at hfound
  rw [resolve_of_free hmember hset]
  simp only [resolveInCube, hsegments, hmeasures, hfound]
  rfl

/-- A stored measure, beside definitions with other names. -/
theorem evalSet_measure {caption : String} {id : MeasureId}
    (hsegments : p.segments = ["Measures", caption]) (hmember : ctx.scope.findMember? p = none)
    (hset : ctx.scope.findSet? p = none) (hmeasure : ctx.cube.measureByName? caption = some id) :
    (ctx.evalSet (.path p)).result = .ok [[.measure id]] := by
  have hmeasures : sameName "Measures" "Measures" = true := sameName_refl _
  have hresolve : ctx.resolve p = pure (.element (.measure id)) := by
    rw [resolve_of_free hmember hset]
    simp only [resolveInCube, hsegments, hmeasures, if_true, Cube.resolveMeasure?, hmeasure]
    rfl
  rw [evalSet, hresolve]
  rfl

/-- A name in a formula stands for the tuple that it denotes. -/
theorem formula_path {t : Tuple} (h : (ctx.evalSet (.path p)).result = .ok [t]) :
    (ctx.formula (.path p)).result = .ok (.tuple t) := by
  show (formula.single ctx (.path p)).result = _
  rw [formula.single, result_bind, h]
  rfl

theorem formula_binary {op : Operator} {left right : Expr} {l r : Formula}
    (hl : (ctx.formula left).result = .ok l) (hr : (ctx.formula right).result = .ok r) :
    (ctx.formula (.binary op left right)).result = .ok (.binary op l r) := by
  rw [formula, result_bind_eq_ok]
  exact ⟨l, hl, result_bind_eq_ok.2 ⟨r, hr, rfl⟩⟩

end Context

namespace Sample

variable {s : Scope} {p : Path}

/-! ### A measure of a measure -/

def amount : Path := ⟨["Measures", "Amount"], 0⟩

theorem evalSet_amount (hmember : s.findMember? amount = none) (hset : s.findSet? amount = none) :
    (Context.evalSet ⟨cube, s⟩ (.path amount)).result = .ok [[.measure ⟨0⟩]] := by
  have hmeasure : cube.measureByName? "Amount" = some ⟨0⟩ := by decide
  exact Context.evalSet_measure rfl hmember hset hmeasure

/-- A measure that is twice the stored one. -/
def double : MemberDefinition where
  path := ⟨["Measures", "Double"], 0⟩
  expr := .binary .multiply (.path amount) (.number 2.0)
  format? := none
  solveOrder := 0

def doubleMember : CalculatedMember :=
  ⟨"Double", "[Measures].[Double]", .measures, none, none, 0⟩

def doubleFormula : Formula :=
  .binary .multiply (.tuple [.measure ⟨0⟩]) (.number 2.0)

theorem declared_double (hmeasures : s.findMember? ⟨["Measures"], 0⟩ = none)
    (hset : s.findSet? ⟨["Measures"], 0⟩ = none) (hfree : s.findMember? double.path = none) :
    (Context.declared ⟨cube, s⟩ double).result = .ok doubleMember := by
  have hrender : double.path.render = "[Measures].[Double]" := by decide
  have hfree : Context.nameTaken ⟨cube, s⟩ double.path "Double" .measures = false :=
    Context.nameTaken_eq_false named hfree (by decide) (by decide)
  exact Context.declared_measure rfl hrender hmeasures hset hfree

theorem formula_double (hmember : s.findMember? amount = none) (hset : s.findSet? amount = none) :
    (Context.formula ⟨cube, s⟩ double.expr).result = .ok doubleFormula :=
  Context.formula_binary (Context.formula_path (evalSet_amount hmember hset)) rfl

theorem ofDefinitions_double : (Scope.ofDefinitions cube [.member double]).result =
    .ok ⟨#[doubleMember], #[doubleFormula], #[]⟩ :=
  Context.ofDefinitions_eq_ok
    (Context.foldlM_declare_member (declared_double rfl rfl rfl))
    (Context.foldlM_read_member (formula_double (by decide) rfl))

/-! ### Members of the cube -/

/-- A unique name of the sample cube, beside definitions with other names. -/
theorem resolve_uniqueName {e : Entity} {rest : List String}
    (hsegments : p.segments = "Shop" :: rest) (hname : p.render = cube.uniqueName e)
    (he : cube.Has e) (hmember : s.findMember? p = none) (hset : s.findSet? p = none) :
    Context.resolve ⟨cube, s⟩ p = pure (.ofEntity e) := by
  have hmeasures : sameName "Shop" "Measures" = false := by decide
  exact Context.resolve_uniqueName named hsegments hmeasures hname he hmember hset

end Sample

end CubeQuery
