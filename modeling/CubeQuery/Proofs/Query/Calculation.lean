import CubeQuery.Proofs.Query.Declared
import CubeQuery.Proofs.Query.Derivation
import CubeQuery.Proofs.Query.Naming

/-!
The evaluator against the meaning of calculated members. What it gives has a derivation; a value
whose derivation nests no deeper than the limit is found; a chain of references beyond the limit is
refused, and so is one that comes back to where it has been.
-/

namespace CubeQuery

open CubeQuery.Language Noted

namespace Context

/-! ### Formulas of all calculated members -/

section Formulas

variable {c : Cube} {s : Scope}

theorem gives_foldlM_size {σ α : Type} {size : σ → Nat} {weight : α → Nat} {f : σ → α → Noted σ}
    (hf : ∀ s a, (f s a).Gives fun s' => size s' = size s + weight a) (as : List α) (s : σ) :
    (as.foldlM f s).Gives fun s' => size s' = size s + (as.map weight).sum := by
  induction as generalizing s with
  | nil => exact gives_pure rfl
  | cons a as ih =>
    rw [List.foldlM_cons]
    refine gives_bind (hf s a) fun s' hs' => (ih s').mono fun s'' hs'' => ?_
    rw [hs'', hs', List.map_cons, List.sum_cons, Nat.add_assoc]

/-- How many calculated members a definition makes. -/
def membersMade : Definition → Nat
  | .member _ => 1
  | .set _ => 0

theorem gives_declare_size (s : Scope) (d : Definition) : (Scope.declare c s d).Gives fun s' =>
    s'.members.size = s.members.size + membersMade d := by
  cases d with
  | member d => exact gives_bind gives_true fun m _ => gives_pure (Array.size_push _)
  | set d => exact gives_pure rfl

theorem gives_declare_formulas (d : Definition) : (Scope.declare c s d).Gives fun s' =>
    s'.formulas = s.formulas := by
  cases d with
  | member d => exact gives_bind gives_true fun m _ => gives_pure rfl
  | set d => exact gives_pure rfl

theorem gives_read_size (s : Scope) (d : Definition) : (Scope.read c s d).Gives fun s' =>
    s'.formulas.size = s.formulas.size + membersMade d := by
  cases d with
  | member d => exact gives_bind gives_true fun f _ => gives_pure (Array.size_push _)
  | set d =>
    refine gives_bind gives_true fun tuples _ => ?_
    split
    · exact gives_fail _
    · exact gives_pure rfl

/-- Every calculated member has its formula once the definitions have been read. -/
theorem formulas_size {definitions : List Definition}
    (hs : (Scope.ofDefinitions c definitions).result = .ok s) :
    s.formulas.size = s.members.size := by
  have hgives : (Scope.ofDefinitions c definitions).Gives fun s =>
      s.formulas.size = s.members.size := by
    refine gives_bind ((gives_foldlM_size gives_declare_size definitions .empty).and
      (gives_foldlM (fun s d h => (gives_declare_formulas d).mono fun s' h' => h'.trans h)
        definitions (P := (·.formulas = #[])) rfl)) fun declared hdeclared => ?_
    refine ((gives_foldlM_size gives_read_size definitions declared).and
      (gives_foldlM (fun s d h => (gives_read_members d).mono fun s' h' => h'.trans h)
        definitions (P := (·.members = declared.members)) rfl)).mono fun s h => ?_
    rw [h.1, h.2, hdeclared.1, hdeclared.2]
    rfl
  exact hgives s hs

end Formulas

/-! ### Values and derivations -/

variable {ctx : Context}

/-- The refusal to follow references any further. -/
abbrev tooDeep : Error := .evaluation .calculationTooDeep

mutual

/-- A derivation is followed as far as the levels go, by recursion on it. -/
theorem Derivation.valueWithin_eq {coordinate : Coordinate} {v : CellValue}
    (hasc : coordinate.Ascending) :
    (d : ctx.Derivation coordinate v) → (levels : Nat) →
      ctx.valueWithin ctx.rowsThrough levels coordinate =
        if d.nesting < levels then .ok v else .error tooDeep
  | _, 0 => rfl
  | .stored hstored hmeasure, levels + 1 => by
    rw [valueWithin, (leadingCalculated?_eq_none_iff hasc).2 hstored]
    dsimp only
    rw [storedValue, hmeasure]
    rfl
  | .calculated (x := x) hleads hformula value, levels + 1 => by
    rw [valueWithin, (leadingCalculated?_eq_some_iff hasc).2 hleads]
    dsimp only
    rw [hformula]
    dsimp only
    rw [value.formulaValue_eq hasc levels, Derivation.nesting]
    simp only [Nat.lt_succ_iff]
    split
    · cases x <;> rfl
    · rfl

theorem FormulaDerivation.formulaValue_eq {coordinate : Coordinate} {f : Formula} {s : Scalar}
    {measure : String} (hasc : coordinate.Ascending) :
    (d : ctx.FormulaDerivation coordinate f s) → (levels : Nat) →
      ctx.formulaValue (ctx.valueWithin ctx.rowsThrough levels) coordinate measure f =
        if d.nesting ≤ levels then .ok s else .error tooDeep
  | .number x, levels => rfl
  | .text t, levels => rfl
  | .tuple value, levels => by
    rw [formulaValue, value.valueWithin_eq (ascending_place hasc) levels,
      FormulaDerivation.nesting]
    simp only [Nat.succ_le_iff]
    split <;> rfl
  | .negate (x := x) operand, levels => by
    rw [formulaValue, operand.formulaValue_eq hasc levels,
      FormulaDerivation.nesting]
    split
    · cases x <;> rfl
    · rfl
  | .binary left right value, levels => by
    rw [formulaValue, left.formulaValue_eq hasc levels, right.formulaValue_eq hasc levels,
      FormulaDerivation.nesting]
    simp only [Nat.max_le]
    -- The right operand is looked at only when the left one has a value.
    by_cases hleft : left.nesting ≤ levels
    · by_cases hright : right.nesting ≤ levels
      · rw [if_pos hleft, if_pos hright, if_pos ⟨hleft, hright⟩]
        exact Scalar.apply_eq_ok_iff.2 ⟨_, _, _, rfl, rfl, value, rfl⟩
      · rw [if_pos hleft, if_neg hright, if_neg (not_and_of_not_right _ hright)]
        rfl
    · rw [if_neg hleft, if_neg (not_and_of_not_left _ hleft)]
      rfl

end

theorem exists_formulaDerivation {valueAt : Coordinate → Except Error CellValue}
    {coordinate : Coordinate} {f : Formula} (hf : ctx.HasFormula f)
    (hvalueAt : ∀ t v, ctx.HasAll t → valueAt (ctx.place coordinate t) = .ok v →
      ctx.HasValue (ctx.place coordinate t) v)
    {s : Scalar} {measure : String} (hs : ctx.formulaValue valueAt coordinate measure f = .ok s) :
    Nonempty (ctx.FormulaDerivation coordinate f s) := by
  induction f generalizing s with
  | number x =>
    cases hs
    exact ⟨.number x⟩
  | text t =>
    cases hs
    exact ⟨.text t⟩
  | tuple t =>
    obtain ⟨v, hv, hs⟩ := bind_eq_ok_iff.1 hs
    obtain ⟨d⟩ := hvalueAt t v hf hv
    cases hs
    exact ⟨.tuple d⟩
  | negate e ih =>
    obtain ⟨operand, hoperand, hs⟩ := bind_eq_ok_iff.1 hs
    obtain ⟨x, rfl, rfl⟩ := Scalar.negate_eq_ok_iff.1 hs
    obtain ⟨d⟩ := ih hf hoperand
    exact ⟨.negate d⟩
  | binary op left right ihl ihr =>
    obtain ⟨l, hl, hs⟩ := bind_eq_ok_iff.1 hs
    obtain ⟨r, hr, hs⟩ := bind_eq_ok_iff.1 hs
    obtain ⟨x, y, z, rfl, rfl, value, rfl⟩ := Scalar.apply_eq_ok_iff.1 hs
    obtain ⟨dl⟩ := ihl hf.1 hl
    obtain ⟨dr⟩ := ihr hf.2 hr
    exact ⟨.binary dl dr value⟩

/-- A value that the evaluator finds is derived the way it was found. Coordinates that formulas lead
to are ascending and fit again, so that the leading member of each is one with a formula. -/
theorem hasValue_of_valueWithin (hfits : ctx.Fits)
    (hformulas : ctx.scope.formulas.size = ctx.scope.members.size) {levels : Nat}
    {coordinate : Coordinate} (hasc : coordinate.Ascending) (hhas : ctx.HasCoordinate coordinate)
    {v : CellValue} (hv : ctx.valueWithin ctx.rowsThrough levels coordinate = .ok v) :
    ctx.HasValue coordinate v := by
  induction levels generalizing coordinate v with
  | zero => cases hv
  | succ levels ih =>
    rw [valueWithin] at hv
    cases hleading : ctx.leadingCalculated? coordinate with
    | none =>
      rw [hleading] at hv
      obtain ⟨m, hm, hv⟩ := bind_eq_ok_iff.1 hv
      cases hv
      exact ⟨.stored ((leadingCalculated?_eq_none_iff hasc).1 hleading) hm⟩
    | some i =>
      have hleads := (leadingCalculated?_eq_some_iff hasc).1 hleading
      obtain ⟨facet, hslot, -⟩ := id hleads
      -- Every calculated member has a formula, so that the missing one does not arise.
      have hi : i < ctx.scope.formulas.size := by
        rw [hformulas]
        exact hhas _ hslot _ List.mem_cons_self
      have hf := Array.getElem?_eq_getElem hi
      rw [hleading] at hv
      dsimp only at hv
      rw [hf] at hv
      obtain ⟨s, hs, hv⟩ := bind_eq_ok_iff.1 hv
      obtain ⟨d⟩ := exists_formulaDerivation (hfits.formulas _ (Array.getElem_mem hi))
        (fun t v ht => ih (ascending_place hasc) (hhas.place ht)) hs
      cases s with
      | text t => cases hv
      | null =>
        cases hv
        exact ⟨.calculated (x := none) hleads hf d⟩
      | number x =>
        cases hv
        exact ⟨.calculated (x := some x) hleads hf d⟩

/-! ### Chains of references -/

/-- The operands before the refused reference have values, if they are not refused themselves. -/
theorem ComesTo.formulaValue_eq {coordinate : Coordinate} {f : Formula} {t : Tuple}
    (h : ctx.ComesTo coordinate f t) (hasc : coordinate.Ascending) {levels : Nat}
    (ht : ctx.valueWithin ctx.rowsThrough levels (ctx.place coordinate t) = .error tooDeep)
    (measure : String) :
    ctx.formulaValue (ctx.valueWithin ctx.rowsThrough levels) coordinate measure f =
      .error tooDeep := by
  induction h with
  | tuple =>
    rw [formulaValue, ht]
    rfl
  | negate _ ih =>
    rw [formulaValue, ih ht]
    rfl
  | left _ ih =>
    rw [formulaValue, ih ht]
    rfl
  | right left _ ih =>
    rw [formulaValue, left.formulaValue_eq hasc, ih ht]
    split <;> rfl

theorem ReachesIn.valueWithin_eq {n levels : Nat} {coordinate last : Coordinate}
    (h : ctx.ReachesIn n coordinate last) (hasc : coordinate.Ascending) (hle : levels ≤ n) :
    ctx.valueWithin ctx.rowsThrough levels coordinate = .error tooDeep := by
  induction h generalizing levels with
  | refl =>
    obtain rfl := Nat.le_zero.1 hle
    rfl
  | step first _ ih =>
    cases levels with
    | zero => rfl
    | succ levels =>
      obtain ⟨i, f, t, hleads, hf, hcomes, rfl⟩ := first
      have hnext := ih (ascending_place hasc) (Nat.le_of_succ_le_succ hle)
      rw [valueWithin, (leadingCalculated?_eq_some_iff hasc).2 hleads]
      dsimp only
      rw [hf]
      dsimp only
      rw [hcomes.formulaValue_eq hasc hnext]
      rfl

/-! ### What the evaluator gives -/

/-- What a cell evaluates to, after other cells that have left something to remember. -/
def cellAfter (ctx : Context) (earlier : List Coordinate) (coordinate : Coordinate) :
    Except Error CellValue :=
  ((ctx.evalCell coordinate).run.run ((ctx.evalCells earlier).run .empty).2).1

theorem cellAfter_eq {layout : CubeLayout} {catalog : Catalog}
    (hb : Cube.Built layout catalog ctx.cube) (hfits : ctx.Fits) {coordinate : Coordinate}
    (hhas : ctx.HasCoordinate coordinate) (earlier : List Coordinate) :
    ctx.cellAfter earlier coordinate =
      ctx.valueWithin ctx.rowsThrough (calculationLimit + 1) coordinate :=
  (recalls_evalCell coordinate _ (truthful_evalCells earlier)).1.trans (cellValue_eq hb hfits hhas)

end Context

namespace Sample

/-- A measure that is one more than itself. -/
def loop : MemberDefinition where
  path := ⟨["Measures", "Loop"], 0⟩
  expr := .binary .add (.path ⟨["Measures", "Loop"], 0⟩) (.number 1.0)
  format? := none
  solveOrder := 0

def loopMember : CalculatedMember :=
  ⟨"Loop", "[Measures].[Loop]", .measures, none, none, 0⟩

def loopFormula : Formula :=
  .binary .add (.tuple [.calculated 0]) (.number 1.0)

theorem declared_loop : (Context.declared ⟨cube, .empty⟩ loop).result = .ok loopMember := by
  have hrender : loop.path.render = "[Measures].[Loop]" := by decide
  have hfree : Context.nameTaken ⟨cube, .empty⟩ loop.path "Loop" .measures = false :=
    Context.nameTaken_eq_false named rfl (by decide) (by decide)
  exact Context.declared_measure rfl hrender rfl rfl hfree

theorem formula_loop {s : Scope} (h : s.findMember? loop.path = some 0) :
    (Context.formula ⟨cube, s⟩ loop.expr).result = .ok loopFormula :=
  Context.formula_binary (Context.formula_path (Context.evalSet_calculated h)) rfl

theorem ofDefinitions_loop : (Scope.ofDefinitions cube [.member loop]).result =
    .ok ⟨#[loopMember], #[loopFormula], #[]⟩ :=
  Context.ofDefinitions_eq_ok (Context.foldlM_declare_member declared_loop)
    (Context.foldlM_read_member (formula_loop (by decide)))

/-- The measure that leads back to itself, and beside it one that leads to the stored measure. -/
def bothScope : Scope :=
  ⟨#[loopMember, doubleMember], #[loopFormula, doubleFormula], #[]⟩

theorem ofDefinitions_both : (Scope.ofDefinitions cube [.member loop, .member double]).result =
    .ok bothScope := by
  have hdouble := @declared_double ⟨#[loopMember], #[], #[]⟩ (by decide) rfl
    (by decide)
  exact Context.ofDefinitions_eq_ok
    ((Context.foldlM_declare_member declared_loop).trans (Context.foldlM_declare_member hdouble))
    ((Context.foldlM_read_member (formula_loop (by decide))).trans
      (Context.foldlM_read_member (formula_double (by decide) rfl)))

/-- The calculated cell in Rome, and the stored one that its formula refers to. -/
def doubleInRome : Coordinate :=
  [(.measures, .one (.calculated 1)), (.hierarchy ⟨0⟩, .one (.member ⟨1⟩))]

def amountInRome : Coordinate :=
  [(.measures, .one (.measure ⟨0⟩)), (.hierarchy ⟨0⟩, .one (.member ⟨1⟩))]

theorem ascending_doubleInRome : doubleInRome.Ascending := by
  unfold doubleInRome Coordinate.Ascending
  decide

theorem hasCoordinate_doubleInRome : Context.HasCoordinate ⟨cube, bothScope⟩ doubleInRome := by
  intro slot hslot e he
  rcases List.mem_cons.1 hslot with rfl | hslot
  · obtain rfl := List.mem_singleton.1 he
    exact Nat.one_lt_two
  · obtain rfl := List.mem_singleton.1 hslot
    obtain rfl := List.mem_singleton.1 he
    show 1 < cube.members.size
    decide

theorem derivation_amountInRome :
    ∃ d : Context.Derivation ⟨cube, bothScope⟩ amountInRome ⟨.number 2.0, false⟩,
      d.nesting = 0 := by
  have hstored : ∀ f i, (f, Choice.one (.calculated i)) ∉ amountInRome := by
    intro f i hmem
    simp [amountInRome] at hmem
  have hcell : (⟨.number 2.0, false⟩ : CellValue) =
      let rows := Context.rowsThrough ⟨cube, bothScope⟩ amountInRome
      let value := Context.valueOver ⟨cube, bothScope⟩ ⟨0⟩ rows
      ⟨value, rows.isEmpty || value.isNull⟩ := by
    decide +kernel
  rw [hcell]
  exact ⟨.stored hstored rfl, rfl⟩

/-- The stored cell has the sales of Rome, and the formula takes them twice. -/
theorem derivation_doubleInRome :
    ∃ d : Context.Derivation ⟨cube, bothScope⟩ doubleInRome ⟨.number (2.0 * 2.0), false⟩,
      d.nesting = 1 := by
  have hleads : Context.Leads ⟨cube, bothScope⟩ doubleInRome 1 := by
    refine ⟨.measures, List.mem_cons_self, fun g j hj => ?_⟩
    rcases List.mem_cons.1 hj with heq | hj
    · cases heq
      exact .inr ⟨rfl, Nat.le_refl _⟩
    · cases List.mem_singleton.1 hj
  obtain ⟨sales, hnone⟩ := derivation_amountInRome
  let factor : Context.FormulaDerivation ⟨cube, bothScope⟩ doubleInRome (.tuple [.measure ⟨0⟩])
      (Scalar.ofNumber? (some 2.0)) := .tuple (v := ⟨.number 2.0, false⟩) sales
  let twice : Context.FormulaDerivation ⟨cube, bothScope⟩ doubleInRome (.number 2.0)
      (Scalar.ofNumber? (some 2.0)) := .number 2.0
  refine ⟨.calculated hleads rfl (.binary factor twice (.product 2.0 2.0)), ?_⟩
  show max (sales.nesting + 1) 0 = 1
  rw [hnone]
  rfl

end Sample

namespace Context

/-- The meaning of calculated members. What a cell evaluates to is its value; a value whose
references nest up to the limit is what it evaluates to; beyond the limit, and where references come
back to a coordinate that they have left, it is refused. -/
theorem cellAfter_meaning {layout : CubeLayout} {catalog : Catalog} {c : Cube}
    (hbuild : Cube.build layout catalog = .ok c) {definitions : List Definition} {s : Scope}
    (hscope : (Scope.ofDefinitions c definitions).result = .ok s) {coordinate : Coordinate}
    (hasc : coordinate.Ascending) (hhas : HasCoordinate ⟨c, s⟩ coordinate)
    (earlier : List Coordinate) :
    (∀ v, cellAfter ⟨c, s⟩ earlier coordinate = .ok v → HasValue ⟨c, s⟩ coordinate v) ∧
      (∀ v (d : Derivation ⟨c, s⟩ coordinate v), cellAfter ⟨c, s⟩ earlier coordinate =
        if d.nesting ≤ calculationLimit then .ok v else .error tooDeep) ∧
      (∀ n last, ReachesIn ⟨c, s⟩ n coordinate last → calculationLimit < n →
        cellAfter ⟨c, s⟩ earlier coordinate = .error tooDeep) ∧
      (∀ m n again, ReachesIn ⟨c, s⟩ m coordinate again → ReachesIn ⟨c, s⟩ (n + 1) again again →
        cellAfter ⟨c, s⟩ earlier coordinate = .error tooDeep) := by
  have hfits := (sound_ofDefinitions (Cube.built_of_build hbuild) hscope).fits
  have heq : cellAfter ⟨c, s⟩ earlier coordinate = _ :=
    cellAfter_eq (Cube.built_of_build hbuild) hfits hhas earlier
  rw [heq]
  refine ⟨fun v hv => ?_, fun v d => ?_, fun n last h hn => h.valueWithin_eq hasc hn,
    fun m n again hm hn => ?_⟩
  · exact hasValue_of_valueWithin hfits (formulas_size hscope) hasc hhas hv
  · rw [d.valueWithin_eq hasc]
    simp only [Nat.lt_succ_iff]
  · -- References that come back can be followed round and round, beyond any limit.
    obtain ⟨k, hk, hloop⟩ := hn.loop (calculationLimit + 1)
    exact (hm.trans hloop).valueWithin_eq hasc (by omega)

/-- Twice the sales of Rome are derived by one reference, and found; the measure that is one more
than itself is refused. -/
theorem cellAfter_meaning_loop :
    let ctx : Context := ⟨Sample.cube, Sample.bothScope⟩
    let loop : Coordinate := [(.measures, .one (.calculated 0))]
    (Sample.doubleInRome.Ascending ∧ ctx.HasCoordinate Sample.doubleInRome ∧
      (∃ d : ctx.Derivation Sample.doubleInRome ⟨.number (2.0 * 2.0), false⟩, d.nesting = 1) ∧
      ctx.cellAfter [[], loop] Sample.doubleInRome = .ok ⟨.number (2.0 * 2.0), false⟩) ∧
    loop.Ascending ∧ ctx.HasCoordinate loop ∧ ctx.ReachesIn 1 loop loop ∧
      ctx.cellAfter [[], loop] loop = .error tooDeep := by
  intro ctx loop
  have hasc : loop.Ascending := List.pairwise_singleton _ _
  have hhas : ctx.HasCoordinate loop := by
    intro slot hslot e he
    obtain rfl := List.mem_singleton.1 hslot
    obtain rfl := List.mem_singleton.1 he
    exact Nat.zero_lt_two
  have hleads : ctx.Leads loop 0 := by
    refine ⟨.measures, List.mem_cons_self, fun g j hj => ?_⟩
    cases List.mem_singleton.1 hj
    exact .inr ⟨rfl, Nat.le_refl _⟩
  have hloop : ctx.ReachesIn 1 loop loop :=
    .step ⟨0, Sample.loopFormula, [.calculated 0], hleads, rfl, .left .tuple, rfl⟩ .refl
  obtain ⟨-, -, -, hcycle⟩ := cellAfter_meaning Sample.build_eq_cube Sample.ofDefinitions_both
    hasc hhas [[], loop]
  obtain ⟨-, hfound, -, -⟩ := cellAfter_meaning Sample.build_eq_cube Sample.ofDefinitions_both
    Sample.ascending_doubleInRome Sample.hasCoordinate_doubleInRome [[], loop]
  obtain ⟨d, hnesting⟩ := Sample.derivation_doubleInRome
  refine ⟨⟨Sample.ascending_doubleInRome, Sample.hasCoordinate_doubleInRome, ⟨d, hnesting⟩, ?_⟩,
    hasc, hhas, hloop, hcycle 0 0 loop .refl hloop⟩
  have hfound := hfound _ d
  rwa [if_pos (by rw [hnesting]; decide)] at hfound

end Context

end CubeQuery
