import CubeQuery.Proofs.Query.Place

/-!
What calculated members mean, without a limit on how deep they refer to each other and without
remembering anything. The leading calculated member of a coordinate gives it the value of its
formula; each reference in the formula stands for the value of a coordinate in its turn. A
coordinate without calculated members has the aggregate of its rows. A derivation says how a value
comes about, and its nesting is the number of references that lie inside each other.
-/

namespace CubeQuery

open CubeQuery.Language

namespace Scalar

/-! ### Arithmetic with what is missing -/

/-- What an operation makes of two operands. A missing term counts as zero, and a sum of two missing
terms is missing. A missing factor leaves no product, and neither a missing operand nor a divisor of
zero leaves a quotient. -/
inductive Arithmetic : Operator → Option Float → Option Float → Option Float → Prop
  | sum (l r : Float) : Arithmetic .add (some l) (some r) (some (l + 1.0 * r))
  | difference (l r : Float) : Arithmetic .subtract (some l) (some r) (some (l + -1.0 * r))
  | firstTerm {op : Operator} (h : op = .add ∨ op = .subtract) (l : Float) :
      Arithmetic op (some l) none (some l)
  | addedTerm (r : Float) : Arithmetic .add none (some r) (some (1.0 * r))
  | subtractedTerm (r : Float) : Arithmetic .subtract none (some r) (some (-1.0 * r))
  | noTerm {op : Operator} (h : op = .add ∨ op = .subtract) : Arithmetic op none none none
  | product (l r : Float) : Arithmetic .multiply (some l) (some r) (some (l * r))
  | quotient {l r : Float} (h : (r == 0.0) = false) :
      Arithmetic .divide (some l) (some r) (some (l / r))
  | byZero {l r : Float} (h : (r == 0.0) = true) : Arithmetic .divide (some l) (some r) none
  | missingFirst {op : Operator} (h : op = .multiply ∨ op = .divide) (r? : Option Float) :
      Arithmetic op none r? none
  | missingSecond {op : Operator} (h : op = .multiply ∨ op = .divide) (l? : Option Float) :
      Arithmetic op l? none none

/-- By the operation and by what is missing. -/
theorem arithmetic_calculate (op : Operator) (x y : Option Float) :
    Arithmetic op x y (calculate op x y) := by
  cases op with
  | add =>
    match x, y with
    | none, none => exact .noTerm (.inl rfl)
    | some l, none => exact .firstTerm (.inl rfl) l
    | none, some r => exact .addedTerm r
    | some l, some r => exact .sum l r
  | subtract =>
    match x, y with
    | none, none => exact .noTerm (.inr rfl)
    | some l, none => exact .firstTerm (.inr rfl) l
    | none, some r => exact .subtractedTerm r
    | some l, some r => exact .difference l r
  | multiply =>
    match x, y with
    | none, _ => exact .missingFirst (.inl rfl) _
    | some l, none => exact .missingSecond (.inl rfl) _
    | some l, some r => exact .product l r
  | divide =>
    match x, y with
    | none, _ => exact .missingFirst (.inr rfl) _
    | some l, none => exact .missingSecond (.inr rfl) _
    | some l, some r =>
      rw [calculate]
      split
      · exact .byZero ‹_›
      · exact .quotient (Bool.eq_false_iff.2 ‹_›)

theorem arithmetic_iff {op : Operator} {x y z : Option Float} :
    Arithmetic op x y z ↔ calculate op x y = z := by
  constructor
  · intro h
    cases h with
    | sum | difference | addedTerm | subtractedTerm | product => rfl
    | firstTerm h | noTerm h => rcases h with rfl | rfl <;> rfl
    | missingFirst h => rcases h with rfl | rfl <;> rfl
    | missingSecond h => rcases h with rfl | rfl <;> cases x <;> rfl
    | quotient h => rw [calculate, h, if_neg Bool.false_ne_true]
    | byZero h => rw [calculate, if_pos h]
  · rintro rfl
    exact arithmetic_calculate op x y

theorem operand_eq_ok_iff {s : Scalar} {measure : String} {x : Option Float} :
    s.operand measure = .ok x ↔ s = ofNumber? x := by
  cases s <;> cases x <;> simp [operand, ofNumber?, eq_comm]

/-- Only what may stand in place of a number can be reckoned with, so text cannot. -/
theorem apply_eq_ok_iff {op : Operator} {l r s : Scalar} {measure : String} :
    l.apply op r measure = .ok s ↔
      ∃ x y z, l = ofNumber? x ∧ r = ofNumber? y ∧ Arithmetic op x y z ∧ s = ofNumber? z := by
  simp only [apply, bind_eq_ok_iff, operand_eq_ok_iff, arithmetic_iff]
  constructor
  · rintro ⟨x, rfl, y, rfl, h⟩
    exact ⟨x, y, _, rfl, rfl, rfl, (Except.ok.inj h).symm⟩
  · rintro ⟨x, y, _, rfl, rfl, rfl, rfl⟩
    exact ⟨x, rfl, y, rfl, rfl⟩

theorem negate_eq_ok_iff {s s' : Scalar} {measure : String} :
    s.negate measure = .ok s' ↔
      ∃ x : Option Float, s = ofNumber? x ∧ s' = ofNumber? (x.map (-·)) := by
  constructor
  · intro h
    cases s with
    | null => exact ⟨none, rfl, (Except.ok.inj h).symm⟩
    | number x => exact ⟨some x, rfl, (Except.ok.inj h).symm⟩
    | text t => cases h
  · rintro ⟨_ | x, rfl, rfl⟩ <;> rfl

@[simp] theorem isNull_ofNumber? (x : Option Float) : (ofNumber? x).isNull = x.isNone := by
  cases x <;> rfl

end Scalar

namespace Context

/-! ### The leading calculated member -/

/-- A calculated member stands alone in a slot. No other such member has a higher solve order, and
those with the same one come on later facets. -/
def Leads (ctx : Context) (coordinate : Coordinate) (i : Nat) : Prop :=
  ∃ f, (f, .one (.calculated i)) ∈ coordinate ∧
    ∀ g j, (g, .one (.calculated j)) ∈ coordinate →
      (ctx.scope.member j).solveOrder < (ctx.scope.member i).solveOrder ∨
        (ctx.scope.member j).solveOrder = (ctx.scope.member i).solveOrder ∧ f.rank ≤ g.rank

variable {ctx : Context} {coordinate : Coordinate}

theorem Leads.unique (hasc : coordinate.Ascending) {i j : Nat} (hi : ctx.Leads coordinate i)
    (hj : ctx.Leads coordinate j) : i = j := by
  obtain ⟨f, hf, hmaxi⟩ := hi
  obtain ⟨g, hg, hmaxj⟩ := hj
  have hranks : f.rank = g.rank := by
    have hle := hmaxi g j hg
    have hge := hmaxj f i hf
    omega
  obtain rfl := Facet.rank_injective hranks
  have hsame := (hasc.choice?_eq_some.2 hf).symm.trans (hasc.choice?_eq_some.2 hg)
  cases hsame
  rfl

theorem leadingCalculated?_concat (slot : Facet × Choice) :
    ctx.leadingCalculated? (coordinate ++ [slot]) =
      match slot.2 with
      | .one (.calculated i) =>
        match ctx.leadingCalculated? coordinate with
        | some j =>
          if (ctx.scope.member j).solveOrder < (ctx.scope.member i).solveOrder then some i
          else ctx.leadingCalculated? coordinate
        | none => some i
      | _ => ctx.leadingCalculated? coordinate := by
  unfold leadingCalculated?
  rw [List.foldl_append]
  rfl

theorem leadingCalculated?_concat_of_ne {slot : Facet × Choice}
    (h : ∀ i, slot.2 ≠ .one (.calculated i)) :
    ctx.leadingCalculated? (coordinate ++ [slot]) = ctx.leadingCalculated? coordinate := by
  rw [leadingCalculated?_concat]
  split
  · exact absurd ‹_› (h _)
  · rfl

/-- A member in the last slot leads if all before it have lower orders. -/
theorem leads_last {facet : Facet} {i : Nat} (h : ∀ g j, (g, .one (.calculated j)) ∈ coordinate →
      (ctx.scope.member j).solveOrder < (ctx.scope.member i).solveOrder) :
    ctx.Leads (coordinate ++ [(facet, .one (.calculated i))]) i := by
  refine ⟨facet, by simp, fun g j hj => ?_⟩
  rcases List.mem_append.1 hj with hold | hnew
  · exact .inl (h g j hold)
  · cases List.mem_singleton.1 hnew
    exact .inr ⟨rfl, Nat.le_refl _⟩

/-- A slot on a later facet takes the lead with a higher order only. -/
theorem Leads.concat {best : Nat} {slot : Facet × Choice} (h : ctx.Leads coordinate best)
    (hlater : ∀ s ∈ coordinate, s.1.rank < slot.1.rank)
    (hslot : ∀ i, slot.2 = .one (.calculated i) →
      ¬ (ctx.scope.member best).solveOrder < (ctx.scope.member i).solveOrder) :
    ctx.Leads (coordinate ++ [slot]) best := by
  obtain ⟨f, hf, hmax⟩ := h
  refine ⟨f, List.mem_append_left _ hf, fun g j hj => ?_⟩
  rcases List.mem_append.1 hj with hold | hnew
  · exact hmax g j hold
  · obtain rfl := List.mem_singleton.1 hnew
    have hrank : f.rank < g.rank := hlater _ hf
    have hlow := hslot j rfl
    omega

/-- The search goes through the slots in order, so the induction adds slots at the end: the member
that has been found so far is on an earlier facet than the new one. -/
theorem leadingCalculated?_spec (hasc : coordinate.Ascending) :
    match ctx.leadingCalculated? coordinate with
    | some i => ctx.Leads coordinate i
    | none => ∀ f i, (f, .one (.calculated i)) ∉ coordinate := by
  induction coordinate using List.reverseRecOn with
  | nil => exact fun f i => List.not_mem_nil
  | append_singleton before slot ih =>
    obtain ⟨hbefore, -, hlater⟩ := List.pairwise_append.1 hasc
    have ih := ih hbefore
    have hlater : ∀ s ∈ before, s.1.rank < slot.1.rank :=
      fun s hs => hlater s hs slot List.mem_cons_self
    -- Only a slot with a calculated member can take the lead.
    by_cases hslot : ∃ i, slot.2 = .one (.calculated i)
    · obtain ⟨facet, choice⟩ := slot
      obtain ⟨i, rfl⟩ := hslot
      rw [leadingCalculated?_concat]
      cases hbest : ctx.leadingCalculated? before with
      | none =>
        rw [hbest] at ih
        exact leads_last fun g j hj => absurd hj (ih g j)
      | some best =>
        rw [hbest] at ih
        dsimp only
        by_cases hhigher : (ctx.scope.member best).solveOrder < (ctx.scope.member i).solveOrder
        · rw [if_pos hhigher]
          obtain ⟨f, -, hmax⟩ := ih
          refine leads_last fun g j hj => ?_
          have hj := hmax g j hj
          omega
        · rw [if_neg hhigher]
          refine ih.concat hlater ?_
          rintro _ ⟨⟩
          exact hhigher
    · have hslot (i : Nat) : slot.2 ≠ .one (.calculated i) := fun h => hslot ⟨i, h⟩
      rw [leadingCalculated?_concat_of_ne hslot]
      cases hbest : ctx.leadingCalculated? before with
      | none =>
        rw [hbest] at ih
        intro f i hmem
        rcases List.mem_append.1 hmem with hold | hnew
        · exact ih f i hold
        · exact hslot i (List.mem_singleton.1 hnew ▸ rfl)
      | some best =>
        rw [hbest] at ih
        exact ih.concat hlater fun i h => absurd h (hslot i)

theorem leadingCalculated?_eq_some_iff (hasc : coordinate.Ascending) {i : Nat} :
    ctx.leadingCalculated? coordinate = some i ↔ ctx.Leads coordinate i := by
  have hspec := ctx.leadingCalculated?_spec hasc
  cases hbest : ctx.leadingCalculated? coordinate with
  | none =>
    rw [hbest] at hspec
    refine ⟨(nomatch ·), fun h => ?_⟩
    obtain ⟨f, hf, -⟩ := h
    exact absurd hf (hspec f i)
  | some best =>
    rw [hbest] at hspec
    constructor
    · rintro ⟨⟩
      exact hspec
    · exact fun h => congrArg some (hspec.unique hasc h)

theorem leadingCalculated?_eq_none_iff (hasc : coordinate.Ascending) :
    ctx.leadingCalculated? coordinate = none ↔ ∀ f i, (f, .one (.calculated i)) ∉ coordinate := by
  have hspec := ctx.leadingCalculated?_spec hasc
  cases hbest : ctx.leadingCalculated? coordinate with
  | none =>
    rw [hbest] at hspec
    exact ⟨fun _ => hspec, fun _ => rfl⟩
  | some best =>
    rw [hbest] at hspec
    obtain ⟨f, hf, -⟩ := hspec
    exact ⟨(nomatch ·), fun h => absurd hf (h f best)⟩

/-! ### Derivations -/

mutual

/-- How a coordinate comes by its value: by the formula of the leading calculated member, or by the
aggregate of its rows if no calculated member stands alone. -/
inductive Derivation (ctx : Context) : Coordinate → CellValue → Type
  | stored {coordinate : Coordinate} {m : MeasureId}
      (stored : ∀ f i, (f, .one (.calculated i)) ∉ coordinate)
      (measure : ctx.measureOf coordinate = .ok m) :
      Derivation ctx coordinate
        ⟨ctx.valueOver m (ctx.rowsThrough coordinate),
          (ctx.rowsThrough coordinate).isEmpty ||
            (ctx.valueOver m (ctx.rowsThrough coordinate)).isNull⟩
  | calculated {coordinate : Coordinate} {i : Nat} {f : Formula} {x : Option Float}
      (leads : ctx.Leads coordinate i) (formula : ctx.scope.formulas[i]? = some f)
      (value : FormulaDerivation ctx coordinate f (.ofNumber? x)) :
      Derivation ctx coordinate ⟨.ofNumber? x, x.isNone⟩

/-- How a formula comes by its value at a coordinate. Operands of arithmetic are numbers or
missing. -/
inductive FormulaDerivation (ctx : Context) : Coordinate → Formula → Scalar → Type
  | number {coordinate : Coordinate} (x : Float) :
      FormulaDerivation ctx coordinate (.number x) (.number x)
  | text {coordinate : Coordinate} (s : String) :
      FormulaDerivation ctx coordinate (.text s) (.text s)
  | tuple {coordinate : Coordinate} {t : Tuple} {v : CellValue}
      (value : Derivation ctx (ctx.place coordinate t) v) :
      FormulaDerivation ctx coordinate (.tuple t) v.value
  | negate {coordinate : Coordinate} {e : Formula} {x : Option Float}
      (operand : FormulaDerivation ctx coordinate e (.ofNumber? x)) :
      FormulaDerivation ctx coordinate (.negate e) (.ofNumber? (x.map (-·)))
  | binary {coordinate : Coordinate} {op : Operator} {l r : Formula} {x y z : Option Float}
      (left : FormulaDerivation ctx coordinate l (.ofNumber? x))
      (right : FormulaDerivation ctx coordinate r (.ofNumber? y))
      (value : Scalar.Arithmetic op x y z) :
      FormulaDerivation ctx coordinate (.binary op l r) (.ofNumber? z)

end

mutual

/-- How many references lie inside each other. -/
def Derivation.nesting {coordinate : Coordinate} {v : CellValue} :
    ctx.Derivation coordinate v → Nat
  | .stored _ _ => 0
  | .calculated _ _ value => value.nesting

def FormulaDerivation.nesting {coordinate : Coordinate} {f : Formula} {s : Scalar} :
    ctx.FormulaDerivation coordinate f s → Nat
  | .number _ => 0
  | .text _ => 0
  | .tuple value => value.nesting + 1
  | .negate operand => operand.nesting
  | .binary left right _ => max left.nesting right.nesting

end

/-- The coordinate has the value, however deep its references lie. -/
def HasValue (ctx : Context) (coordinate : Coordinate) (v : CellValue) : Prop :=
  Nonempty (ctx.Derivation coordinate v)

/-! ### References -/

/-- Evaluation of a formula from left to right comes to a tuple: it gets to a right operand only
when the left one has a value. -/
inductive ComesTo (ctx : Context) (coordinate : Coordinate) : Formula → Tuple → Prop
  | tuple {t : Tuple} : ComesTo ctx coordinate (.tuple t) t
  | negate {e : Formula} {t : Tuple} (h : ComesTo ctx coordinate e t) :
      ComesTo ctx coordinate (.negate e) t
  | left {op : Operator} {l r : Formula} {t : Tuple} (h : ComesTo ctx coordinate l t) :
      ComesTo ctx coordinate (.binary op l r) t
  | right {op : Operator} {l r : Formula} {s : Scalar} {t : Tuple}
      (left : ctx.FormulaDerivation coordinate l s) (h : ComesTo ctx coordinate r t) :
      ComesTo ctx coordinate (.binary op l r) t

/-- Evaluation of a coordinate comes to another one. -/
def Refers (ctx : Context) (coordinate target : Coordinate) : Prop :=
  ∃ i f t, ctx.Leads coordinate i ∧ ctx.scope.formulas[i]? = some f ∧
    ctx.ComesTo coordinate f t ∧ target = ctx.place coordinate t

/-- A chain of so many references. -/
inductive ReachesIn (ctx : Context) : Nat → Coordinate → Coordinate → Prop
  | refl {coordinate : Coordinate} : ReachesIn ctx 0 coordinate coordinate
  | step {n : Nat} {coordinate next last : Coordinate} (first : ctx.Refers coordinate next)
      (rest : ReachesIn ctx n next last) : ReachesIn ctx (n + 1) coordinate last

theorem ReachesIn.trans {m n : Nat} {a b c : Coordinate} (h : ctx.ReachesIn m a b)
    (h' : ctx.ReachesIn n b c) : ctx.ReachesIn (m + n) a c := by
  induction h with
  | refl =>
    rw [Nat.zero_add]
    exact h'
  | step first rest ih =>
    rw [Nat.add_right_comm]
    exact .step first (ih h')

/-- A chain that comes back goes on for any number of references. -/
theorem ReachesIn.loop {n : Nat} {a : Coordinate} (h : ctx.ReachesIn (n + 1) a a) (times : Nat) :
    ∃ m, times ≤ m ∧ ctx.ReachesIn m a a := by
  induction times with
  | zero => exact ⟨0, Nat.le_refl _, .refl⟩
  | succ times ih =>
    obtain ⟨m, hle, hm⟩ := ih
    exact ⟨n + 1 + m, by omega, h.trans hm⟩

end Context

end CubeQuery
