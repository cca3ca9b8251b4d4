import CubeQuery.Cube.Build
import Mathlib.Tactic.Common

/-!
What a step of the assembly does when it succeeds. A step is read as a relation between the cube
before it and the cube after it, and each basic step has one lemma that says everything about this
relation, so that no later proof opens a step again.
-/

namespace CubeQuery

open CubeQuery.Language

/-! ### The changes that steps make -/

namespace Cube

/-- The cube in which an object has taken a unique name. -/
def withName (c : Cube) (uniqueName : String) (entity : Entity) : Cube :=
  { c with
    names := c.names.insert uniqueName entity
    foldedNames := c.foldedNames.insertIfNew (Text.lowercase uniqueName) entity }

/-- The cube with one more dimension and its hierarchy. -/
def withHierarchy (c : Cube) (d : Dimension) (h : Hierarchy) : Cube :=
  { (c.withName d.uniqueName (.dimension ⟨c.dimensions.size⟩)).withName h.uniqueName
      (.hierarchy ⟨c.hierarchies.size⟩) with
    dimensions := c.dimensions.push d, hierarchies := c.hierarchies.push h }

/-- The cube with one more level, which its hierarchy lists last. -/
def withLevel (c : Cube) (l : Level) : Cube :=
  { c.withName l.uniqueName (.level ⟨c.levels.size⟩) with
    levels := c.levels.push l
    hierarchies := c.hierarchies.modify l.hierarchy.index fun h =>
      { h with levels := h.levels ++ [⟨c.levels.size⟩] } }

/-- The cube with one more member, which its level lists last. -/
def withMember (c : Cube) (m : Member) : Cube :=
  { c.withName m.uniqueName (.member ⟨c.members.size⟩) with
    members := c.members.push m
    levels := c.levels.modify m.level.index fun l =>
      { l with members := l.members.push ⟨c.members.size⟩ }
    factRows := c.factRows.push #[] }

/-- The cube in which one more fact row is attached to a member. -/
def withRow (c : Cube) (row : Nat) (m : MemberId) : Cube :=
  { c with factRows := c.factRows.modify m.index (·.push row) }

def withMeasure (c : Cube) (m : Measure) : Cube :=
  { c.withName m.uniqueName (.measure ⟨c.measures.size⟩) with measures := c.measures.push m }

/-! ### The objects that steps add -/

def newDimension (c : Cube) (layout : DimensionLayout) : Dimension :=
  { name := layout.name, uniqueName := bracketed layout.name, table := layout.table
    hierarchies := [⟨c.hierarchies.size⟩] }

def newHierarchy (c : Cube) (layout : DimensionLayout) (kind : HierarchyKind) : Hierarchy :=
  { name := layout.name, uniqueName := bracketedPath [layout.name, layout.name]
    dimension := ⟨c.dimensions.size⟩, kind, levels := [], allMember := ⟨c.members.size⟩ }

def newLevel (c : Cube) (hierarchy : HierarchyId) (name : String) (sourceColumn? : Option String) :
    Level :=
  { name, uniqueName := (c.hierarchy hierarchy).uniqueName ++ "." ++ bracketed name, hierarchy
    ordinal := (c.hierarchy hierarchy).levels.length, members := #[], sourceColumn? }

def newAllMember (c : Cube) (hierarchy : HierarchyId) (level : LevelId) (caption : String) :
    Member :=
  { caption, uniqueName := (c.hierarchy hierarchy).uniqueName ++ "." ++ bracketed caption, level
    hierarchy := (c.level level).hierarchy, parent? := none
    position := (c.level level).members.size, captions := [] }

def newChild (c : Cube) (caption : String) (level : LevelId) (parent : MemberId) : Member :=
  { caption, level, hierarchy := (c.level level).hierarchy, parent? := some parent
    uniqueName := (c.level level).uniqueName ++ "." ++
      bracketedPath ((c.member parent).captions ++ [caption])
    position := (c.level level).members.size
    captions := (c.member parent).captions ++ [caption] }

section New

variable {c : Cube} {h : HierarchyId} {l : LevelId} {p : MemberId} {name caption : String}
  {sourceColumn? : Option String}

@[simp] theorem newLevel_hierarchy : (c.newLevel h name sourceColumn?).hierarchy = h := rfl

@[simp] theorem newLevel_ordinal :
    (c.newLevel h name sourceColumn?).ordinal = (c.hierarchy h).levels.length := rfl

@[simp] theorem newLevel_members : (c.newLevel h name sourceColumn?).members = #[] := rfl

@[simp] theorem newChild_level : (c.newChild caption l p).level = l := rfl

@[simp] theorem newChild_hierarchy :
    (c.newChild caption l p).hierarchy = (c.level l).hierarchy := rfl

@[simp] theorem newChild_parent? : (c.newChild caption l p).parent? = some p := rfl

@[simp] theorem newChild_position :
    (c.newChild caption l p).position = (c.level l).members.size := rfl

end New

def newMeasure (layout : MeasureLayout) (columnIndex : Nat) (aggregation : Aggregation) : Measure :=
  { name := layout.name, uniqueName := bracketedPath ["Measures", layout.name]
    column := layout.column, columnIndex, aggregation, format? := layout.format? }

end Cube

namespace Assembly

/-- The step succeeds on the cube `c`, returns `a` and leaves the cube `c'`. -/
def Yields {α : Type} (x : Assembly α) (c : Cube) (a : α) (c' : Cube) : Prop :=
  x.run c = .ok (a, c')

section Rules

variable {α β : Type} {c c' : Cube}

@[simp] theorem yields_pure {a b : α} : Yields (pure a) c b c' ↔ b = a ∧ c' = c := by
  show (Except.ok (a, c) : Except Error (α × Cube)) = .ok (b, c') ↔ _
  rw [Except.ok.injEq, Prod.mk.injEq, eq_comm, @eq_comm _ c c']

@[simp] theorem yields_bind {x : Assembly α} {f : α → Assembly β} {b : β} :
    Yields (x >>= f) c b c' ↔ ∃ a c₁, Yields x c a c₁ ∧ Yields (f a) c₁ b c' := by
  show (x.run c >>= fun p => (f p.1).run p.2) = _ ↔ _
  unfold Yields
  cases x.run c with
  | error e => simp [bind, Except.bind]
  | ok p =>
    obtain ⟨a, c₁⟩ := p
    simp only [bind, Except.bind, Except.ok.injEq, Prod.mk.injEq]
    constructor
    · intro h
      exact ⟨a, c₁, ⟨rfl, rfl⟩, h⟩
    · rintro ⟨_, _, ⟨rfl, rfl⟩, h⟩
      exact h

@[simp] theorem yields_get {a : Cube} : Yields get c a c' ↔ a = c ∧ c' = c := by
  show Except.ok (c, c) = _ ↔ _
  simp [eq_comm]

@[simp] theorem yields_set {d : Cube} {u : PUnit} : Yields (set d) c u c' ↔ c' = d := by
  show Except.ok ((), d) = _ ↔ _
  simp [eq_comm]

@[simp] theorem yields_modify {f : Cube → Cube} {u : PUnit} :
    Yields (modify f) c u c' ↔ c' = f c := by
  show Except.ok ((), f c) = _ ↔ _
  simp [eq_comm]

@[simp] theorem yields_throw {e : Error} {a : α} : ¬ Yields (throw e) c a c' := by
  show ¬ (Except.error e = _)
  simp

@[simp] theorem yields_fail {fault : SchemaFault} {a : α} : ¬ Yields (fail fault) c a c' :=
  yields_throw

/-- A check comes before the rest of a step. -/
@[simp] theorem yields_guard {p : Prop} [Decidable p] {fault : SchemaFault} {y : Unit → Assembly α}
    {x : Assembly α} {a : α} :
    Yields (if p then fail fault >>= y else x) c a c' ↔ ¬ p ∧ Yields x c a c' := by
  by_cases h : p <;> simp [h]

@[simp] theorem yields_consult {x : Except TableFault α} {a : α} :
    Yields (consult x) c a c' ↔ x = .ok a ∧ c' = c := by
  cases x with
  | error e => simp [consult]
  | ok b => simp [consult, eq_comm]

/-! A loop that succeeds runs its body once for each item. The rules below hand on whatever the
body preserves, together with the items that have been dealt with. -/

theorem forM_induction {f : β → Assembly Unit} {motive : List β → Cube → Prop} {xs : List β}
    {u : Unit} (h : Yields (xs.forM f) c u c') (start : motive [] c)
    (step : ∀ done x rest c c', xs = done ++ x :: rest → motive done c → Yields (f x) c () c' →
      motive (done ++ [x]) c') : motive xs c' := by
  suffices ∀ rest done c, xs = done ++ rest → motive done c → Yields (rest.forM f) c u c' →
      motive xs c' from this xs [] c rfl start h
  intro rest
  induction rest with
  | nil =>
    intro done c hxs hm hy
    obtain ⟨-, rfl⟩ := yields_pure.1 hy
    rwa [hxs, List.append_nil]
  | cons x rest ih =>
    intro done c hxs hm hy
    obtain ⟨_, c₁, hx, hrest⟩ := yields_bind.1 hy
    exact ih (done ++ [x]) c₁ (by simpa using hxs) (step done x rest c c₁ hxs hm hx) hrest

theorem foldlM_induction {σ : Type} {f : σ → β → Assembly σ} {motive : List β → σ → Cube → Prop}
    {xs : List β} {s s' : σ} (h : Yields (xs.foldlM f s) c s' c') (start : motive [] s c)
    (step : ∀ done x rest s c s' c', xs = done ++ x :: rest → motive done s c →
      Yields (f s x) c s' c' → motive (done ++ [x]) s' c') : motive xs s' c' := by
  suffices ∀ rest done s c, xs = done ++ rest → motive done s c →
      Yields (rest.foldlM f s) c s' c' → motive xs s' c' from this xs [] s c rfl start h
  intro rest
  induction rest with
  | nil =>
    intro done s c hxs hm hy
    obtain ⟨rfl, rfl⟩ := yields_pure.1 hy
    rwa [hxs, List.append_nil]
  | cons x rest ih =>
    intro done s c hxs hm hy
    rw [List.foldlM_cons] at hy
    obtain ⟨s₁, c₁, hx, hrest⟩ := yields_bind.1 hy
    exact ih (done ++ [x]) s₁ c₁ (by simpa using hxs) (step done x rest s c s₁ c₁ hxs hm hx) hrest

theorem mapM_induction {f : β → Assembly α} {motive : List β → List α → Cube → Prop}
    {xs : List β} {ys : List α} (h : Yields (xs.mapM f) c ys c') (start : motive [] [] c)
    (step : ∀ done x rest ys c y c', xs = done ++ x :: rest → motive done ys c →
      Yields (f x) c y c' → motive (done ++ [x]) (ys ++ [y]) c') : motive xs ys c' := by
  suffices ∀ rest done before after c, xs = done ++ rest → motive done before c →
      Yields (rest.mapM f) c after c' → motive xs (before ++ after) c' from
    this xs [] [] ys c rfl start h
  intro rest
  induction rest with
  | nil =>
    intro done before after c hxs hm hy
    rw [List.mapM_nil] at hy
    obtain ⟨rfl, rfl⟩ := yields_pure.1 hy
    rwa [hxs, List.append_nil, List.append_nil]
  | cons x rest ih =>
    intro done before after c hxs hm hy
    rw [List.mapM_cons] at hy
    simp only [yields_bind, yields_pure] at hy
    obtain ⟨y, c₁, hx, ys, _, hrest, rfl, rfl⟩ := hy
    have hstep := step done x rest before c y c₁ hxs hm hx
    simpa using ih (done ++ [x]) (before ++ [y]) ys c₁ (by simpa using hxs) hstep hrest

/-- A loop over the rows of a table has dealt with all rows before the one it is at. -/
theorem row_eq_length {n row : Nat} {done rest : List Nat}
    (h : List.range n = done ++ row :: rest) : row = done.length ∧ row < n := by
  have hlt : done.length < n := by
    have hlength := congrArg List.length h
    simp only [List.length_range, List.length_append, List.length_cons] at hlength
    omega
  have hat : (List.range n)[done.length]? = some row := by simp [h]
  rw [List.getElem?_range hlt] at hat
  obtain rfl := Option.some.inj hat
  exact ⟨rfl, hlt⟩

end Rules

/-! ### The basic steps -/

section Basic

open CubeQuery.Cube

variable {c c' : Cube}

theorem yields_register {uniqueName : String} {entity : Entity} {u : Unit} :
    Yields (register uniqueName entity) c u c' ↔
      c.names[uniqueName]? = none ∧ c' = c.withName uniqueName entity := by
  unfold register
  by_cases h : uniqueName ∈ c.names <;> simp [h, Cube.withName]

theorem yields_addHierarchy {layout : DimensionLayout} {kind : HierarchyKind} {h : HierarchyId} :
    Yields (addHierarchy layout kind) c h c' ↔
      c.names[bracketed layout.name]? = none ∧
        (c.withName (bracketed layout.name) (.dimension ⟨c.dimensions.size⟩)).names[
          bracketedPath [layout.name, layout.name]]? = none ∧
        h = ⟨c.hierarchies.size⟩ ∧
        c' = c.withHierarchy (c.newDimension layout) (c.newHierarchy layout kind) := by
  unfold addHierarchy
  simp only [yields_bind, yields_get, yields_register, yields_modify, yields_pure]
  constructor
  · rintro ⟨_, _, ⟨rfl, rfl⟩, _, _, ⟨rfl, rfl⟩, _, _, ⟨h₁, rfl⟩, _, _, ⟨h₂, rfl⟩, _, _, rfl, rfl,
      rfl⟩
    exact ⟨h₁, h₂, rfl, rfl⟩
  · rintro ⟨h₁, h₂, rfl, rfl⟩
    exact ⟨_, _, ⟨rfl, rfl⟩, _, _, ⟨rfl, rfl⟩, (), _, ⟨h₁, rfl⟩, (), _, ⟨h₂, rfl⟩, (), _, rfl,
      rfl, rfl⟩

theorem yields_addLevel {hierarchy : HierarchyId} {name : String} {sourceColumn? : Option String}
    {l : LevelId} :
    Yields (addLevel hierarchy name sourceColumn?) c l c' ↔
      c.names[(c.newLevel hierarchy name sourceColumn?).uniqueName]? = none ∧
        l = ⟨c.levels.size⟩ ∧ c' = c.withLevel (c.newLevel hierarchy name sourceColumn?) := by
  unfold addLevel
  simp only [yields_bind, yields_get, yields_register, yields_modify, yields_pure]
  constructor
  · rintro ⟨_, _, ⟨rfl, rfl⟩, _, _, ⟨h, rfl⟩, _, _, rfl, rfl, rfl⟩
    exact ⟨h, rfl, rfl⟩
  · rintro ⟨h, rfl, rfl⟩
    exact ⟨_, _, ⟨rfl, rfl⟩, (), _, ⟨h, rfl⟩, (), _, rfl, rfl, rfl⟩

theorem yields_addMember {caption uniqueName : String} {level : LevelId}
    {parent? : Option MemberId} {captions : List String} {m : MemberId} :
    Yields (addMember caption uniqueName level parent? captions) c m c' ↔
      c.names[uniqueName]? = none ∧ m = ⟨c.members.size⟩ ∧
        c' = c.withMember
          { caption, uniqueName, level, hierarchy := (c.level level).hierarchy, parent?
            position := (c.level level).members.size, captions } := by
  unfold addMember
  simp only [yields_bind, yields_get, yields_register, yields_modify, yields_pure]
  constructor
  · rintro ⟨_, _, ⟨rfl, rfl⟩, _, _, ⟨h, rfl⟩, _, _, rfl, rfl, rfl⟩
    exact ⟨h, rfl, rfl⟩
  · rintro ⟨h, rfl, rfl⟩
    exact ⟨_, _, ⟨rfl, rfl⟩, (), _, ⟨h, rfl⟩, (), _, rfl, rfl, rfl⟩

theorem yields_addAllMember {hierarchy : HierarchyId} {level : LevelId} {caption : String}
    {m : MemberId} :
    Yields (addAllMember hierarchy level caption) c m c' ↔
      c.names[(c.newAllMember hierarchy level caption).uniqueName]? = none ∧
        m = ⟨c.members.size⟩ ∧ c' = c.withMember (c.newAllMember hierarchy level caption) := by
  unfold addAllMember
  simp only [yields_bind, yields_get]
  constructor
  · rintro ⟨_, _, ⟨rfl, rfl⟩, h⟩
    exact yields_addMember.1 h
  · intro h
    exact ⟨_, _, ⟨rfl, rfl⟩, yields_addMember.2 h⟩

theorem yields_addChild {caption : String} {level : LevelId} {parent m : MemberId} :
    Yields (addChild caption level parent) c m c' ↔
      c.names[(c.newChild caption level parent).uniqueName]? = none ∧
        m = ⟨c.members.size⟩ ∧ c' = c.withMember (c.newChild caption level parent) := by
  unfold addChild
  simp only [yields_bind, yields_get]
  constructor
  · rintro ⟨_, _, ⟨rfl, rfl⟩, h⟩
    exact yields_addMember.1 h
  · intro h
    exact ⟨_, _, ⟨rfl, rfl⟩, yields_addMember.2 h⟩

theorem yields_attachRow {row : Nat} {m : MemberId} {u : Unit} :
    Yields (attachRow row m) c u c' ↔ c' = c.withRow row m :=
  yields_modify

theorem yields_addMeasure {layout : MeasureLayout} {u : Unit} :
    Yields (addMeasure layout) c u c' ↔
      ∃ columnIndex aggregation,
        (c.measures.any fun m => Text.sameName m.name layout.name) = false ∧
        c.factTable.requireColumn layout.column = .ok columnIndex ∧
        (c.factTable.columnType? columnIndex).any ColumnType.isNumeric = true ∧
        Aggregation.ofName? layout.aggregation = some aggregation ∧
        c.names[bracketedPath ["Measures", layout.name]]? = none ∧
        c' = c.withMeasure (newMeasure layout columnIndex aggregation) := by
  unfold addMeasure
  simp only [yields_bind, yields_get, yields_guard, yields_consult]
  constructor
  · rintro ⟨_, _, ⟨rfl, rfl⟩, hname, columnIndex, _, ⟨hcolumn, rfl⟩, hnumeric, h⟩
    cases haggregation : Aggregation.ofName? layout.aggregation with
    | none => simp [haggregation] at h
    | some aggregation =>
      simp only [haggregation, yields_bind, yields_register, yields_modify] at h
      obtain ⟨_, _, ⟨hfresh, rfl⟩, rfl⟩ := h
      exact ⟨columnIndex, aggregation, Bool.eq_false_iff.2 hname, hcolumn,
        by simpa using hnumeric, rfl, hfresh, rfl⟩
  · rintro ⟨columnIndex, aggregation, hname, hcolumn, hnumeric, haggregation, hfresh, rfl⟩
    refine ⟨_, _, ⟨rfl, rfl⟩, Bool.eq_false_iff.1 hname, columnIndex, _, ⟨hcolumn, rfl⟩,
      by simpa using hnumeric, ?_⟩
    simp only [haggregation, yields_bind, yields_register, yields_modify]
    exact ⟨(), _, ⟨hfresh, rfl⟩, rfl⟩

end Basic

end Assembly

end CubeQuery
