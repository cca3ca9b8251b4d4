import CubeQuery.Proofs.Assembly.Steps
import Mathlib.Data.List.Induction

/-!
Whether a step of the assembly succeeds. A sequence of steps succeeds if each of them does on the
cube that the earlier ones leave; for a loop, what each turn needs is said in terms of the items
that came before it, so that the cube drops out of the condition.
-/

namespace CubeQuery

namespace Assembly

/-- The step succeeds on the cube `c`. -/
def Runs {α : Type} (x : Assembly α) (c : Cube) : Prop :=
  ∃ a c', Yields x c a c'

section Rules

variable {α β : Type} {c : Cube}

@[simp] theorem runs_pure {a : α} : Runs (pure a) c :=
  ⟨a, c, yields_pure.2 ⟨rfl, rfl⟩⟩

@[simp] theorem runs_fail {fault : SchemaFault} : ¬ Runs (fail fault : Assembly α) c :=
  fun ⟨_, _, h⟩ => yields_fail h

theorem runs_bind {x : Assembly α} {f : α → Assembly β} :
    Runs (x >>= f) c ↔ ∃ a c₁, Yields x c a c₁ ∧ Runs (f a) c₁ := by
  simp only [Runs, yields_bind]
  constructor
  · rintro ⟨b, c', a, c₁, hx, hf⟩
    exact ⟨a, c₁, hx, b, c', hf⟩
  · rintro ⟨a, c₁, hx, b, c', hf⟩
    exact ⟨b, c', a, c₁, hx, hf⟩

@[simp] theorem runs_get_bind {f : Cube → Assembly α} : Runs (get >>= f) c ↔ Runs (f c) c := by
  rw [runs_bind]
  constructor
  · rintro ⟨a, c₁, hy, hf⟩
    obtain ⟨rfl, rfl⟩ := yields_get.1 hy
    exact hf
  · intro hf
    exact ⟨c, c, yields_get.2 ⟨rfl, rfl⟩, hf⟩

/-- What the second step needs may depend on what the first one is known to leave. -/
theorem runs_bind_iff {x : Assembly α} {f : α → Assembly β} {P Q : Prop} (hx : Runs x c ↔ P)
    (hf : ∀ a c₁, Yields x c a c₁ → (Runs (f a) c₁ ↔ Q)) : Runs (x >>= f) c ↔ P ∧ Q := by
  rw [runs_bind, ← hx]
  constructor
  · rintro ⟨a, c₁, hy, hrest⟩
    exact ⟨⟨a, c₁, hy⟩, (hf a c₁ hy).1 hrest⟩
  · rintro ⟨⟨a, c₁, hy⟩, hq⟩
    exact ⟨a, c₁, hy, (hf a c₁ hy).2 hq⟩

/-- A step after which nothing can fail. -/
theorem runs_bind_pure {x : Assembly α} {f : α → β} : Runs (do return f (← x)) c ↔ Runs x c := by
  rw [runs_bind_iff .rfl fun _ _ _ => iff_of_true runs_pure trivial, and_true]

@[simp] theorem runs_guard {p : Prop} [Decidable p] {fault : SchemaFault} {y : Unit → Assembly α}
    {x : Assembly α} : Runs (if p then fail fault >>= y else x) c ↔ ¬ p ∧ Runs x c := by
  simp only [Runs, yields_guard, exists_and_left]

theorem runs_consult_bind {x : Except TableFault α} {f : α → Assembly β} :
    Runs (consult x >>= f) c ↔ ∃ a, x = .ok a ∧ Runs (f a) c := by
  rw [runs_bind]
  constructor
  · rintro ⟨a, c₁, hy, hrest⟩
    obtain ⟨hx, rfl⟩ := yields_consult.1 hy
    exact ⟨a, hx, hrest⟩
  · rintro ⟨a, hx, hrest⟩
    exact ⟨a, c, yields_consult.2 ⟨hx, rfl⟩, hrest⟩

end Rules

/-! ### Loops -/

section Loops

variable {α β σ : Type} {c : Cube} {l : List β} {P : List β → β → Prop}

/-- The rule for all loops. `Rest` says that the loop can be finished, `Turn` is one turn of it, and
`motive` is what turns preserve. -/
theorem runs_loop (Rest : List β → σ → Cube → Prop) (Turn : β → σ → Cube → σ → Cube → Prop)
    {motive : List β → σ → Cube → Prop} {s : σ} (nil : ∀ s c, Rest [] s c)
    (cons : ∀ x rest s c,
      Rest (x :: rest) s c ↔ ∃ s' c', Turn x s c s' c' ∧ Rest rest s' c')
    (start : motive [] s c)
    (step : ∀ done x rest s c, l = done ++ x :: rest → motive done s c →
      ((∃ s' c', Turn x s c s' c') ↔ P done x) ∧
        ∀ s' c', Turn x s c s' c' → motive (done ++ [x]) s' c') :
    Rest l s c ↔ ∀ done x rest, l = done ++ x :: rest → P done x := by
  -- By induction on what is left, for any number of turns already taken.
  suffices ∀ rest done s c, l = done ++ rest → motive done s c →
      (Rest rest s c ↔ ∀ before x after, rest = before ++ x :: after → P (done ++ before) x) by
    simpa using this l [] s c rfl start
  intro rest
  induction rest with
  | nil =>
    intro done s c _ _
    refine iff_of_true (nil s c) fun before x after h => ?_
    simp at h
  | cons x rest ih =>
    intro done s c hl hm
    obtain ⟨hruns, hkeep⟩ := step done x rest s c hl hm
    have hrest {s' c'} (hturn : Turn x s c s' c') :=
      ih (done ++ [x]) s' c' (by simpa using hl) (hkeep s' c' hturn)
    rw [cons]
    constructor
    · rintro ⟨s', c', hturn, hfinish⟩ before y after h
      rcases List.cons_eq_append_iff.1 h with ⟨rfl, heq⟩ | ⟨before, rfl, rfl⟩
      · obtain ⟨rfl, rfl⟩ := List.cons.inj heq
        simpa using hruns.1 ⟨s', c', hturn⟩
      · simpa using (hrest hturn).1 hfinish before y after rfl
    · intro h
      obtain ⟨s', c', hturn⟩ := hruns.2 (by simpa using h [] x rest rfl)
      refine ⟨s', c', hturn, (hrest hturn).2 fun before y after hsplit => ?_⟩
      simpa using h (x :: before) y after (by simp [hsplit])

theorem runs_forM {f : β → Assembly Unit} {motive : List β → Cube → Prop} (start : motive [] c)
    (step : ∀ done x rest c, l = done ++ x :: rest → motive done c →
      (Runs (f x) c ↔ P done x) ∧ ∀ c', Yields (f x) c () c' → motive (done ++ [x]) c') :
    Runs (l.forM f) c ↔ ∀ done x rest, l = done ++ x :: rest → P done x := by
  refine runs_loop (fun rest (_ : Unit) c => Runs (rest.forM f) c)
    (fun x _ c s c' => Yields (f x) c s c') (motive := fun done _ c => motive done c)
    (s := ()) (fun _ _ => runs_pure) (fun _ _ _ _ => runs_bind) start ?_
  intro done x rest _ c hl hm
  obtain ⟨hruns, hkeep⟩ := step done x rest c hl hm
  exact ⟨hruns, fun _ c' hy => hkeep c' hy⟩

theorem runs_foldlM {f : σ → β → Assembly σ} {motive : List β → σ → Cube → Prop} {s : σ}
    (start : motive [] s c)
    (step : ∀ done x rest s c, l = done ++ x :: rest → motive done s c →
      (Runs (f s x) c ↔ P done x) ∧ ∀ s' c', Yields (f s x) c s' c' → motive (done ++ [x]) s' c') :
    (Runs (l.foldlM f s) c ↔ ∀ done x rest, l = done ++ x :: rest → P done x) ∧
      ∀ s' c', Yields (l.foldlM f s) c s' c' → motive l s' c' := by
  constructor
  · refine runs_loop (fun rest s c => Runs (rest.foldlM f s) c)
      (fun x s c s' c' => Yields (f s x) c s' c') (fun _ _ => runs_pure) ?_ start step
    intro x rest s c
    rw [List.foldlM_cons, runs_bind]
  · intro s' c' hy
    exact foldlM_induction hy start fun done x rest s c s' c' hl hm =>
      (step done x rest s c hl hm).2 s' c'

/-- A loop whose turns never fail. -/
theorem foldlM_total {f : σ → β → Assembly σ} {motive : List β → σ → Cube → Prop} {s : σ}
    (start : motive [] s c)
    (step : ∀ done x rest s c, l = done ++ x :: rest → motive done s c →
      Runs (f s x) c ∧ ∀ s' c', Yields (f s x) c s' c' → motive (done ++ [x]) s' c') :
    Runs (l.foldlM f s) c ∧ ∀ s' c', Yields (l.foldlM f s) c s' c' → motive l s' c' := by
  obtain ⟨hruns, hkeep⟩ := runs_foldlM (P := fun _ _ => True) start
    fun done x rest s c hl hm => ⟨iff_true_intro (step done x rest s c hl hm).1,
      (step done x rest s c hl hm).2⟩
  exact ⟨hruns.2 fun _ _ _ _ => trivial, hkeep⟩

theorem runs_mapM {f : β → Assembly α} {motive : List β → List α → Cube → Prop}
    (start : motive [] [] c)
    (step : ∀ done x rest ys c, l = done ++ x :: rest → motive done ys c →
      (Runs (f x) c ↔ P done x) ∧
        ∀ y c', Yields (f x) c y c' → motive (done ++ [x]) (ys ++ [y]) c') :
    Runs (l.mapM f) c ↔ ∀ done x rest, l = done ++ x :: rest → P done x := by
  refine runs_loop (fun rest (_ : List α) c => Runs (rest.mapM f) c)
    (fun x ys c ys' c' => ∃ y, Yields (f x) c y c' ∧ ys' = ys ++ [y])
    (fun _ _ => runs_pure) ?_ start ?_
  · intro x rest ys c
    rw [List.mapM_cons, runs_bind]
    simp only [runs_bind_pure]
    constructor
    · rintro ⟨y, c', hy, hrest⟩
      exact ⟨_, c', ⟨y, hy, rfl⟩, hrest⟩
    · rintro ⟨_, c', ⟨y, hy, rfl⟩, hrest⟩
      exact ⟨y, c', hy, hrest⟩
  · intro done x rest ys c hl hm
    obtain ⟨hruns, hkeep⟩ := step done x rest ys c hl hm
    constructor
    · rw [← hruns]
      constructor
      · rintro ⟨_, c', y, hy, rfl⟩
        exact ⟨y, c', hy⟩
      · rintro ⟨y, c', hy⟩
        exact ⟨_, c', y, hy, rfl⟩
    · rintro _ c' ⟨y, hy, rfl⟩
      exact hkeep y c' hy

theorem forall_split_iff_mem {Q : β → Prop} :
    (∀ done x rest, l = done ++ x :: rest → Q x) ↔ ∀ x ∈ l, Q x := by
  constructor
  · intro h x hx
    obtain ⟨done, rest, hsplit⟩ := List.append_of_mem hx
    exact h done x rest hsplit
  · rintro h done x rest rfl
    exact h x (by simp)

/-- What every item needs for itself, and what it needs of the items before it. -/
theorem forall_split_iff {Q : β → Prop} {R : β → β → Prop} :
    (∀ done x rest, l = done ++ x :: rest → Q x ∧ ∀ y ∈ done, R y x) ↔
      (∀ x ∈ l, Q x) ∧ l.Pairwise R := by
  constructor
  · intro h
    refine ⟨forall_split_iff_mem.1 fun done x rest hsplit => (h done x rest hsplit).1, ?_⟩
    induction l using List.reverseRecOn with
    | nil => exact .nil
    | append_singleton l x ih =>
      rw [List.pairwise_append]
      refine ⟨ih fun done y rest hsplit => ?_, List.pairwise_singleton _ _, ?_⟩
      · exact h done y (rest ++ [x]) (by simp [hsplit])
      · rintro y hy _ (_ | ⟨_, ⟨⟩⟩)
        exact (h l x [] rfl).2 y hy
  · rintro ⟨hitems, hpairs⟩ done x rest rfl
    exact ⟨hitems x (by simp), fun y hy =>
      (List.pairwise_append.1 hpairs).2.2 y hy x List.mem_cons_self⟩

theorem forall_split_iff_pairwise {R : β → β → Prop} :
    (∀ done x rest, l = done ++ x :: rest → ∀ y ∈ done, R y x) ↔ l.Pairwise R := by
  simpa using forall_split_iff (l := l) (Q := fun _ => True) (R := R)

end Loops

/-! ### What steps leave alone -/

/-- The step changes nothing that `view` shows of a cube. -/
def Preserves {α γ : Type} (view : Cube → γ) (x : Assembly α) : Prop :=
  ∀ c a c', Yields x c a c' → view c' = view c

namespace Preserves

variable {α β γ σ : Type} {view : Cube → γ}

theorem pure {a : α} : Preserves view (pure a) := by
  intro c b c' hy
  rw [(yields_pure.1 hy).2]

theorem fail {fault : SchemaFault} : Preserves view (Assembly.fail fault : Assembly α) :=
  fun _ _ _ hy => absurd hy yields_fail

theorem consult {x : Except TableFault α} : Preserves view (Assembly.consult x) := by
  intro c b c' hy
  rw [(yields_consult.1 hy).2]

theorem get : Preserves view get := by
  intro c b c' hy
  rw [(yields_get.1 hy).2]

theorem bind {x : Assembly α} {f : α → Assembly β} (hx : Preserves view x)
    (hf : ∀ a, Preserves view (f a)) : Preserves view (x >>= f) := by
  intro c b c' hy
  obtain ⟨a, c₁, hy₁, hy₂⟩ := yields_bind.1 hy
  rw [hf a c₁ b c' hy₂, hx c a c₁ hy₁]

theorem forM {f : β → Assembly Unit} (hf : ∀ x, Preserves view (f x)) (xs : List β) :
    Preserves view (xs.forM f) := by
  intro c u c' hy
  refine forM_induction (motive := fun _ c' => view c' = view c) hy rfl ?_
  intro done x rest c₁ c₂ _ hold hy
  rw [hf x c₁ () c₂ hy, hold]

theorem foldlM {f : σ → β → Assembly σ} (hf : ∀ s x, Preserves view (f s x)) (xs : List β) (s : σ) :
    Preserves view (xs.foldlM f s) := by
  intro c s' c' hy
  refine foldlM_induction (motive := fun _ _ c' => view c' = view c) hy rfl ?_
  intro done x rest s₁ c₁ s₂ c₂ _ hold hy
  rw [hf s₁ x c₁ s₂ c₂ hy, hold]

theorem mapM {f : β → Assembly α} (hf : ∀ x, Preserves view (f x)) (xs : List β) :
    Preserves view (xs.mapM f) := by
  intro c ys c' hy
  refine mapM_induction (motive := fun _ _ c' => view c' = view c) hy rfl ?_
  intro done x rest ys c₁ y c₂ _ hold hy
  rw [hf x c₁ y c₂ hy, hold]

end Preserves

section Functions

variable {γ : Type} {view : Cube → γ} {layout : DimensionLayout} {table : Table} {h : HierarchyId}
  {a : MemberId} (hlevel : ∀ h name column, Preserves view (addLevel h name column))
  (hchild : ∀ caption l p, Preserves view (addChild caption l p))

include hchild

theorem preserves_childOf {l : LevelId} {value : Value} {found : ChildIndex} :
    Preserves view (childOf l value a found) := by
  unfold childOf
  split
  · exact .pure
  · exact .bind (hchild _ _ _) fun _ => .pure

include hlevel

/-- Beyond their tables, the levels of either kind only add levels and children. -/
theorem preserves_addRegularLevels : Preserves view (addRegularLevels layout table h a) := by
  refine .bind (.mapM (fun column => .bind .consult fun _ =>
    .bind (hlevel _ _ _) fun _ => .pure) _) fun levels => ?_
  refine .bind (.foldlM (fun s row => ?_) _ _) fun _ => .pure
  exact .bind (.foldlM (fun s level => preserves_childOf hchild) _ _) fun _ => .pure

theorem preserves_addNestedLevels {column : String} {rows : KeyRows} :
    Preserves view (addNestedLevels layout column table rows h a) := by
  refine .bind .consult fun parent => .bind .consult fun key => .bind .consult fun caption => ?_
  split
  · exact .fail
  · split
    · exact .fail
    · refine .bind (.mapM (fun depth => .bind (hlevel _ _ _) fun _ => .pure) _) fun levels => ?_
      exact .foldlM (fun members pair => .foldlM (fun members row =>
        .bind (hchild _ _ _) fun _ => .pure) _ _) _ _

end Functions

end Assembly

end CubeQuery
