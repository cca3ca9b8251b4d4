import CubeQuery.Proofs.Language.Accepting
import CubeQuery.Proofs.Language.Printing
import CubeQuery.Proofs.Language.ReadingStatements

/-!
Standard text reads back: a query or an expression that was read from text, once it is written out
in its standard text, reads as itself again, apart from the positions of its paths. The one
exception is text that nests too deeply, which is refused for that reason.
-/

namespace CubeQuery.Language

open CubeQuery.Text

variable {e : Expr} {st : Statement}

theorem Writes.spells {text : String} {ts : List Token} (h : Writes text ts) :
    (Lexemes.ofQuery text).Spells ts := by
  have hspelled := h [] [] ends_nil spelled_nil
  rw [List.append_nil, List.append_nil] at hspelled
  exact hspelled.scan 0

/-! ### Expressions -/

theorem Expr.Readable.ofText_render (he : e.Readable) (hn : e.NegatesOnce)
    (hdepth : e.depth ≤ nestingLimit) :
    ∃ e', Expr.ofText e.render = .ok e' ∧ e'.unplaced = e.unplaced := by
  have hspells := (he.writes hn).spells
  rw [← List.append_nil e.tokens] at hspells
  exact Expr.ofTextWithin_of_reads hspells (he.reads hspells closed_nil) hdepth

theorem Expr.Readable.ofText_render_tooDeep (he : e.Readable) (hn : e.NegatesOnce)
    (hdepth : nestingLimit < e.depth) :
    ∃ error, Expr.ofText e.render = .error error ∧ error.fault = .nestingTooDeep := by
  have hspells := (he.writes hn).spells
  rw [← List.append_nil e.tokens] at hspells
  obtain ⟨error, hread, hfault⟩ :=
    (he.reads hspells closed_nil).fault (Nat.not_le_of_gt hdepth)
  refine ⟨error, ?_, hfault⟩
  rw [Expr.ofText, hspells.checked]
  show (expr (Lexemes.ofQuery e.render) >>= _) = _
  rw [hread]
  rfl

/-! ### Statements -/

theorem Statement.Readable.ofText_render (hst : st.Readable)
    (hn : ∀ e ∈ st.exprs, e.NegatesOnce) (hdepth : ∀ e ∈ st.exprs, e.depth ≤ nestingLimit) :
    ∃ st', Statement.ofText st.render = .ok st' ∧ st'.unplaced = st.unplaced := by
  have hspells := (hst.writes hn).spells
  obtain ⟨st', s, hread, hst', -⟩ := (hst.reads hspells).result hdepth
  refine ⟨st', ?_, hst'⟩
  rw [Statement.ofText, hspells.checked]
  show (statement (Lexemes.ofQuery st.render) >>= _) = _
  rw [hread]
  rfl

theorem Statement.Readable.ofText_render_tooDeep (hst : st.Readable)
    (hn : ∀ e ∈ st.exprs, e.NegatesOnce) (hdepth : ∃ e ∈ st.exprs, nestingLimit < e.depth) :
    ∃ error, Statement.ofText st.render = .error error ∧ error.fault = .nestingTooDeep := by
  have hspells := (hst.writes hn).spells
  obtain ⟨e, he, hdeep⟩ := hdepth
  obtain ⟨error, hread, hfault⟩ :=
    (hst.reads hspells).fault fun hfits => absurd (hfits e he) (Nat.not_le_of_gt hdeep)
  refine ⟨error, ?_, hfault⟩
  rw [Statement.ofText, hspells.checked]
  show (statement (Lexemes.ofQuery st.render) >>= _) = _
  rw [hread]
  rfl

/-! ### Sums

A sum is read in one loop, however many terms it has, but its standard text has a pair of
parentheses for each plus sign. -/

def sumText (n : Nat) : String :=
  "[a]" ++ String.join (List.replicate n " + [a]")

def sumTokens (n : Nat) : List Token :=
  (List.replicate n [Token.symbol .plus, .bracketed "a"]).flatten

theorem clause_sum (n : Nat) : Clause (String.join (List.replicate n " + [a]")) (sumTokens n) := by
  have hterm : Clause " + [a]" [.symbol .plus, .bracketed "a"] := by
    constructor
    · intro cs us hcs h
      have ha := writes_bracketed "a" _ _ hcs h
      exact (Spelled.symbol .plus (by nofun) (by nofun) ha.blank).blank
    · exact fun _ => ends_blank
  induction n with
  | zero => exact clause_none
  | succ n ih =>
    rw [List.replicate_succ, String.join_cons]
    exact hterm.append ih

theorem reads_sum {levels n : Nat} {left : Expr} {s : Lexemes} (hleft : left.NegatesOnce)
    (hs : s.Spells (sumTokens n)) :
    Reads (chain (exprWithin (levels + 1)) 0 left s) True
      (fun e => e.NegatesOnce ∧ left.depth + n ≤ e.depth ∧ left.height + n ≤ e.height) [] := by
  induction n generalizing left s with
  | zero =>
    rw [Expr.chain_stop hs (by nofun)]
    exact reads_ok trivial ⟨hleft, Nat.le_refl _, Nat.le_refl _⟩ hs
  | succ n ih =>
    have ha : (Expr.path ⟨["a"], 0⟩).ReadsBack := Expr.readsBack_path (by nofun)
    -- The term ends where the next sign stands, which binds no tighter than this one.
    have hnext : Follows (sumTokens n) ∧ Quiet 2 (sumTokens n) := by
      cases n with
      | zero => exact ⟨closed_nil.1, by nofun⟩
      | succ n =>
        refine ⟨follows_cons (by decide) (by decide), ?_⟩
        rintro op ⟨⟩
        decide
    have hs : s.Spells (.symbol .plus :: .bracketed "a" :: sumTokens n) := hs
    rw [chain, hs.operator?]
    refine Moves.bind hs.advance fun s₁ hs₁ => ?_
    have hterm : Reads (exprWithin (levels + 1) 2 s₁) True _ (sumTokens n) :=
      (ha.within hs₁ hnext.1 hnext.2).congr (iff_true_intro (Nat.le_add_left 1 levels))
    refine hterm.map fun right s₂ hright hs₂ => ?_
    have hshorter : s₂.size < s.size := by
      rw [hs₂.size, hs.size, List.length_cons, List.length_cons]
      omega
    have hnegates : right.NegatesOnce := by
      rw [← right.negatesOnce_unplaced, hright]
      trivial
    have hsum : (Expr.binary .add left right).NegatesOnce := ⟨hleft, hnegates⟩
    dsimp only
    rw [if_pos hshorter]
    refine (ih hsum hs₂).mono fun e he => ⟨he.1, ?_, ?_⟩
    · have := he.2.1
      rw [Expr.depth] at this
      omega
    · have := he.2.2
      rw [Expr.height, Expr.levelsBy] at this
      rw [Expr.height]
      omega

/-- Sums of every length can be read, and so there is no bound to how deep standard text nests, nor
to how high expressions are. -/
theorem exists_sum (n : Nat) :
    ∃ e, Expr.ofText (sumText n) = .ok e ∧ e.NegatesOnce ∧ n < e.depth ∧ n < e.height := by
  have hspells : (Lexemes.ofQuery (sumText n)).Spells (.bracketed "a" :: sumTokens n) :=
    ((writes_bracketed "a").append (clause_sum n)).spells
  have ha : (Expr.path ⟨["a"], 0⟩).ReadsBack := Expr.readsBack_path (by nofun)
  have hfollows : Follows (sumTokens n) := by
    cases n with
    | zero => exact closed_nil.1
    | succ n => exact follows_cons (by decide) (by decide)
  have hread : Reads (expr (Lexemes.ofQuery (sumText n))) True
      (fun e => e.NegatesOnce ∧ n < e.depth ∧ n < e.height) [] := by
    have hfirst := (ha 127 _ _ hspells hfollows).congr (iff_true_intro (by decide))
    refine hfirst.next fun left s hleft hs => ?_
    have hnegates : left.NegatesOnce := by
      rw [← left.negatesOnce_unplaced, hleft]
      trivial
    refine (@reads_sum 126 n left s hnegates hs).mono fun e he => ⟨he.1, ?_, ?_⟩
    · exact (Nat.lt_add_of_pos_left left.depth_pos).trans_le he.2.1
    · exact (Nat.lt_add_of_pos_left left.height_pos).trans_le he.2.2
  exact Expr.ofTextWithin_of_reads hspells hread trivial

/-! ### The law -/

/-- A query or an expression that was read, in which no negation is applied directly to a negation,
is written as text that reads back as itself, positions apart, if nothing in it nests more than 128
levels deep, and that is refused for its nesting otherwise. -/
theorem render_reads_back :
    (∀ text st, Statement.ofText text = .ok st → (∀ e ∈ st.exprs, e.NegatesOnce) →
      ((∀ e ∈ st.exprs, e.depth ≤ 128) →
        ∃ st', Statement.ofText st.render = .ok st' ∧ st'.unplaced = st.unplaced) ∧
      ((∃ e ∈ st.exprs, 128 < e.depth) →
        ∃ error, Statement.ofText st.render = .error error ∧ error.fault = .nestingTooDeep ∧
          error.fault.message = "expression nests deeper than 128 levels")) ∧
    ∀ text e, Expr.ofText text = .ok e → e.NegatesOnce →
      (e.depth ≤ 128 → ∃ e', Expr.ofText e.render = .ok e' ∧ e'.unplaced = e.unplaced) ∧
      (128 < e.depth →
        ∃ error, Expr.ofText e.render = .error error ∧ error.fault = .nestingTooDeep ∧
          error.fault.message = "expression nests deeper than 128 levels") := by
  have hmessage {error : SyntaxError} (h : error.fault = .nestingTooDeep) :
      error.fault.message = "expression nests deeper than 128 levels" := by
    rw [h]
    decide
  constructor
  · intro text st hread hn
    have hst := Statement.readable_of_ofText hread
    refine ⟨fun hdepth => hst.ofText_render hn hdepth, fun hdepth => ?_⟩
    obtain ⟨error, herror, hfault⟩ := hst.ofText_render_tooDeep hn hdepth
    exact ⟨error, herror, hfault, hmessage hfault⟩
  · intro text e hread hn
    have he := Expr.readable_of_ofText hread
    refine ⟨fun hdepth => he.ofText_render hn hdepth, fun hdepth => ?_⟩
    obtain ⟨error, herror, hfault⟩ := he.ofText_render_tooDeep hn hdepth
    exact ⟨error, herror, hfault, hmessage hfault⟩

/-- A query with every kind of clause. -/
def marginQuery : Statement where
  definitions :=
    [.member ⟨⟨["Measures", "Margin"], 0⟩,
      .binary .subtract (.path ⟨["Measures", "Sales"], 0⟩) (.negate (.path ⟨["Cost]"], 0⟩)),
      some "0.0\"%", -2⟩,
     .set ⟨⟨["Top"], 0⟩, .call .union [.path ⟨["a"], 0⟩, .property ⟨["b", "c"], 0⟩ .children]⟩]
  axes :=
    [⟨0, true, .set [.tuple [.path ⟨["x"], 0⟩, .path ⟨["y"], 0⟩], .flag .post], ["KEY"]⟩,
     ⟨1, false, .text "r", []⟩]
  cube := "Sales"
  slicer? := some (.set [])
  cellProperties := ["VALUE"]

theorem marginQuery_readable : marginQuery.Readable where
  definitions := by
    refine List.forall_mem_cons.2 ⟨?_, List.forall_mem_singleton.2 ?_⟩
    · exact ⟨by nofun, .binary _ (.path (by nofun)) (.negate (.path (by nofun))), by decide⟩
    · refine ⟨by nofun, .call (by decide) ?_, by decide⟩
      exact List.forall_mem_cons.2
        ⟨.path (by nofun), List.forall_mem_singleton.2 (.property (by nofun) _)⟩
  axes := by
    refine List.forall_mem_cons.2 ⟨?_, List.forall_mem_singleton.2 (.text "r")⟩
    refine .set (List.forall_mem_cons.2 ⟨.tuple (by decide) ?_, ?_⟩)
    · exact List.forall_mem_cons.2
        ⟨.path (by nofun), List.forall_mem_singleton.2 (.path (by nofun))⟩
    · exact List.forall_mem_singleton.2 (.flag _)
  indices := rfl
  count := by decide
  slicer := by
    rintro _ ⟨⟩
    exact .set (by nofun)

theorem marginQuery_negatesOnce : ∀ e ∈ marginQuery.exprs, e.NegatesOnce := by
  simp [marginQuery, Statement.exprs, Definition.expr, Expr.NegatesOnce, Expr.NegatesOnceAll,
    Expr.isNegation]

/-- Both halves at work. -/
theorem render_reads_back_sample :
    (∃ st, Statement.ofText marginQuery.render = .ok st ∧
      ∃ st', Statement.ofText st.render = .ok st' ∧ st'.unplaced = st.unplaced) ∧
    ∃ e, Expr.ofText (sumText 128) = .ok e ∧ ∃ error, Expr.ofText e.render = .error error ∧
      error.fault.message = "expression nests deeper than 128 levels" := by
  have hn := marginQuery_negatesOnce
  have hdepth : ∀ e ∈ marginQuery.exprs, e.depth ≤ 128 := by
    decide
  constructor
  · obtain ⟨st, hst, hsame⟩ := marginQuery_readable.ofText_render hn hdepth
    have hexprs := congrArg Statement.exprs hsame
    rw [Statement.exprs_unplaced, Statement.exprs_unplaced] at hexprs
    have htransfer {e : Expr} (he : e ∈ st.exprs) :
        ∃ e' ∈ marginQuery.exprs, e'.unplaced = e.unplaced := by
      apply List.mem_map.1
      rw [← hexprs]
      exact List.mem_map_of_mem he
    refine ⟨st, hst, ((render_reads_back.1 _ st hst ?_).1 ?_)⟩
    · intro e he
      obtain ⟨e', he', heq⟩ := htransfer he
      rw [← e.negatesOnce_unplaced, ← heq, e'.negatesOnce_unplaced]
      exact hn e' he'
    · intro e he
      obtain ⟨e', he', heq⟩ := htransfer he
      rw [← e.depth_unplaced, ← heq, e'.depth_unplaced]
      exact hdepth e' he'
  · obtain ⟨e, he, hnegates, hdeep, -⟩ := exists_sum 128
    obtain ⟨error, herror, -, hmessage⟩ := (render_reads_back.2 _ e he hnegates).2 hdeep
    exact ⟨e, he, error, herror, hmessage⟩

end CubeQuery.Language
