import CubeQuery.Proofs.Language.Joining
import CubeQuery.Proofs.Language.Parsing
import CubeQuery.Proofs.Language.Printing

/-!
Chains of operators, however long: products are grouped first and then sums, both from the left. A
chain takes two levels more than its operands, so that none is too long to be read.
-/

namespace CubeQuery.Language

open Grammar

variable {α β : Type}

/-! ### Groups -/

def Operator.isProduct : Operator → Bool
  | .multiply | .divide => true
  | .add | .subtract => false

/-- Operators with their right operands, cut before every sum: the products behind the first
operand, and then each sum with its right operand and the products behind that. -/
def splitSums :
    List (Operator × α) → List (Operator × α) × List (Operator × α × List (Operator × α))
  | [] => ([], [])
  | (op, a) :: rest =>
    if op.isProduct then ((op, a) :: (splitSums rest).1, (splitSums rest).2)
    else ([], (op, a, (splitSums rest).1) :: (splitSums rest).2)

/-- Operands joined from the left. -/
def Expr.joined (first : Expr) (rest : List (Operator × Expr)) : Expr :=
  rest.foldl (fun left p => .binary p.1 left p.2) first

/-- A chain as a tree: first every longest run of products is joined, then the runs are. -/
def Expr.grouped (first : Expr) (rest : List (Operator × Expr)) : Expr :=
  (first.joined (splitSums rest).1).joined
    ((splitSums rest).2.map fun run => (run.1, run.2.1.joined run.2.2))

/-- A chain of products is joined from the left. -/
theorem Expr.grouped_products (first : Expr) (es : List Expr) :
    first.grouped (es.map (Operator.multiply, ·)) = es.foldl (.binary .multiply) first := by
  have hsplit : splitSums (es.map (Operator.multiply, ·)) =
      (es.map (Operator.multiply, ·), []) := by
    induction es with
    | nil => rfl
    | cons e es ih =>
      rw [List.map_cons, splitSums, ih]
      rfl
  rw [grouped, hsplit, List.map_nil, joined, joined, List.foldl_map]
  rfl

/-- A chain of sums is joined from the left. -/
theorem Expr.grouped_sums (first : Expr) (es : List Expr) :
    first.grouped (es.map (Operator.add, ·)) = es.foldl (.binary .add) first := by
  have hsplit : splitSums (es.map (Operator.add, ·)) =
      ([], es.map fun e => (Operator.add, e, [])) := by
    induction es with
    | nil => rfl
    | cons e es ih =>
      rw [List.map_cons, splitSums, ih]
      rfl
  rw [grouped, hsplit, List.map_map, joined, joined, List.foldl_map]
  rfl

/-- The operands of a chain with their operators between them. -/
def chainText (first : String) : List (Operator × String) → String
  | [] => first
  | (op, next) :: rest => first ++ " " ++ op.symbol ++ " " ++ chainText next rest

/-- The text of one operand: alone it reads as the expression, with two levels to spare, it has no
comments in it, and no operator divides it. -/
structure OperandText (text : String) (e : Expr) : Prop where
  reads : Expr.ofText text = .ok e
  spare : ∃ e', Expr.ofTextWithin (nestingLimit - 2) text = .ok e'
  undivided : ∃ ts, Plain text.toList ts ∧ Undivided ts

theorem splitSums_map (f : α → β) (rest : List (Operator × α)) :
    splitSums (rest.map fun p => (p.1, f p.2)) =
      ((splitSums rest).1.map fun p => (p.1, f p.2),
        (splitSums rest).2.map fun run =>
          (run.1, f run.2.1, run.2.2.map fun p => (p.1, f p.2))) := by
  induction rest with
  | nil => rfl
  | cons p rest ih =>
    obtain ⟨op, a⟩ := p
    rw [List.map_cons, splitSums, splitSums, ih]
    split <;> rfl

theorem Expr.joined_unplaced (first : Expr) (rest : List (Operator × Expr)) :
    (first.joined rest).unplaced =
      first.unplaced.joined (rest.map fun p => (p.1, p.2.unplaced)) := by
  induction rest generalizing first with
  | nil => rfl
  | cons p rest ih => exact ih (.binary p.1 first p.2)

/-- Positions have no part in the grouping. -/
theorem Expr.grouped_unplaced (first : Expr) (rest : List (Operator × Expr)) :
    (first.grouped rest).unplaced =
      first.unplaced.grouped (rest.map fun p => (p.1, p.2.unplaced)) := by
  rw [grouped, grouped, splitSums_map, joined_unplaced, joined_unplaced, List.map_map, List.map_map]
  congr 1
  apply List.map_congr_left
  intro run _
  exact Prod.ext rfl (joined_unplaced run.2.1 run.2.2)

theorem of_mem_splitSums {p : Operator × α} {rest : List (Operator × α)}
    (hp : p ∈ (splitSums rest).1) : p ∈ rest ∧ p.1.isProduct = true := by
  induction rest with
  | nil => cases hp
  | cons q rest ih =>
    obtain ⟨op, a⟩ := q
    rw [splitSums] at hp
    split at hp
    · rename_i hproduct
      rcases List.mem_cons.1 hp with rfl | hp
      · exact ⟨List.mem_cons_self, hproduct⟩
      · exact (ih hp).imp_left (List.mem_cons_of_mem _)
    · cases hp

theorem Operator.precedence_eq (op : Operator) :
    op.precedence = if op.isProduct then 2 else 1 := by
  cases op <;> rfl

/-! ### Tokens of a chain -/

namespace Grammar

/-- The tokens of operators with their right operands. -/
def chainTokens : List (Operator × List Token × Expr) → List Token
  | [] => []
  | (op, ts, _) :: rest => op.token :: (ts ++ chainTokens rest)

variable {levels least : Nat} {ts us : List Token} {first left e : Expr}
  {run rest : List (Operator × List Token × Expr)}

/-- Products join to the left operand one after the other, whatever the chain is part of. -/
theorem Chain.products (hleast : least ≤ 2) (hproduct : ∀ p ∈ run, p.1.isProduct = true)
    (hrun : ∀ p ∈ run, Operand (Within levels) p.2.1 p.2.2)
    (h : Chain (Within (levels + 1)) least (left.joined (run.map fun p => (p.1, p.2.2))) us e) :
    Chain (Within (levels + 1)) least left (chainTokens run ++ us) e := by
  induction run generalizing left with
  | nil => exact h
  | cons p run ih =>
    obtain ⟨op, ts, a⟩ := p
    obtain ⟨hop, hproduct⟩ := List.forall_mem_cons.1 hproduct
    obtain ⟨hoperand, hrun⟩ := List.forall_mem_cons.1 hrun
    have hprecedence : op.precedence = 2 := by
      rw [op.precedence_eq, if_pos hop]
    rw [chainTokens, List.cons_append, List.append_assoc]
    refine .step (hprecedence ▸ hleast) hoperand.within ?_ (ih hproduct hrun h)
    rw [hprecedence]
    exact quiet_three

/-- Behind the first products the chain goes on run by run, each one level further in. -/
theorem Chain.sums (hrest : ∀ p ∈ rest, Operand (Within levels) p.2.1 p.2.2) :
    ∃ us, chainTokens rest = chainTokens (splitSums rest).1 ++ us ∧ Quiet 2 us ∧
      ∀ left : Expr, Chain (Within (levels + 2)) 0 left us (left.joined
        ((splitSums rest).2.map fun run =>
          (run.1, run.2.1.2.joined (run.2.2.map fun p => (p.1, p.2.2))))) := by
  induction rest with
  | nil => exact ⟨[], rfl, by nofun, fun left => .nil left⟩
  | cons p rest ih =>
    obtain ⟨op, ts, a⟩ := p
    obtain ⟨hoperand, hrest⟩ := List.forall_mem_cons.1 hrest
    obtain ⟨us, htokens, hquiet, hsums⟩ := ih hrest
    rw [chainTokens, htokens, splitSums]
    -- A product goes on with the run, any other operator starts the next one.
    by_cases hop : op.isProduct = true
    · rw [if_pos hop]
      refine ⟨us, ?_, hquiet, hsums⟩
      rw [chainTokens, List.cons_append, List.append_assoc]
    · rw [if_neg hop]
      have hprecedence : op.precedence = 1 := by
        rw [op.precedence_eq, if_neg hop]
      have hrun : Within (levels + 2) 2 (ts ++ chainTokens (splitSums rest).1)
          (a.joined ((splitSums rest).1.map fun p => (p.1, p.2.2))) := by
        refine ⟨ts, _, a, rfl, hoperand.mono fun _ _ _ => Within.mono (Nat.le_succ levels), ?_⟩
        rw [← List.append_nil (chainTokens _)]
        exact .products (Nat.le_refl 2) (fun p hp => (of_mem_splitSums hp).2)
          (fun p hp => hrest p (of_mem_splitSums hp).1) (.nil _)
      refine ⟨_, rfl, ?_, fun left => ?_⟩
      · rintro op' hop'
        cases (operator?_token op).symm.trans hop'
        rw [hprecedence]
        decide
      · rw [← List.append_assoc]
        refine .step (Nat.zero_le _) ?_ ?_ (hsums _)
        · rw [hprecedence]
          exact hrun
        · rw [hprecedence]
          exact hquiet

/-- Operands with operators between them are a chain of any length. -/
theorem Within.grouped (hfirst : Operand (Within levels) ts first)
    (hrest : ∀ p ∈ rest, Operand (Within levels) p.2.1 p.2.2) :
    Within (levels + 3) 0 (ts ++ chainTokens rest)
      (first.grouped (rest.map fun p => (p.1, p.2.2))) := by
  have hmore {ts : List Token} {e : Expr} {n : Nat} (h : Operand (Within levels) ts e) :
      Operand (Within (levels + n)) ts e :=
    h.mono fun _ _ _ => Within.mono (Nat.le_add_right levels n)
  obtain ⟨us, htokens, -, hsums⟩ := Chain.sums hrest
  refine ⟨ts, _, first, rfl, hmore hfirst, ?_⟩
  rw [htokens, Expr.grouped, splitSums_map, List.map_map]
  refine .products (Nat.zero_le 2) (fun p hp => (of_mem_splitSums hp).2) ?_ (hsums _)
  exact fun p hp => hmore (hrest p (of_mem_splitSums hp).1)

end Grammar

/-! ### Whole texts -/

variable {text : String} {ts : List Token} {e : Expr}

/-- The tokens of an operand's text are an operand. -/
theorem OperandText.operand (h : OperandText text e) :
    ∃ ts e', Plain text.toList ts ∧ Operand (Within 125) ts e' ∧ e'.unplaced = e.unplaced := by
  obtain ⟨e', hspare⟩ := h.spare
  obtain ⟨ts, hplain, hts⟩ := h.undivided
  have hwithin : Within 126 0 ts e' := Expr.within_of_ofTextWithin hplain.spelled hspare
  obtain ⟨e'', hread, hsame⟩ :=
    Expr.ofTextWithin_of_within hplain.spelled (hwithin.mono (by decide : 126 ≤ nestingLimit))
  rw [Expr.ofTextWithin_nestingLimit, h.reads] at hread
  cases hread
  exact ⟨ts, e', hplain, hwithin.operand hts, hsame.symm⟩

theorem operandText_of_operand (hplain : Plain text.toList ts) (h : Operand (Within 125) ts e) :
    ∃ e', OperandText text e' ∧ e'.unplaced = e.unplaced := by
  have hwithin : Within 126 0 ts e := h.within
  obtain ⟨e', hread, hsame⟩ :=
    Expr.ofTextWithin_of_within hplain.spelled (hwithin.mono (by decide : 126 ≤ nestingLimit))
  obtain ⟨e'', hspare, -⟩ := Expr.ofTextWithin_of_within hplain.spelled hwithin
  exact ⟨e', ⟨hread, ⟨e'', hspare⟩, ts, hplain, h.undivided⟩, hsame⟩

/-- The tokens of a chain are those of its operands with the operators between them. -/
theorem exists_chainTokens {rest : List (Operator × String × Expr)}
    (hrest : ∀ p ∈ rest, OperandText p.2.1 p.2.2) :
    ∃ rest' : List (Operator × List Token × Expr),
      (∀ p ∈ rest', Operand (Within 125) p.2.1 p.2.2) ∧
      (rest'.map fun p => (p.1, p.2.2.unplaced)) = (rest.map fun p => (p.1, p.2.2.unplaced)) ∧
      ∀ text ts, Plain text.toList ts →
        Spelled (chainText text (rest.map fun p => (p.1, p.2.1))).toList
          (ts ++ chainTokens rest') := by
  induction rest with
  | nil =>
    refine ⟨[], List.forall_mem_nil _, rfl, fun text ts h => ?_⟩
    rw [chainTokens, List.append_nil]
    exact h.spelled
  | cons p rest ih =>
    obtain ⟨op, next, e⟩ := p
    obtain ⟨hnext, hrest⟩ := List.forall_mem_cons.1 hrest
    obtain ⟨us, e', hplain, hoperand, hsame⟩ := hnext.operand
    obtain ⟨rest', hoperands, hexprs, hspelled⟩ := ih hrest
    refine ⟨(op, us, e') :: rest', List.forall_mem_cons.2 ⟨hoperand, hoperands⟩, ?_, ?_⟩
    · rw [List.map_cons, List.map_cons, hexprs]
      exact congrArg (fun a => (op, a) :: _) hsame
    · intro text ts h
      have hchain := h.append (spelled_operator op (hspelled next us hplain))
      rw [List.map_cons, chainText]
      simp only [String.toList_append, List.append_assoc]
      exact hchain

/-- What stands behind the minus sign of an operand is what is negated. -/
theorem OperandText.negated (h : OperandText ("-" ++ text) e) :
    ∃ e', Expr.ofText text = .ok e' ∧ e.unplaced = (Expr.negate e').unplaced := by
  obtain ⟨ts, e₁, hplain, hoperand, hsame⟩ := h.operand
  rw [String.toList_append] at hplain
  have hplain : Plain ('-' :: text.toList) ts := hplain
  cases hplain with
  | blank hc => cases hc
  | token hgap htoken hrest =>
    cases htoken
    have hspelled : Spelled text.toList _ := hrest.spelled
    cases hoperand with
    | named position ht => cases ht
    | @negate us e₂ he =>
      have hwithin : Within nestingLimit 0 _ e₂ :=
        (Operand.within he.tight).mono (by decide : 125 ≤ nestingLimit)
      obtain ⟨e', hread, he'⟩ := Expr.ofTextWithin_of_within hspelled hwithin
      refine ⟨e', hread, ?_⟩
      rw [← hsame, Expr.unplaced, Expr.unplaced, he']

/-- A chain of operands of any length is read with products joined from the left first and then
sums from the left, and a minus sign in front of an operand negates that operand alone. -/
theorem chain_reads_grouped :
    (∀ text e, ∀ rest : List (Operator × String × Expr), OperandText text e →
      (∀ p ∈ rest, OperandText p.2.1 p.2.2) →
        ∃ tree, Expr.ofText (chainText text (rest.map fun p => (p.1, p.2.1))) = .ok tree ∧
          tree.unplaced = (e.grouped (rest.map fun p => (p.1, p.2.2))).unplaced) ∧
    ∀ text e, OperandText ("-" ++ text) e →
      ∃ e', Expr.ofText text = .ok e' ∧ e.unplaced = (Expr.negate e').unplaced := by
  refine ⟨?_, fun text e h => h.negated⟩
  intro text e rest hfirst hrest
  obtain ⟨ts, e₁, hplain, hoperand, hsame⟩ := hfirst.operand
  obtain ⟨rest', hoperands, hexprs, hspelled⟩ := exists_chainTokens hrest
  have hwithin : Within nestingLimit 0 (ts ++ chainTokens rest') _ :=
    Within.grouped hoperand hoperands
  obtain ⟨tree, hread, htree⟩ := Expr.ofTextWithin_of_within (hspelled text ts hplain) hwithin
  refine ⟨tree, hread, ?_⟩
  rw [htree, Expr.grouped_unplaced, Expr.grouped_unplaced, List.map_map, List.map_map, hsame]
  exact congrArg _ hexprs

/-- Both parts at work: `[a] - [b] * -[c] / ([d] + [e])`. -/
theorem chain_reads_grouped_margin : ∃ a b c d : Expr,
    (OperandText "[a]" a ∧ OperandText "[b]" b ∧ OperandText "-[c]" c ∧
      OperandText "([d] + [e])" d) ∧
    (∃ tree, Expr.ofText "[a] - [b] * -[c] / ([d] + [e])" = .ok tree ∧
      tree.unplaced =
        (Expr.binary .subtract a (.binary .divide (.binary .multiply b c) d)).unplaced) ∧
    ∃ e, Expr.ofText "[c]" = .ok e ∧ c.unplaced = (Expr.negate e).unplaced := by
  have hname (levels : Nat) (c : Char) :
      Operand (Within levels) [.bracketed (String.ofList [c])] (.path ⟨[String.ofList [c]], 0⟩) :=
    .named 0 rfl (fun _ => by nofun) .nil
  have hsum : Within 125 0 ([.bracketed (String.ofList ['d'])] ++ Operator.token .add ::
      ([.bracketed (String.ofList ['e'])] ++ [])) _ :=
    ⟨_, _, _, rfl, hname 124 'd', .step (Nat.zero_le _) (hname 123 'e').within (by nofun) (.nil _)⟩
  have haText : Plain ['[', 'a', ']'] [.bracketed (String.ofList ['a'])] := .token rfl rfl .nil
  have hbText : Plain ['[', 'b', ']'] [.bracketed (String.ofList ['b'])] := .token rfl rfl .nil
  have hcText : Plain ['-', '[', 'c', ']'] [.symbol .minus, .bracketed (String.ofList ['c'])] :=
    .token rfl rfl (.token rfl rfl .nil)
  have hdText : Plain ['(', '[', 'd', ']', ' ', '+', ' ', '[', 'e', ']', ')'] [.symbol .openParen,
      .bracketed (String.ofList ['d']), .symbol .plus, .bracketed (String.ofList ['e']),
      .symbol .closeParen] :=
    .token rfl rfl (.token rfl rfl (.blank rfl (.token rfl rfl (.blank rfl (.token rfl rfl
      (.token rfl rfl .nil))))))
  obtain ⟨a, ha, -⟩ := @operandText_of_operand "[a]" _ _ haText (hname 125 'a')
  obtain ⟨b, hb, -⟩ := @operandText_of_operand "[b]" _ _ hbText (hname 125 'b')
  obtain ⟨c, hc, -⟩ := @operandText_of_operand "-[c]" _ _ hcText (.negate (hname 124 'c').within)
  obtain ⟨d, hd, -⟩ := @operandText_of_operand "([d] + [e])" _ _ hdText (.grouped hsum)
  refine ⟨a, b, c, d, ⟨ha, hb, hc, hd⟩, ?_, chain_reads_grouped.2 "[c]" c hc⟩
  refine chain_reads_grouped.1 "[a]" a [(.subtract, "[b]", b), (.multiply, "-[c]", c),
    (.divide, "([d] + [e])", d)] ha ?_
  simp only [List.forall_mem_cons]
  exact ⟨hb, hc, hd, List.forall_mem_nil _⟩

end CubeQuery.Language
