import CubeQuery.Proofs.Language.RoundTrip

/-!
How high the expressions are that can be read. The limit counts how far operands nest to the right
and in parentheses, braces, calls and negations; a chain of operators is read in one loop, so that
it adds to the height of the tree but not to the count.
-/

namespace CubeQuery.Language

namespace Expr

/-- How many operators are joined from the left at the top of an expression. -/
def chainLength : Expr → Nat
  | .binary _ left _ => left.chainLength + 1
  | _ => 0

mutual

/-- The greatest number of operators that are joined from the left anywhere in an expression. -/
def longestChain : Expr → Nat
  | .path _ | .property _ _ | .number _ | .text _ | .flag _ => 0
  | .set items | .tuple items | .call _ items => longestChainAll items
  | .negate e => e.longestChain
  | .binary _ left right => max (left.chainLength + 1) (max left.longestChain right.longestChain)

def longestChainAll : List Expr → Nat
  | [] => 0
  | e :: es => max e.longestChain (longestChainAll es)

end

theorem chainLength_le_longestChain (e : Expr) : e.chainLength ≤ e.longestChain := by
  cases e with
  | binary op left right =>
    rw [chainLength, longestChain]
    exact Nat.le_max_left _ _
  | _ => exact Nat.zero_le _

mutual

/-- On the way down every level has at most one chain. -/
theorem height_add_le {c : Nat} :
    ∀ e : Expr, e.longestChain ≤ c → e.height + c ≤ e.nesting * (c + 1) + e.chainLength
  | .path _, _ | .property _ _, _ | .number _, _ | .text _, _ | .flag _, _ => by
    rw [height, nesting, levelsBy, levelsBy]
    omega
  | .set items, h | .tuple items, h | .call _ items, h => by
    have hitems := heightAll_le items h
    rw [height, nesting, levelsBy, levelsBy, Nat.add_mul]
    omega
  | .negate e, h => by
    have he := height_add_le e h
    have hchain := e.chainLength_le_longestChain.trans h
    rw [height, nesting] at he
    rw [height, nesting, levelsBy, levelsBy, Nat.add_mul]
    omega
  | .binary _ left right, h => by
    obtain ⟨-, hleftChain, hrightChain⟩ : _ ∧ left.longestChain ≤ c ∧ right.longestChain ≤ c :=
      (Nat.max_le.1 h).imp_right Nat.max_le.1
    have hleft := height_add_le left hleftChain
    have hright := height_add_le right hrightChain
    have hchain := right.chainLength_le_longestChain.trans hrightChain
    rw [height, nesting] at hleft hright
    rw [height, nesting, levelsBy, levelsBy, chainLength, Nat.zero_add]
    -- The chain grows at its left operand, and at its right operand one level further in.
    have hl := Nat.mul_le_mul_right (c + 1)
      (Nat.le_max_left (left.levelsBy 0 1) (1 + right.levelsBy 0 1))
    have hr := Nat.mul_le_mul_right (c + 1)
      (Nat.le_max_right (left.levelsBy 0 1) (1 + right.levelsBy 0 1))
    rw [Nat.add_mul] at hr
    omega

theorem heightAll_le {c : Nat} :
    ∀ es : List Expr, longestChainAll es ≤ c →
      levelsByAll 1 1 es ≤ levelsByAll 0 1 es * (c + 1)
  | [], _ => Nat.zero_le _
  | e :: es, h => by
    obtain ⟨hfirst, hrest⟩ := Nat.max_le.1 h
    have he := height_add_le e hfirst
    have hes := heightAll_le es hrest
    have hchain := e.chainLength_le_longestChain.trans hfirst
    rw [height, nesting] at he
    rw [levelsByAll, levelsByAll, Nat.max_le]
    have hl := Nat.mul_le_mul_right (c + 1)
      (Nat.le_max_left (e.levelsBy 0 1) (levelsByAll 0 1 es))
    have hr := Nat.mul_le_mul_right (c + 1)
      (Nat.le_max_right (e.levelsBy 0 1) (levelsByAll 0 1 es))
    omega

end

theorem height_le (e : Expr) : e.height ≤ e.nesting * (e.longestChain + 1) := by
  have hheight := e.height_add_le (Nat.le_refl _)
  have hchain := e.chainLength_le_longestChain
  omega

mutual

/-- No operation has a left operand that is higher than the right one. -/
def LeansRight : Expr → Prop
  | .path _ | .property _ _ | .number _ | .text _ | .flag _ => True
  | .set items | .tuple items | .call _ items => LeansRightAll items
  | .negate e => e.LeansRight
  | .binary _ left right => left.height ≤ right.height ∧ left.LeansRight ∧ right.LeansRight

def LeansRightAll : List Expr → Prop
  | [] => True
  | e :: es => e.LeansRight ∧ LeansRightAll es

end

mutual

/-- The count misses nothing where the right operands are the higher ones. -/
theorem height_le_nesting : ∀ e : Expr, e.LeansRight → e.height ≤ e.nesting
  | .path _, _ | .property _ _, _ | .number _, _ | .text _, _ | .flag _, _ => Nat.le_refl 1
  | .set items, h | .tuple items, h | .call _ items, h =>
    Nat.add_le_add_left (heightAll_le_nesting items h) 1
  | .negate e, h => Nat.add_le_add_left (height_le_nesting e h) 1
  | .binary _ left right, ⟨hlow, _, hright⟩ => by
    have hheight := height_le_nesting right hright
    rw [height, height] at hlow
    rw [height, nesting] at hheight
    rw [height, nesting, levelsBy, levelsBy]
    omega

theorem heightAll_le_nesting :
    ∀ es : List Expr, LeansRightAll es → levelsByAll 1 1 es ≤ levelsByAll 0 1 es
  | [], _ => Nat.le_refl 0
  | e :: es, ⟨he, hes⟩ => by
    have hfirst := height_le_nesting e he
    have hrest := heightAll_le_nesting es hes
    rw [height, nesting] at hfirst
    rw [levelsByAll, levelsByAll]
    omega

end

/-- The expression is read from the text: as the whole of it, or as a part of the statement that it
is. -/
def ReadFrom (text : String) (e : Expr) : Prop :=
  Expr.ofText text = .ok e ∨ ∃ st, Statement.ofText text = .ok st ∧ e ∈ st.exprs

theorem ReadFrom.nesting_le {text : String} {e : Expr} (h : ReadFrom text e) :
    e.nesting ≤ nestingLimit := by
  rcases h with h | ⟨st, hst, he⟩
  · exact (readableWithin_of_ofText h).nesting
  · exact (Statement.keeps_of_ofText hst).2 e he

end Expr

/-- An expression that is read nests no more than 128 levels inwards and to the right. It is no
higher than that if it leans to the right, and at most so many times as high as its longest chain of
operators allows. -/
theorem height_bounded_by_chains {text : String} {e : Expr} (h : Expr.ReadFrom text e) :
    e.nesting ≤ 128 ∧ (e.LeansRight → e.height ≤ 128) ∧ e.height ≤ 128 * (e.longestChain + 1) := by
  have hnesting : e.nesting ≤ 128 := h.nesting_le
  refine ⟨hnesting, fun hleans => ?_, ?_⟩
  · exact (e.height_le_nesting hleans).trans hnesting
  · calc
      e.height ≤ e.nesting * (e.longestChain + 1) := e.height_le
      _ ≤ 128 * (e.longestChain + 1) := Nat.mul_le_mul_right _ hnesting

/-- A sum of 129 terms is read, and is higher than the limit. -/
theorem sum_above_limit : ∃ e, Expr.ofText (sumText 128) = .ok e ∧ 128 < e.height := by
  obtain ⟨e, he, -, -, hn⟩ := exists_sum 128
  exact ⟨e, he, hn⟩

/-- A query with every kind of clause, and the sum, which keeps to the limit but for its height. -/
theorem height_bounded_by_chains_sample :
    (∃ st, Statement.ofText marginQuery.render = .ok st ∧ ∀ e ∈ st.exprs,
      e.nesting ≤ 128 ∧ (e.LeansRight → e.height ≤ 128)) ∧
    ∃ e, Expr.ofText (sumText 128) = .ok e ∧ 128 < e.height ∧ e.nesting ≤ 128 ∧
      e.height ≤ 128 * (e.longestChain + 1) := by
  constructor
  · have hdepth : ∀ e ∈ marginQuery.exprs, e.depth ≤ 128 := by
      decide
    obtain ⟨st, hst, -⟩ := marginQuery_readable.ofText_render marginQuery_negatesOnce hdepth
    refine ⟨st, hst, fun e he => ?_⟩
    have h := height_bounded_by_chains (.inr ⟨st, hst, he⟩)
    exact ⟨h.1, h.2.1⟩
  · obtain ⟨e, he, -, -, hn⟩ := exists_sum 128
    have h := height_bounded_by_chains (.inl he)
    exact ⟨e, he, hn, h.1, h.2.2⟩

end CubeQuery.Language
