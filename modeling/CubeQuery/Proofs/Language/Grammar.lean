import CubeQuery.Proofs.Language.Reading

/-!
The grammar of expressions over tokens. It follows the parser level by level, but says nothing of
where a token stands or of what comes behind the expression: the parser accepts nothing else, and
whatever is of this form it reads.
-/

namespace CubeQuery.Language

variable {t : Token} {ts us : List Token}

/-! ### Parentheses and braces -/

/-- How many parentheses and braces a token opens. -/
def Token.opens : Token → Int
  | .symbol .openParen | .symbol .openBrace => 1
  | .symbol .closeParen | .symbol .closeBrace => -1
  | _ => 0

/-- How many parentheses and braces are open behind some tokens. -/
def openAfter (ts : List Token) : Int :=
  (ts.map Token.opens).sum

@[simp] theorem openAfter_nil : openAfter [] = 0 := rfl

@[simp] theorem openAfter_cons (t : Token) (ts : List Token) :
    openAfter (t :: ts) = t.opens + openAfter ts :=
  List.sum_cons

@[simp] theorem openAfter_append (ts us : List Token) :
    openAfter (ts ++ us) = openAfter ts + openAfter us := by
  rw [openAfter, List.map_append, List.sum_append]
  rfl

/-- Tokens that close all that they open, and nothing else. -/
structure Nested (ts : List Token) : Prop where
  balance : openAfter ts = 0
  start (i : Nat) : 0 ≤ openAfter (ts.take i)

theorem nested_nil : Nested [] :=
  ⟨rfl, fun i => by rw [List.take_nil, openAfter_nil]⟩

theorem Nested.cons (ht : t.opens = 0) (h : Nested ts) : Nested (t :: ts) := by
  constructor
  · rw [openAfter_cons, ht, h.balance]
    rfl
  · rintro (_ | i)
    · exact Int.le_refl 0
    · rw [List.take_succ_cons, openAfter_cons, ht, Int.zero_add]
      exact h.start i

theorem Nested.append (h : Nested ts) (h' : Nested us) : Nested (ts ++ us) := by
  constructor
  · rw [openAfter_append, h.balance, h'.balance]
    rfl
  · intro i
    rw [List.take_append, openAfter_append]
    have := h.start i
    have := h'.start (i - ts.length)
    omega

theorem Nested.wrapped {first last : Token} (hfirst : first.opens = 1) (hlast : last.opens = -1)
    (h : Nested ts) : Nested (first :: (ts ++ [last])) := by
  constructor
  · rw [openAfter_cons, openAfter_append, hfirst, h.balance, openAfter_cons, hlast]
    rfl
  · rintro (_ | i)
    · exact Int.le_refl 0
    · have hend : -1 ≤ openAfter ([last].take (i - ts.length)) := by
        cases i - ts.length with
        | zero => exact (by decide : (-1 : Int) ≤ 0)
        | succ n =>
          rw [List.take_succ_cons, List.take_nil, openAfter_cons, hlast]
          decide
      rw [List.take_succ_cons, openAfter_cons, List.take_append, openAfter_append, hfirst]
      have := h.start i
      omega

theorem nested_commaTokens {groups : List (List Token)} (h : ∀ ts ∈ groups, Nested ts) :
    Nested (commaTokens groups) := by
  induction groups with
  | nil => exact nested_nil
  | cons group groups ih =>
    obtain ⟨hgroup, hgroups⟩ := List.forall_mem_cons.1 h
    cases groups with
    | nil => rwa [commaTokens_single]
    | cons next groups =>
      rw [commaTokens_cons_cons]
      exact hgroup.append (.cons rfl (ih hgroups))

/-! ### Operators outside parentheses -/

/-- No operator stands outside parentheses and braces, apart from minus signs in front. -/
def Undivided (ts : List Token) : Prop :=
  ∀ i, (h : i < ts.length) → ts[i].operator?.isSome → openAfter (ts.take i) = 0 →
    ∀ t ∈ ts.take i, t = .symbol .minus

/-- No operator at all stands outside parentheses and braces. -/
def Shielded (ts : List Token) : Prop :=
  ∀ i, (h : i < ts.length) → ts[i].operator?.isSome → openAfter (ts.take i) ≠ 0

theorem Shielded.undivided (h : Shielded ts) : Undivided ts :=
  fun i hi hoperator hzero => absurd hzero (h i hi hoperator)

theorem shielded_nil : Shielded [] :=
  fun _ hi => absurd hi (Nat.not_lt_zero _)

theorem Shielded.cons (ht : t.operator? = none) (hopens : t.opens = 0) (h : Shielded ts) :
    Shielded (t :: ts) := by
  rintro (_ | i) hi hoperator
  · rw [List.getElem_cons_zero, ht] at hoperator
    cases hoperator
  · rw [List.take_succ_cons, openAfter_cons, hopens, Int.zero_add]
    exact h i (Nat.lt_of_succ_lt_succ hi) hoperator

theorem shielded_wrapped {first last : Token} (hfirst : first.opens = 1)
    (hlast : last.operator? = none) (h : Nested ts) : Shielded (first :: (ts ++ [last])) := by
  rintro (_ | i) hi hoperator
  · cases first with
    | symbol x => cases x <;> cases hfirst <;> cases hoperator
    | _ => cases hfirst
  · rw [List.take_succ_cons, openAfter_cons, hfirst]
    rcases Nat.lt_or_ge i ts.length with hinside | hbehind
    · rw [List.take_append_of_le_length (Nat.le_of_lt hinside)]
      have := h.start i
      omega
    · rw [List.getElem_cons_succ, List.getElem_append_right hbehind] at hoperator
      rw [List.getElem_singleton, hlast] at hoperator
      cases hoperator

theorem Undivided.minus (h : Undivided ts) : Undivided (.symbol .minus :: ts) := by
  rintro (_ | i) hi hoperator hzero
  · exact List.forall_mem_nil _
  · rw [List.take_succ_cons, openAfter_cons] at hzero
    rw [List.take_succ_cons, List.forall_mem_cons]
    exact ⟨rfl, h i (Nat.lt_of_succ_lt_succ hi) hoperator (by simpa [Token.opens] using hzero)⟩

theorem Token.flat_of_name {name : String} (ht : t.name? = some name) :
    t.opens = 0 ∧ t.operator? = none := by
  cases t <;> first | exact ⟨rfl, rfl⟩ | cases ht

theorem PathTail.nested {names : List String} {property? : Option Property}
    (h : PathTail ts names property?) : Nested ts ∧ Shielded ts := by
  induction h with
  | nil => exact ⟨nested_nil, shielded_nil⟩
  | property hw =>
    exact ⟨.cons rfl (.cons rfl nested_nil), .cons rfl rfl (.cons rfl rfl shielded_nil)⟩
  | name ht hlast h ih =>
    obtain ⟨hopens, hoperator⟩ := Token.flat_of_name ht
    exact ⟨.cons rfl (.cons hopens ih.1), .cons rfl rfl (.cons hoperator hopens ih.2)⟩

/-! ### Expressions -/

/-- Which tokens are which expression, if every operator outside parentheses and braces has at least
the given precedence. -/
abbrev Form := Nat → List Token → Expr → Prop

namespace Grammar

/-- Operands, around expressions of the form `inner`. Items are given with their tokens. -/
inductive Operand (inner : Form) : List Token → Expr → Prop
  | number (x : Float) : Operand inner [.number x] (.number x)
  | text (s : String) : Operand inner [.text s] (.text s)
  | flag {w : String} {f : Flag} (hw : Flag.ofName? w = some f) : Operand inner [.word w] (.flag f)
  | named {t : Token} {name : String} {ts : List Token} {names : List String}
      {property? : Option Property} (position : Nat) (ht : t.name? = some name)
      (halone : ts = [] → ∀ w, t = .word w → Flag.ofName? w = none)
      (htail : PathTail ts names property?) :
      Operand inner (t :: ts) (property?.elim (.path ⟨name :: names, position⟩)
        (.property ⟨name :: names, position⟩))
  | negate {ts : List Token} {e : Expr} (h : inner 3 ts e) :
      Operand inner (.symbol .minus :: ts) (.negate e)
  | grouped {ts : List Token} {e : Expr} (h : inner 0 ts e) :
      Operand inner (.symbol .openParen :: (ts ++ [.symbol .closeParen])) e
  | set {items : List (List Token × Expr)} (hitems : ∀ p ∈ items, inner 0 p.1 p.2) :
      Operand inner (.symbol .openBrace :: (commaTokens (items.map Prod.fst) ++
        [.symbol .closeBrace])) (.set (items.map Prod.snd))
  | tuple {items : List (List Token × Expr)} (hlength : 2 ≤ items.length)
      (hitems : ∀ p ∈ items, inner 0 p.1 p.2) :
      Operand inner (.symbol .openParen :: (commaTokens (items.map Prod.fst) ++
        [.symbol .closeParen])) (.tuple (items.map Prod.snd))
  | call {w : String} {f : SetFunction} {items : List (List Token × Expr)}
      (hw : SetFunction.ofName? w = some f) (harity : f.accepts items.length = true)
      (hitems : ∀ p ∈ items, inner 0 p.1 p.2) :
      Operand inner (.word w :: .symbol .openParen :: (commaTokens (items.map Prod.fst) ++
        [.symbol .closeParen])) (.call f (items.map Prod.snd))

/-- Operators with their right operands, behind a left operand. A right operand takes all operators
that bind more tightly. -/
inductive Chain (inner : Form) (least : Nat) : Expr → List Token → Expr → Prop
  | nil (left : Expr) : Chain inner least left [] left
  | step {left right e : Expr} {op : Operator} {ts us : List Token} (hop : least ≤ op.precedence)
      (hright : inner (op.precedence + 1) ts right) (hquiet : Quiet (op.precedence + 1) us)
      (h : Chain inner least (.binary op left right) us e) :
      Chain inner least left (op.token :: (ts ++ us)) e

/-- Expressions that nest no more than the given number of levels. -/
def Within : (levels : Nat) → Form
  | 0, _, _, _ => False
  | levels + 1, least, ts, e => ∃ us vs left, ts = us ++ vs ∧ Operand (Within levels) us left ∧
      Chain (Within levels) least left vs e

variable {inner inner' : Form} {least levels levels' : Nat} {ts us vs : List Token} {e left : Expr}

/-! ### More levels -/

theorem Operand.mono (hinner : ∀ least ts e, inner least ts e → inner' least ts e)
    (h : Operand inner ts e) : Operand inner' ts e := by
  cases h with
  | number x => exact .number x
  | text s => exact .text s
  | flag hw => exact .flag hw
  | named position ht halone htail => exact .named position ht halone htail
  | negate h => exact .negate (hinner _ _ _ h)
  | grouped h => exact .grouped (hinner _ _ _ h)
  | set hitems => exact .set fun p hp => hinner _ _ _ (hitems p hp)
  | tuple hlength hitems => exact .tuple hlength fun p hp => hinner _ _ _ (hitems p hp)
  | call hw harity hitems => exact .call hw harity fun p hp => hinner _ _ _ (hitems p hp)

theorem Chain.mono (hinner : ∀ least ts e, inner least ts e → inner' least ts e)
    (h : Chain inner least left ts e) : Chain inner' least left ts e := by
  induction h with
  | nil left => exact .nil left
  | step hop hright hquiet h ih => exact .step hop (hinner _ _ _ hright) hquiet ih

theorem Within.mono (hle : levels ≤ levels') (h : Within levels least ts e) :
    Within levels' least ts e := by
  induction levels generalizing levels' least ts e with
  | zero => exact h.elim
  | succ levels ih =>
    cases levels' with
    | zero => cases hle
    | succ levels' =>
      obtain ⟨us, vs, left, hts, hoperand, hchain⟩ := h
      have hinner : ∀ least ts e, Within levels least ts e → Within levels' least ts e :=
        fun _ _ _ h => ih (Nat.le_of_succ_le_succ hle) h
      exact ⟨us, vs, left, hts, hoperand.mono hinner, hchain.mono hinner⟩

theorem Operand.within (h : Operand (Within levels) ts e) : Within (levels + 1) least ts e :=
  ⟨ts, [], e, (List.append_nil ts).symm, h, .nil e⟩

/-- No operator binds as tightly as a negation does. -/
theorem Within.tight (h : Within (levels + 1) 3 ts e) : Operand (Within levels) ts e := by
  obtain ⟨us, vs, left, rfl, hoperand, hchain⟩ := h
  cases hchain with
  | nil => rwa [List.append_nil]
  | @step _ _ _ op _ _ hop => exact absurd hop (by cases op <;> decide)

/-! ### First tokens -/

/-- No operand begins with a symbol that closes a list. -/
theorem Operand.head_ne {close : Symbol} (hclose : close = .closeParen ∨ close = .closeBrace)
    (h : Operand inner ts e) : (ts ++ us).head? ≠ some (.symbol close) := by
  cases h with
  | named position ht halone htail =>
    rintro ⟨⟩
    cases ht
  | _ => rcases hclose with rfl | rfl <;> nofun

theorem Within.head_ne {close : Symbol} (hclose : close = .closeParen ∨ close = .closeBrace)
    (h : Within levels least ts e) : (ts ++ us).head? ≠ some (.symbol close) := by
  cases levels with
  | zero => exact h.elim
  | succ levels =>
    obtain ⟨ts₁, ts₂, left, rfl, hoperand, -⟩ := h
    rw [List.append_assoc]
    exact hoperand.head_ne hclose

theorem Chain.follows (h : Chain inner least left ts e) (hus : Follows us) :
    Follows (ts ++ us) := by
  cases h with
  | nil => exact hus
  | step hop hright hquiet h => exact follows_operator _

/-! ### Balance -/

/-- Tokens that close all that they open and are not just minus signs. -/
structure Solid (ts : List Token) : Prop where
  nested : Nested ts
  body : ∃ t ∈ ts, t ≠ .symbol .minus

theorem nested_items {items : List (List Token × Expr)}
    (hinner : ∀ least ts e, inner least ts e → Solid ts) (h : ∀ p ∈ items, inner 0 p.1 p.2) :
    Nested (commaTokens (items.map Prod.fst)) := by
  apply nested_commaTokens
  rintro _ hts
  obtain ⟨p, hp, rfl⟩ := List.mem_map.1 hts
  exact (hinner 0 p.1 p.2 (h p hp)).nested

theorem Operand.solid (hinner : ∀ least ts e, inner least ts e → Solid ts)
    (h : Operand inner ts e) : Solid ts := by
  cases h with
  | number x => exact ⟨.cons rfl nested_nil, _, List.mem_cons_self, by nofun⟩
  | text s => exact ⟨.cons rfl nested_nil, _, List.mem_cons_self, by nofun⟩
  | flag hw => exact ⟨.cons rfl nested_nil, _, List.mem_cons_self, by nofun⟩
  | @named t name ts names property? position ht halone htail =>
    refine ⟨.cons (Token.flat_of_name ht).1 htail.nested.1, t, List.mem_cons_self, ?_⟩
    rintro rfl
    cases ht
  | negate h =>
    obtain ⟨hnested, t, ht, hne⟩ := hinner _ _ _ h
    exact ⟨.cons rfl hnested, t, List.mem_cons_of_mem _ ht, hne⟩
  | grouped h =>
    exact ⟨.wrapped rfl rfl (hinner _ _ _ h).nested, _, List.mem_cons_self, by nofun⟩
  | set h | tuple hlength h =>
    exact ⟨.wrapped rfl rfl (nested_items hinner h), _, List.mem_cons_self, by nofun⟩
  | call hw harity h =>
    exact ⟨.cons rfl (.wrapped rfl rfl (nested_items hinner h)), _, List.mem_cons_self, by nofun⟩

theorem Chain.nested (hinner : ∀ least ts e, inner least ts e → Solid ts)
    (h : Chain inner least left ts e) : Nested ts := by
  induction h with
  | nil left => exact nested_nil
  | @step left right e op ts us hop hright hquiet h ih =>
    exact .cons (by cases op <;> rfl) ((hinner _ _ _ hright).nested.append ih)

theorem Within.solid (h : Within levels least ts e) : Solid ts := by
  induction levels generalizing least ts e with
  | zero => exact h.elim
  | succ levels ih =>
    have hinner : ∀ least ts e, Within levels least ts e → Solid ts := fun _ _ _ h => ih h
    obtain ⟨us, vs, left, rfl, hoperand, hchain⟩ := h
    obtain ⟨hnested, t, ht, hne⟩ := hoperand.solid hinner
    exact ⟨hnested.append (hchain.nested hinner), t, List.mem_append_left _ ht, hne⟩

theorem Operand.undivided_of (hinner : ∀ least ts e, inner least ts e → Solid ts)
    (hnegated : ∀ ts e, inner 3 ts e → Undivided ts) (h : Operand inner ts e) : Undivided ts := by
  cases h with
  | number x => exact (Shielded.cons rfl rfl shielded_nil).undivided
  | text s => exact (Shielded.cons rfl rfl shielded_nil).undivided
  | flag hw => exact (Shielded.cons rfl rfl shielded_nil).undivided
  | named position ht halone htail =>
    obtain ⟨hopens, hoperator⟩ := Token.flat_of_name ht
    exact (Shielded.cons hoperator hopens htail.nested.2).undivided
  | negate h => exact (hnegated _ _ h).minus
  | grouped h => exact (shielded_wrapped rfl rfl (hinner _ _ _ h).nested).undivided
  | set h | tuple hlength h =>
    exact (shielded_wrapped rfl rfl (nested_items hinner h)).undivided
  | call hw harity h =>
    exact (Shielded.cons rfl rfl (shielded_wrapped rfl rfl (nested_items hinner h))).undivided

/-- No operator divides an operand. -/
theorem Operand.undivided (h : Operand (Within levels) ts e) : Undivided ts := by
  induction levels generalizing ts e with
  | zero => exact h.undivided_of (fun _ _ _ h => h.solid) fun _ _ h => h.elim
  | succ levels ih => exact h.undivided_of (fun _ _ _ h => h.solid) fun _ _ h => ih h.tight

/-- What no operator divides is an operand. -/
theorem Within.operand (h : Within (levels + 1) least ts e) (hts : Undivided ts) :
    Operand (Within levels) ts e := by
  obtain ⟨us, vs, left, rfl, hoperand, hchain⟩ := h
  cases hchain with
  | nil => rwa [List.append_nil]
  | @step _ _ _ op ts₁ ts₂ hop hright hquiet h =>
    obtain ⟨hnested, t, ht, hne⟩ := hoperand.solid fun _ _ _ h => Within.solid h
    have hlength : us.length < (us ++ op.token :: (ts₁ ++ ts₂)).length := by
      rw [List.length_append, List.length_cons]
      omega
    have hminus := hts us.length hlength
    rw [List.getElem_append_right (Nat.le_refl _), List.take_left] at hminus
    simp only [Nat.sub_self, List.getElem_cons_zero, operator?_token] at hminus
    exact absurd (hminus rfl hnested.balance t ht) hne

end Grammar

end CubeQuery.Language
