import CubeQuery.Proofs.Query.Calculation
import CubeQuery.Query.Cellset

/-!
Scopes that differ in the order of their calculated members alone. A calculated member is referred
to by its place, so that one scope becomes the other by renaming places; facets, names and parents,
what a name denotes and what a cell evaluates to follow the renaming.
-/

namespace CubeQuery

open CubeQuery.Language Noted

/-! ### Positions of a reordered list -/

/-- Positions behind one that stays first. -/
def behindFirst (σ : Equiv.Perm ℕ) : Equiv.Perm ℕ where
  toFun
    | 0 => 0
    | i + 1 => σ i + 1
  invFun
    | 0 => 0
    | i + 1 => σ.symm i + 1
  left_inv i := by cases i <;> simp
  right_inv i := by cases i <;> simp

/-- A reordering moves every element to some position, and positions beyond the end to such. -/
theorem exists_reindexing {α : Type} {l l' : List α} (h : l.Perm l') :
    ∃ σ : Equiv.Perm ℕ, ∀ i, l'[σ i]? = l[i]? := by
  induction h with
  | nil => exact ⟨1, fun i => rfl⟩
  | cons a _ ih =>
    obtain ⟨σ, hσ⟩ := ih
    refine ⟨behindFirst σ, fun i => ?_⟩
    cases i with
    | zero => rfl
    | succ i => exact hσ i
  | swap a b l =>
    refine ⟨Equiv.swap 0 1, fun i => ?_⟩
    obtain _ | _ | i := i
    · rfl
    · rfl
    · rw [Equiv.swap_apply_of_ne_of_ne (by omega) (by omega)]
      rfl
  | trans _ _ ih ih' =>
    obtain ⟨σ, hσ⟩ := ih
    obtain ⟨τ, hτ⟩ := ih'
    exact ⟨σ.trans τ, fun i => (hτ (σ i)).trans (hσ i)⟩

/-! ### Renaming -/

/-- The element with its place among the calculated members renamed. -/
def Element.renamed (σ : Equiv.Perm ℕ) : Element → Element
  | .member id => .member id
  | .measure id => .measure id
  | .calculated i => .calculated (σ i)

def Formula.renamed (σ : Equiv.Perm ℕ) : Formula → Formula
  | .number x => .number x
  | .text s => .text s
  | .tuple t => .tuple (t.map (Element.renamed σ))
  | .negate e => .negate (e.renamed σ)
  | .binary op left right => .binary op (left.renamed σ) (right.renamed σ)

def Choice.renamed (σ : Equiv.Perm ℕ) : Choice → Choice
  | .one e => .one (e.renamed σ)
  | .any es => .any (es.map (Element.renamed σ))

def Coordinate.renamed (σ : Equiv.Perm ℕ) (coordinate : Coordinate) : Coordinate :=
  coordinate.map fun slot => (slot.1, slot.2.renamed σ)

section Elements

variable {σ : Equiv.Perm ℕ} {e : Element}

theorem Element.renamed_symm : (e.renamed σ.symm).renamed σ = e := by
  cases e with
  | member _ => rfl
  | measure _ => rfl
  | calculated i => exact congrArg calculated (σ.apply_symm_apply i)

theorem Element.symm_renamed : (e.renamed σ).renamed σ.symm = e :=
  Element.renamed_symm (σ := σ.symm)

theorem Element.renamed_injective : Function.Injective (Element.renamed σ) := by
  intro a b h
  rw [← a.symm_renamed (σ := σ), h, b.symm_renamed]

theorem renamed_injective : Function.Injective (List.map (Element.renamed σ)) :=
  List.map_injective_iff.2 Element.renamed_injective

theorem renamed_symm (t : Tuple) :
    (t.map (Element.renamed σ.symm)).map (Element.renamed σ) = t := by
  rw [List.map_map]
  exact (List.map_congr_left fun e _ => e.renamed_symm).trans (List.map_id t)

theorem symm_renamed (t : Tuple) :
    (t.map (Element.renamed σ)).map (Element.renamed σ.symm) = t :=
  renamed_symm (σ := σ.symm) t

end Elements

/-- The second scope has the calculated members of the first at other places and finds them there;
neither has sets. -/
structure Renames (σ : Equiv.Perm ℕ) (s s' : Scope) : Prop where
  members : ∀ i, s'.members[σ i]? = s.members[i]?
  found : ∀ path, s'.findMember? path = (s.findMember? path).map σ
  sets : s.sets = #[]
  sets' : s'.sets = #[]

namespace Renames

open Context

variable {σ : Equiv.Perm ℕ} {c : Cube} {s s' : Scope} {e : Element} {t : Tuple} {set : TupleSet}
  {i : ℕ}

theorem member (h : Renames σ s s') (i : ℕ) : s'.member (σ i) = s.member i := by
  rw [Scope.member, Scope.member, Array.getD_eq_getD_getElem?, Array.getD_eq_getD_getElem?,
    h.members]

theorem lt_size_iff (h : Renames σ s s') : σ i < s'.members.size ↔ i < s.members.size := by
  have hbound (members : Array CalculatedMember) (j : ℕ) :
      j < members.size ↔ members[j]? ≠ none := by
    rw [Ne, Array.getElem?_eq_none_iff, Nat.not_le]
  rw [hbound, hbound, h.members]

theorem has_iff (h : Renames σ s s') : Has ⟨c, s'⟩ (e.renamed σ) ↔ Has ⟨c, s⟩ e := by
  cases e with
  | member _ => rfl
  | measure _ => rfl
  | calculated i => exact h.lt_size_iff

theorem facetOf (h : Renames σ s s') (e : Element) :
    facetOf ⟨c, s'⟩ (e.renamed σ) = facetOf ⟨c, s⟩ e := by
  cases e with
  | member _ => rfl
  | measure _ => rfl
  | calculated i => exact congrArg CalculatedMember.facet (h.member i)

theorem uniqueName (h : Renames σ s s') (e : Element) :
    uniqueName ⟨c, s'⟩ (e.renamed σ) = uniqueName ⟨c, s⟩ e := by
  cases e with
  | member _ => rfl
  | measure _ => rfl
  | calculated i => exact congrArg CalculatedMember.uniqueName (h.member i)

theorem parentOf? (h : Renames σ s s') (e : Element) :
    parentOf? ⟨c, s'⟩ (e.renamed σ) = parentOf? ⟨c, s⟩ e := by
  cases e with
  | member _ => rfl
  | measure _ => rfl
  | calculated i => exact congrArg (fun m => m.parent?.map Element.member) (h.member i)

theorem depth (h : Renames σ s s') (e : Element) :
    depth ⟨c, s'⟩ (e.renamed σ) = depth ⟨c, s⟩ e := by
  cases e with
  | member _ => rfl
  | measure _ => rfl
  | calculated i =>
    unfold Context.depth Element.renamed
    dsimp only
    rw [h.member]

/-- Only stored members have children, and these are stored. -/
theorem childrenOf (e : Element) :
    childrenOf ⟨c, s'⟩ (e.renamed σ) = childrenOf ⟨c, s⟩ e := by
  cases e <;> rfl

theorem levelsBelow (t : Tuple) :
    levelsBelow ⟨c, s'⟩ (t.map (Element.renamed σ)) = levelsBelow ⟨c, s⟩ t := by
  unfold Context.levelsBelow
  rw [List.map_map]
  congr 1
  refine List.map_congr_left fun e _ => ?_
  cases e <;> rfl

theorem hasAll (h : Renames σ s s') (ht : HasAll ⟨c, s⟩ t) :
    HasAll ⟨c, s'⟩ (t.map (Element.renamed σ)) := by
  intro e he
  obtain ⟨x, hx, rfl⟩ := List.mem_map.1 he
  exact h.has_iff.2 (ht x hx)

theorem facets (h : Renames σ s s') (t : Tuple) :
    facets ⟨c, s'⟩ (t.map (Element.renamed σ)) = facets ⟨c, s⟩ t := by
  rw [Context.facets, List.map_map]
  exact List.map_congr_left fun e _ => h.facetOf e

/-! ### Coordinates -/

theorem put (facet : Facet) (choice : Choice) (x : Coordinate) :
    (x.put facet choice).renamed σ = (x.renamed σ).put facet (choice.renamed σ) := by
  induction x with
  | nil => rfl
  | cons slot rest ih =>
    obtain ⟨f, old⟩ := slot
    show Coordinate.renamed σ (Coordinate.put facet choice ((f, old) :: rest)) =
      Coordinate.put facet (choice.renamed σ) ((f, old.renamed σ) :: Coordinate.renamed σ rest)
    rw [Coordinate.put, Coordinate.put]
    split
    · rfl
    · split
      · rfl
      · rw [← ih]
        rfl

theorem place (h : Renames σ s s') (x : Coordinate) (t : Tuple) :
    place ⟨c, s'⟩ (x.renamed σ) (t.map (Element.renamed σ)) =
      (place ⟨c, s⟩ x t).renamed σ := by
  induction t generalizing x with
  | nil => rfl
  | cons e rest ih =>
    have hfirst : (x.renamed σ).put (Context.facetOf ⟨c, s'⟩ (e.renamed σ)) (.one (e.renamed σ)) =
        (x.put (Context.facetOf ⟨c, s⟩ e) (.one e)).renamed σ := by
      rw [h.facetOf]
      exact (put _ (.one e) x).symm
    calc Context.place ⟨c, s'⟩ (x.renamed σ) ((e :: rest).map (Element.renamed σ))
      _ = Context.place ⟨c, s'⟩ ((x.renamed σ).put (Context.facetOf ⟨c, s'⟩ (e.renamed σ))
            (.one (e.renamed σ))) (rest.map (Element.renamed σ)) := rfl
      _ = Context.place ⟨c, s'⟩ ((x.put (Context.facetOf ⟨c, s⟩ e) (.one e)).renamed σ)
            (rest.map (Element.renamed σ)) := by rw [hfirst]
      _ = (Context.place ⟨c, s⟩ x (e :: rest)).renamed σ := ih _

/-- The places of the members differ, their solve orders are compared with the same result. -/
theorem leadingCalculated? (h : Renames σ s s') (x : Coordinate) :
    leadingCalculated? ⟨c, s'⟩ (x.renamed σ) = (leadingCalculated? ⟨c, s⟩ x).map σ := by
  unfold Context.leadingCalculated? Coordinate.renamed
  rw [List.foldl_map]
  show List.foldl _ (Option.map σ none) x = _
  refine List.foldl_hom (Option.map σ) fun best slot => ?_
  obtain ⟨facet, choice⟩ := slot
  cases choice with
  | any es => rfl
  | one e =>
    cases e with
    | member _ => rfl
    | measure _ => rfl
    | calculated i =>
      cases best with
      | none => rfl
      | some j =>
        show (if (s'.member (σ j)).solveOrder < (s'.member (σ i)).solveOrder then some (σ i)
          else some (σ j)) = Option.map σ
            (if (s.member j).solveOrder < (s.member i).solveOrder then some i else some j)
        rw [h.member, h.member]
        split <;> rfl

theorem choice? (x : Coordinate) (facet : Facet) :
    (x.renamed σ).choice? facet = (x.choice? facet).map (Choice.renamed σ) := by
  induction x with
  | nil => rfl
  | cons slot rest ih =>
    unfold Coordinate.choice? Coordinate.renamed at ih ⊢
    rw [List.map_cons, List.lookup_cons, List.lookup_cons, ih]
    split <;> rfl

theorem measureOf (h : Renames σ s s') (x : Coordinate) :
    measureOf ⟨c, s'⟩ (x.renamed σ) = measureOf ⟨c, s⟩ x := by
  unfold Context.measureOf
  rw [choice?]
  cases x.choice? .measures with
  | none => rfl
  | some choice =>
    cases choice with
    | one e =>
      cases e with
      | member _ => rfl
      | measure _ => rfl
      | calculated i =>
        exact congrArg (fun name => Except.error (Error.evaluation (.notAMeasure name)))
          (h.uniqueName (.calculated i))
    | any es =>
      cases es with
      | nil => rfl
      | cons e es => cases e <;> cases es <;> rfl

theorem formatMeasure? (x : Coordinate) :
    formatMeasure? ⟨c, s'⟩ (x.renamed σ) = formatMeasure? ⟨c, s⟩ x := by
  unfold Context.formatMeasure?
  rw [choice?]
  cases x.choice? .measures with
  | none => rfl
  | some choice =>
    cases choice with
    | one e => cases e <;> rfl
    | any es => rfl

theorem members_renamed (choice : Choice) : (choice.renamed σ).members = choice.members := by
  have helements : (choice.renamed σ).elements = choice.elements.map (Element.renamed σ) := by
    cases choice <;> rfl
  unfold Choice.members
  rw [helements, List.filterMap_map]
  refine List.filterMap_congr fun e _ => ?_
  cases e <;> rfl

theorem restrictions (x : Coordinate) :
    restrictions ⟨c, s'⟩ (x.renamed σ) = restrictions ⟨c, s⟩ x := by
  unfold Context.restrictions Coordinate.renamed
  rw [List.filterMap_map]
  refine List.filterMap_congr fun slot _ => ?_
  show (if slot.1 = .measures then none else restriction? ⟨c, s'⟩ (slot.2.renamed σ)) = _
  rw [restriction?_eq, members_renamed]
  rfl

/-! ### Values -/

theorem storedValue (h : Renames σ s s') (x : Coordinate) :
    storedValue ⟨c, s'⟩ (rowsIn ⟨c, s'⟩) (x.renamed σ) =
      storedValue ⟨c, s⟩ (rowsIn ⟨c, s⟩) x := by
  unfold Context.storedValue rowsIn
  rw [h.measureOf, restrictions (s := s)]
  rfl

theorem formulaValue (h : Renames σ s s')
    {valueAt valueAt' : Coordinate → Except Error CellValue}
    (hvalueAt : ∀ x : Coordinate, valueAt' (x.renamed σ) = valueAt x) (x : Coordinate)
    (measure : String) (f : Formula) :
    formulaValue ⟨c, s'⟩ valueAt' (x.renamed σ) measure (f.renamed σ) =
      formulaValue ⟨c, s⟩ valueAt x measure f := by
  induction f with
  | number n => rfl
  | text t => rfl
  | tuple t =>
    rw [Formula.renamed, Context.formulaValue, Context.formulaValue, h.place, hvalueAt]
  | negate e ih => rw [Formula.renamed, Context.formulaValue, Context.formulaValue, ih]
  | binary op left right ihl ihr =>
    rw [Formula.renamed, Context.formulaValue, Context.formulaValue, ihl, ihr]

/-- By induction on the levels that are left: the same members lead, and their formulas refer to the
same coordinates. -/
theorem valueWithin (h : Renames σ s s')
    (hformulas : ∀ i, s'.formulas[σ i]? = (s.formulas[i]?).map (Formula.renamed σ)) (levels : ℕ)
    (x : Coordinate) :
    valueWithin ⟨c, s'⟩ (rowsIn ⟨c, s'⟩) levels (x.renamed σ) =
      valueWithin ⟨c, s⟩ (rowsIn ⟨c, s⟩) levels x := by
  induction levels generalizing x with
  | zero => rfl
  | succ levels ih =>
    rw [Context.valueWithin, Context.valueWithin, h.leadingCalculated?]
    cases Context.leadingCalculated? ⟨c, s⟩ x with
    | none => exact h.storedValue x
    | some i =>
      dsimp only [Option.map_some]
      rw [h.member, hformulas]
      cases s.formulas[i]? with
      | none => rfl
      | some f =>
        dsimp only [Option.map_some]
        rw [h.formulaValue ih]

theorem cellAfter (h : Renames σ s s')
    (hformulas : ∀ i, s'.formulas[σ i]? = (s.formulas[i]?).map (Formula.renamed σ))
    (earlier earlier' : List Coordinate) (x : Coordinate) :
    cellAfter ⟨c, s'⟩ earlier' (x.renamed σ) = cellAfter ⟨c, s⟩ earlier x := by
  unfold Context.cellAfter
  rw [(recalls_evalCell _ _ (truthful_evalCells earlier')).1,
    (recalls_evalCell _ _ (truthful_evalCells earlier)).1]
  exact h.valueWithin hformulas _ x

theorem cellFormat (h : Renames σ s s') (options : QueryOptions) (x : Coordinate) :
    cellFormat ⟨c, s'⟩ options (x.renamed σ) = cellFormat ⟨c, s⟩ options x := by
  unfold Context.cellFormat
  rw [h.leadingCalculated?, formatMeasure? (s := s), Option.bind_map]
  simp only [Function.comp_def, h.member]

end Renames

end CubeQuery
