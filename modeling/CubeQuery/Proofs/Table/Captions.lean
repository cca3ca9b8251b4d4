import CubeQuery.Cube.Build
import CubeQuery.Proofs.Number.PlainText
import CubeQuery.Proofs.Table.Filling

/-!
Captions and keys. The key of a level value stands for the values that count as the same, which all
have one caption. The cells of a column all have the type of the column or are empty, because a row
is checked before it is stored. Within one type a caption says which value it shows, so that two
level values with the same caption are the same member.
-/

namespace CubeQuery

open CubeQuery.Number

namespace Table

/-- The tables there are: rows come in one at a time and are checked. -/
inductive Made : Table → Prop
  | create {name : String} {schema : List Column} {t : Table} :
      Table.create name schema = .ok t → Made t
  | push {t t' : Table} {row : List Value} : Made t → t.push row = .ok t' → Made t'

/-- A made table holds rows that fit it. -/
theorem Made.holds {t : Table} (ht : t.Made) : ∃ (name : String) (schema : List Column)
    (rows : List (List Value)), t.Holds name schema rows ∧ ∀ row ∈ rows, Fits schema row := by
  induction ht with
  | @create name schema t h => exact ⟨name, schema, [], holds_of_create h, nofun⟩
  | @push t t' row _ h ih =>
    obtain ⟨name, schema, rows, ht, hrows⟩ := ih
    have hfits : Fits schema row := ht.schema_eq ▸ push_eq_ok_iff_fits.1 ⟨t', h⟩
    exact ⟨name, schema, rows ++ [row], ht.push h,
      List.forall_mem_append.2 ⟨hrows, List.forall_mem_singleton.2 hfits⟩⟩

/-- A cell that is not empty has the type of its column. -/
theorem Made.cell?_type {t : Table} (ht : t.Made) {row column : Nat} {v : Value}
    {type : ColumnType} (hv : t.cell? row column = some v) (htype : v.type? = some type) :
    t.columnType? column = some type := by
  obtain ⟨name, schema, rows, ht, hrows⟩ := ht.holds
  rw [ht.cell?] at hv
  obtain ⟨values, hvalues, hat⟩ := Option.bind_eq_some_iff.1 hv
  rw [columnType?, ht.schema_eq]
  exact (hrows values (List.mem_of_getElem? hvalues)).columnType hat htype

theorem Made.cell_type {t : Table} (ht : t.Made) {row column : Nat} {type : ColumnType}
    (htype : (t.cell row column).type? = some type) : t.columnType? column = some type := by
  unfold cell at htype
  cases hv : t.cell? row column with
  | none =>
    rw [hv] at htype
    cases htype
  | some v =>
    rw [hv] at htype
    exact ht.cell?_type hv htype

end Table

theorem generalText_ne_blank (x : Float) : generalText x ≠ blankCaption := by
  intro heq
  obtain ⟨sign, text, c, rest, htext, hhead, -, hcases⟩ := generalText_parts x
  have hlist := congrArg String.toList (htext.symm.trans heq)
  cases sign with
  | true =>
    simp only [signed, if_true, String.toList_append] at hlist
    cases hlist
  | false =>
    simp only [signed, Bool.false_eq_true, if_false, hhead] at hlist
    obtain rfl : c = '(' := (List.cons.inj hlist).1
    rcases hcases with ⟨-, -, hdigit, -⟩ | ⟨-, -, heq⟩ | ⟨-, -, heq⟩
    · cases hdigit
    · cases heq
    · cases heq

/-! ### Values that are one on a level -/

/-- Nothing, or the text that captions show for it. -/
def Value.IsBlank (v : Value) : Prop :=
  v = .null ∨ v = .text blankCaption

/-- When two values are the same on a level. The two zeros are one number, and whatever is not a
number is the same as any other such thing. -/
inductive SameOnLevel : Value → Value → Prop
  | blank {v w : Value} (hv : v.IsBlank) (hw : w.IsBlank) : SameOnLevel v w
  | text (s : String) : SameOnLevel (.text s) (.text s)
  | boolean (b : Bool) : SameOnLevel (.boolean b) (.boolean b)
  | number {x y : Float} (h : (x == y) = true ∨ x.isNaN = true ∧ y.isNaN = true) :
      SameOnLevel (.number x) (.number y)

theorem ofFloat_eq_iff {x y : Float} :
    Key.ofFloat x = Key.ofFloat y ↔ (x == y) = true ∨ x.isNaN = true ∧ y.isNaN = true := by
  have hzero : (0.0 : Float) = 0 := by decide
  have hnan : (0 : Float) ≠ Float.nan ∧ (-0 : Float) ≠ Float.nan := by decide
  simp only [Key.ofFloat, hzero, Float.isNaN_eq_decide_eq_nan, decide_eq_true_eq,
    Float.beq_iff_ne_nan_and_eq]
  -- What is left holds of any three numbers in these places.
  generalize (-0 : Float) = minusZero at *
  generalize (0 : Float) = zero at *
  generalize Float.nan = nan at *
  grind

theorem levelKey_eq_null_iff {v : Value} : levelKey v = .null ↔ v.IsBlank := by
  cases v with
  | null => exact iff_of_true rfl (.inl rfl)
  | text s => by_cases hs : s = blankCaption <;> simp [levelKey, Value.IsBlank, hs]
  | _ => simp [levelKey, Key.ofValue, Value.IsBlank]

theorem levelKey_eq_ofValue {v : Value} (hv : ¬ v.IsBlank) : levelKey v = .ofValue v := by
  cases v with
  | text s => exact if_neg fun hs => hv (.inr (congrArg Value.text hs))
  | _ => rfl

theorem levelKey_eq_iff {v w : Value} : levelKey v = levelKey w ↔ SameOnLevel v w := by
  constructor
  · intro h
    by_cases hv : v.IsBlank
    · exact .blank hv (levelKey_eq_null_iff.1 (h.symm.trans (levelKey_eq_null_iff.2 hv)))
    · have hw : ¬ w.IsBlank := fun hw =>
        hv (levelKey_eq_null_iff.1 (h.trans (levelKey_eq_null_iff.2 hw)))
      rw [levelKey_eq_ofValue hv, levelKey_eq_ofValue hw] at h
      cases v <;> cases w <;> simp only [Key.ofValue, reduceCtorEq, Key.number.injEq,
        Key.boolean.injEq, Key.text.injEq] at h
      · exact absurd (.inl rfl) hv
      · exact .number (ofFloat_eq_iff.1 h)
      · exact h ▸ .boolean _
      · exact h ▸ .text _
  · rintro (⟨hv, hw⟩ | s | b | h)
    · rw [levelKey_eq_null_iff.2 hv, levelKey_eq_null_iff.2 hw]
    · rfl
    · rfl
    · exact congrArg Key.number (ofFloat_eq_iff.2 h)

instance : DecidableRel SameOnLevel := fun _ _ => decidable_of_iff _ levelKey_eq_iff

/-- Values that are one on a level have one caption. -/
theorem SameOnLevel.captionOf_eq {v w : Value} (h : SameOnLevel v w) :
    captionOf v = captionOf w := by
  have hblank {u : Value} (hu : u.IsBlank) : captionOf u = blankCaption := by
    rcases hu with rfl | rfl <;> rfl
  cases h with
  | blank hv hw => rw [hblank hv, hblank hw]
  | text s => rfl
  | boolean b => rfl
  | number h =>
    refine show generalText _ = generalText _ from ?_
    rw [Float.beq_iff_ne_nan_and_eq, Float.isNaN_eq_decide_eq_nan, Float.isNaN_eq_decide_eq_nan,
      decide_eq_true_eq, decide_eq_true_eq] at h
    have hzeros : generalText 0 = generalText (-0) := by decide +kernel
    rcases h with ⟨-, -, rfl | ⟨rfl, rfl⟩ | ⟨rfl, rfl⟩⟩ | ⟨rfl, rfl⟩
    · rfl
    · exact hzeros
    · exact hzeros.symm
    · rfl

/-- Values of one type that look the same are the same on a level. -/
theorem levelKey_eq_of_captionOf {v w : Value}
    (htype : ∀ type, v.type? = some type → ∀ type', w.type? = some type' → type = type')
    (h : captionOf v = captionOf w) : levelKey v = levelKey w := by
  -- A value that looks blank is one: no number is shown so.
  have hblank (u : Value) (hu : captionOf u = blankCaption) : levelKey u = .null := by
    cases u with
    | null => rfl
    | number x => exact absurd hu (generalText_ne_blank x)
    | boolean b => exact absurd hu (by cases b <;> decide)
    | text s => exact if_pos hu
  cases v with
  | null =>
    cases w with
    | null => rfl
    | _ => exact (hblank _ h.symm).symm
  | number x =>
    cases w with
    | null => exact hblank _ h
    | number y => exact congrArg Key.number (ofFloat_eq_of_generalText h)
    | _ => cases htype _ rfl _ rfl
  | boolean b =>
    cases w with
    | null => exact hblank _ h
    | boolean b' =>
      have hsame : b = b' := by
        cases b <;> cases b' <;> first | rfl | exact absurd h (by decide)
      rw [hsame]
    | _ => cases htype _ rfl _ rfl
  | text s =>
    cases w with
    | null => exact hblank _ h
    | text s' =>
      obtain rfl : s = s' := h
      rfl
    | _ => cases htype _ rfl _ rfl

/-- In a column, members with the same caption have the same key. -/
theorem Table.Made.levelKey_eq {t : Table} (ht : t.Made) {row row' column : Nat}
    (h : captionOf (t.cell row column) = captionOf (t.cell row' column)) :
    levelKey (t.cell row column) = levelKey (t.cell row' column) :=
  levelKey_eq_of_captionOf
    (fun _ hv _ hw => Option.some.inj ((ht.cell_type hv).symm.trans (ht.cell_type hw))) h

end CubeQuery
