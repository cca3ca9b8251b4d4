import CubeQuery.Table.Basic
import Mathlib.Data.List.Forall2

/-!
How tables are filled. A row fits if it has one value for each column, and each of its values that
is not empty has the type of its column. A table takes a row that fits, and stays as it is at a row
that does not, although the values of a row are stored column by column and the rows are counted
separately. So it holds the rows that fit, in the order in which they came.
-/

namespace CubeQuery

/-- A column takes the empty value and the values of its type. -/
def Column.Takes (column : Column) (value : Value) : Prop :=
  value ≠ .null → value.type? = some column.type

instance (column : Column) (value : Value) : Decidable (column.Takes value) :=
  inferInstanceAs (Decidable (_ → _))

theorem Column.takes_iff {column : Column} {value : Value} :
    column.Takes value ↔ ∀ type, value.type? = some type → type = column.type := by
  cases value <;> simp [Column.Takes, Value.type?]

namespace Table

/-- A row with one value for each column, which the column takes. -/
def Fits (schema : List Column) (row : List Value) : Prop :=
  List.Forall₂ Column.Takes schema row

instance (schema : List Column) (row : List Value) : Decidable (Fits schema row) :=
  inferInstanceAs (Decidable (List.Forall₂ _ _ _))

/-- A place where a row has a value of a type that its column does not take, behind values that
fit. -/
structure FirstMisfit (schema : List Column) (row : List Value) (i : ℕ) (column : Column)
    (actual : ColumnType) : Prop where
  column_at : schema[i]? = some column
  type_at : row[i]?.bind Value.type? = some actual
  type_ne : actual ≠ column.type
  before : Fits (schema.take i) (row.take i)

/-- What is wrong with a row for a table: its width, or else the first value that its column does
not take. The row counts as the one behind the last. -/
inductive Refuses (t : Table) (row : List Value) : TableFault → Prop
  | wrongWidth (hlength : row.length ≠ t.schema.length) :
      Refuses t row (.wrongWidth t.name t.schema.length row.length)
  | wrongType {i : ℕ} {column : Column} {actual : ColumnType}
      (hlength : row.length = t.schema.length) (h : FirstMisfit t.schema row i column actual) :
      Refuses t row (.wrongType t.name column.name t.rowCount column.type actual)

/-- A table with certain rows: as many values in each column as there are rows, and in each cell
the value that its row has for its column. -/
structure Holds (t : Table) (name : String) (schema : List Column) (rows : List (List Value)) :
    Prop where
  name_eq : t.name = name
  schema_eq : t.schema = schema
  columnCount : t.columns.length = schema.length
  rowCount : t.rowCount = rows.length
  size : ∀ values ∈ t.columns, values.size = t.rowCount
  cell? : ∀ i j, t.cell? i j = rows[i]?.bind (·[j]?)

/-- The answer of a step in place that is done as a whole or not at all, and the table that it
leaves behind. -/
def atomically (t : Table) : Except TableFault Table → Except TableFault Unit × Table
  | .ok t' => (.ok (), t')
  | .error fault => (.error fault, t)

/-- A table that was offered rows one after another, whether it took them or not. -/
def offerAll (t : Table) (rows : List (List Value)) : Table :=
  rows.foldl (fun t row => (t.offer row).2) t

theorem offerAll_cons (t : Table) (row : List Value) (rows : List (List Value)) :
    t.offerAll (row :: rows) = (t.offer row).2.offerAll rows :=
  rfl

section

variable {t t' : Table} {name : String} {schema : List Column} {row : List Value}
  {rows held : List (List Value)}

/-- A value that is not empty has the type of its column. -/
theorem Fits.columnType (h : Fits schema row) {i : ℕ} {value : Value} {type : ColumnType}
    (hvalue : row[i]? = some value) (htype : value.type? = some type) :
    schema[i]?.map (·.type) = some type := by
  obtain ⟨hi, rfl⟩ := List.getElem?_eq_some_iff.1 hvalue
  have hi' : i < schema.length := h.length_eq ▸ hi
  have htakes : schema[i].Takes row[i] := h.get hi' hi
  rw [List.getElem?_eq_getElem hi', Option.map_some, ← Column.takes_iff.1 htakes type htype]

/-! ### Looking for values that do not fit -/

theorem misfit?_cons_of_takes {column : Column} {value : Value} (h : column.Takes value) :
    misfit? (column :: schema) (value :: row) = misfit? schema row := by
  rw [misfit?]
  cases htype : value.type? with
  | none => rfl
  | some type => exact if_pos (Column.takes_iff.1 h type htype)

theorem misfit?_eq_none_of_fits (h : Fits schema row) : misfit? schema row = none := by
  induction h with
  | nil => rfl
  | cons htakes _ ih => rw [misfit?_cons_of_takes htakes, ih]

theorem FirstMisfit.next {column column' : Column} {value : Value} {i : ℕ} {actual : ColumnType}
    (h : FirstMisfit schema row i column actual) (htakes : column'.Takes value) :
    FirstMisfit (column' :: schema) (value :: row) (i + 1) column actual :=
  ⟨h.column_at, h.type_at, h.type_ne, .cons htakes h.before⟩

/-- By induction on the columns; what is found stands behind the columns that take their values. -/
theorem exists_firstMisfit (hlength : row.length = schema.length) (h : ¬Fits schema row) :
    ∃ i column actual, misfit? schema row = some (column, actual) ∧
      FirstMisfit schema row i column actual := by
  induction schema generalizing row with
  | nil =>
    rw [List.eq_nil_of_length_eq_zero hlength] at h
    exact absurd .nil h
  | cons column schema ih =>
    cases row with
    | nil => cases hlength
    | cons value row =>
      by_cases htakes : column.Takes value
      · have hrest : ¬Fits schema row := fun hrest => h (.cons htakes hrest)
        obtain ⟨i, found, actual, hmisfit, hfirst⟩ := ih (Nat.succ.inj hlength) hrest
        rw [misfit?_cons_of_takes htakes]
        exact ⟨i + 1, found, actual, hmisfit, hfirst.next htakes⟩
      · rw [Column.takes_iff] at htakes
        push Not at htakes
        obtain ⟨actual, hactual, hne⟩ := htakes
        refine ⟨0, column, actual, ?_, rfl, hactual, hne, .nil⟩
        rw [misfit?, hactual]
        exact if_neg hne

/-! ### One more row -/

theorem push_of_fits (h : Fits t.schema row) :
    t.push row = .ok { t with
      columns := t.columns.zipWith (fun values value => values.push value) row
      rowCount := t.rowCount + 1 } := by
  rw [push, if_neg (not_not.2 h.length_eq.symm), misfit?_eq_none_of_fits h]

theorem push_of_not_fits (h : ¬Fits t.schema row) :
    ∃ fault, t.push row = .error fault ∧ t.Refuses row fault := by
  by_cases hlength : row.length = t.schema.length
  · obtain ⟨i, column, actual, hmisfit, hfirst⟩ := exists_firstMisfit hlength h
    refine ⟨_, ?_, .wrongType hlength hfirst⟩
    rw [push, if_neg (not_not.2 hlength), hmisfit]
  · exact ⟨_, if_pos hlength, .wrongWidth hlength⟩

theorem push_eq_ok_iff_fits : (∃ t', t.push row = .ok t') ↔ Fits t.schema row := by
  refine ⟨fun ⟨t', ht'⟩ => ?_, fun h => ⟨_, push_of_fits h⟩⟩
  by_contra h
  obtain ⟨fault, hfault, -⟩ := push_of_not_fits h
  cases ht'.symm.trans hfault

/-! ### Storing in place -/

/-- The columns to the left already have their values of the row. -/
theorem run_forM_store (left right : List (Array Value)) (hlength : row.length = right.length) :
    ((row.zipIdx left.length).forM fun (value, index) => store value index).run.run
        { t with columns := left ++ right } =
      (.ok (), { t with
        columns := left ++ right.zipWith (fun values value => values.push value) row }) := by
  induction row generalizing left right with
  | nil =>
    obtain rfl := List.eq_nil_of_length_eq_zero hlength.symm
    rfl
  | cons value row ih =>
    cases right with
    | nil => cases hlength
    | cons values right =>
      -- The first column to the right gets its value, and belongs to the left from then on.
      have hstored : (left ++ values :: right).modify left.length (·.push value) =
          left ++ [values.push value] ++ right := by
        rw [List.append_assoc]
        exact List.modifyTailIdx_add _ 0 left (values :: right)
      have hrest := ih (left ++ [values.push value]) right (Nat.succ.inj hlength)
      rw [List.length_append, List.length_singleton, ← hstored, List.append_assoc] at hrest
      exact hrest

/-- What is done in place after steps that found no fault. -/
theorem run_bind_of_ok {first : InPlace Unit} (h : first.run.run t = (.ok (), t'))
    (next : Unit → InPlace Unit) : (first >>= next).run.run t = (next ()).run.run t' := by
  rw [ExceptT.run_bind, StateT.run_bind, h]
  rfl

/-- A row is taken in place as a whole or not at all. -/
theorem offer_eq (hcolumns : t.columns.length = t.schema.length) (row : List Value) :
    t.offer row = t.atomically (t.push row) := by
  have hstart (f : Table → InPlace Unit) : (get >>= f).run.run t = (f t).run.run t := rfl
  rw [offer, append, hstart]
  unfold push
  -- Both checks come before the first value is stored.
  by_cases hlength : row.length ≠ t.schema.length
  · rw [if_pos hlength, if_pos hlength]
    rfl
  · rw [if_neg hlength, if_neg hlength]
    cases misfit? t.schema row with
    | some found => rfl
    | none =>
      have hwidth : row.length = t.columns.length := (not_not.1 hlength).trans hcolumns.symm
      exact run_bind_of_ok (run_forM_store [] t.columns hwidth) _

/-! ### The rows of a table -/

theorem firstRepeated?_eq_none_iff {seen names : List String} :
    firstRepeated? seen names = none ↔ (∀ s ∈ names, s ∉ seen) ∧ names.Nodup := by
  induction names generalizing seen with
  | nil => simp [firstRepeated?]
  | cons s names ih =>
    rw [firstRepeated?]
    split
    · next hseen => simp [hseen]
    · next hseen =>
      rw [ih]
      simp only [List.mem_cons, not_or, List.nodup_cons]
      grind

theorem create_of_nodup (h : (schema.map (·.name)).Nodup) :
    create name schema =
      .ok { name, schema, columns := schema.map fun _ => #[], rowCount := 0 } := by
  rw [create, firstRepeated?_eq_none_iff.2 ⟨fun _ _ => List.not_mem_nil, h⟩]

theorem holds_of_create (h : create name schema = .ok t) : t.Holds name schema [] := by
  unfold create at h
  split at h
  · cases h
  · obtain rfl := Except.ok.inj h
    refine ⟨rfl, rfl, List.length_map _, rfl, by simp, fun i j => ?_⟩
    rw [cell?, List.getElem?_map]
    cases schema[j]? <;> rfl

theorem cell?_zipWith_push (hlength : t.columns.length = row.length)
    (hsize : ∀ values ∈ t.columns, values.size = t.rowCount) (i j rowCount : ℕ) :
    Table.cell? { t with
      columns := t.columns.zipWith (fun values value => values.push value) row, rowCount } i j =
        if i = t.rowCount then row[j]? else t.cell? i j := by
  rw [cell?, cell?, List.getElem?_zipWith]
  by_cases hj : j < row.length
  · have hcolumn := List.getElem?_eq_getElem (hlength ▸ hj : j < t.columns.length)
    rw [hcolumn, List.getElem?_eq_getElem hj]
    dsimp only [Option.bind_some]
    rw [Array.getElem?_push, hsize _ (List.mem_of_getElem? hcolumn)]
  · have hj := Nat.not_lt.1 hj
    rw [List.getElem?_eq_none hj, List.getElem?_eq_none (hlength ▸ hj), Option.bind_none, ite_self]

namespace Holds

theorem columns_length (ht : t.Holds name schema rows) : t.columns.length = t.schema.length :=
  ht.schema_eq ▸ ht.columnCount

/-- The next row is behind all others in each column. -/
theorem push (ht : t.Holds name schema rows) (hpush : t.push row = .ok t') :
    t'.Holds name schema (rows ++ [row]) := by
  have hfits := push_eq_ok_iff_fits.1 ⟨t', hpush⟩
  have hlength : t.columns.length = row.length := ht.columns_length.trans hfits.length_eq
  rw [push_of_fits hfits] at hpush
  obtain rfl := Except.ok.inj hpush
  refine ⟨ht.name_eq, ht.schema_eq, ?_, ?_, ?_, fun i j => ?_⟩
  · rw [List.length_zipWith, ← hlength, Nat.min_self, ht.columnCount]
  · rw [List.length_append, List.length_singleton, ← ht.rowCount]
  · intro values hvalues
    obtain ⟨j, hj⟩ := List.mem_iff_getElem?.1 hvalues
    obtain ⟨old, value, hold, -, rfl⟩ := List.getElem?_zipWith_eq_some.1 hj
    rw [Array.size_push, ht.size old (List.mem_of_getElem? hold)]
  · rw [cell?_zipWith_push hlength ht.size, ht.rowCount, ht.cell?]
    rcases Nat.lt_trichotomy i rows.length with hi | rfl | hi
    · rw [if_neg (Nat.ne_of_lt hi), List.getElem?_append_left hi]
    · rw [if_pos rfl, List.getElem?_concat_length, Option.bind_some]
    · rw [if_neg (Nat.ne_of_gt hi), List.getElem?_eq_none (Nat.le_of_lt hi),
        List.getElem?_eq_none (List.length_append ▸ hi)]

/-- A row that fits is the next row, and a row that does not fit changes nothing. -/
theorem offer (ht : t.Holds name schema held) (row : List Value) :
    Fits schema row ∧ (∃ t', t.push row = .ok t' ∧ t.offer row = (.ok (), t') ∧
        t'.Holds name schema (held ++ [row])) ∨
      ¬Fits schema row ∧ ∃ fault, t.push row = .error fault ∧ t.offer row = (.error fault, t) ∧
        t.Refuses row fault := by
  have hoffer := offer_eq ht.columns_length row
  by_cases hfits : Fits t.schema row
  · obtain ⟨t', hpush⟩ := push_eq_ok_iff_fits.2 hfits
    rw [hpush] at hoffer
    exact .inl ⟨ht.schema_eq ▸ hfits, t', hpush, hoffer, ht.push hpush⟩
  · obtain ⟨fault, hpush, hfault⟩ := push_of_not_fits hfits
    rw [hpush] at hoffer
    exact .inr ⟨ht.schema_eq ▸ hfits, fault, hpush, hoffer, hfault⟩

/-- By induction on the rows that are offered. -/
theorem offerAll (ht : t.Holds name schema held) (rows : List (List Value)) :
    (t.offerAll rows).Holds name schema (held ++ rows.filter (Fits schema)) := by
  induction rows generalizing t held with
  | nil =>
    rw [List.filter_nil, List.append_nil]
    exact ht
  | cons row rows ih =>
    rw [offerAll_cons, List.filter_cons]
    rcases ht.offer row with ⟨hfits, t', -, hoffer, ht'⟩ | ⟨hfits, fault, -, hoffer, -⟩
    · rw [hoffer, if_pos (decide_eq_true hfits), List.append_cons]
      exact ih ht'
    · rw [hoffer, if_neg (by simpa using hfits)]
      exact ih ht

/-- By induction on the rows; the first one that does not fit ends both sides. -/
theorem foldlM_push_eq_ok_iff (ht : t.Holds name schema held) :
    rows.foldlM Table.push t = .ok t' ↔
      (∀ row ∈ rows, Fits schema row) ∧ t' = t.offerAll rows := by
  induction rows generalizing t held with
  | nil => simp [Table.offerAll, pure, Except.pure, eq_comm]
  | cons row rows ih =>
    rw [List.foldlM_cons, List.forall_mem_cons, offerAll_cons]
    rcases ht.offer row with ⟨hfits, t₁, hpush, hoffer, ht₁⟩ | ⟨hfits, fault, hpush, -, -⟩
    · rw [hpush, hoffer, and_iff_right hfits]
      exact ih ht₁
    · rw [hpush]
      exact iff_of_false nofun fun h => hfits h.1.1

theorem offer_ok_iff (ht : t.Holds name schema held) :
    (t.offer row).1 = .ok () ↔ Fits schema row := by
  rcases ht.offer row with ⟨hfits, t', -, hoffer, -⟩ | ⟨hfits, fault, -, hoffer, -⟩
  · exact iff_of_true (congrArg Prod.fst hoffer) hfits
  · rw [hoffer]
    exact iff_of_false nofun hfits

theorem offer_error {fault : TableFault} (ht : t.Holds name schema held)
    (h : (t.offer row).1 = .error fault) : (t.offer row).2 = t ∧ t.Refuses row fault := by
  rcases ht.offer row with ⟨-, t', -, hoffer, -⟩ | ⟨-, fault', -, hoffer, hrefuses⟩
  · rw [hoffer] at h
    cases h
  · rw [hoffer] at h ⊢
    obtain rfl := Except.error.inj h
    exact ⟨rfl, hrefuses⟩

end Holds

theorem ofRows_eq_ok_iff (hcreate : create name schema = .ok t) :
    ofRows name schema rows = .ok t' ↔
      (∀ row ∈ rows, Fits schema row) ∧ t' = t.offerAll rows := by
  rw [ofRows, hcreate]
  exact (holds_of_create hcreate).foldlM_push_eq_ok_iff

/-- Tables take rows as a whole. Whatever rows a table has been offered, it holds those that fit,
in their order: each column has one value for each of them, and each cell is the value that its
row has for its column. It takes the next row if and only if that fits. Otherwise the table stays
as it is, and the fault is the width of the row, or it names the first column that does not take
its value and the number of rows so far. A table can be made of the rows at once if and only if all
of them fit, and it is then the same as if it had been offered one after another. -/
theorem rows_taken_whole (hnames : (schema.map (·.name)).Nodup) (rows : List (List Value)) :
    ∃ t₀ t, create name schema = .ok t₀ ∧ t₀.offerAll rows = t ∧
      t.Holds name schema (rows.filter (Fits schema)) ∧
      (∀ row, ((t.offer row).1 = .ok () ↔ Fits schema row) ∧
        (∀ fault, (t.offer row).1 = .error fault → (t.offer row).2 = t ∧ t.Refuses row fault) ∧
        t.offer row = t.atomically (t.push row)) ∧
      ((∃ t', ofRows name schema rows = .ok t') ↔ ∀ row ∈ rows, Fits schema row) ∧
      ∀ t', ofRows name schema rows = .ok t' → t' = t := by
  obtain ⟨t₀, hcreate⟩ : ∃ t₀, create name schema = .ok t₀ := ⟨_, create_of_nodup hnames⟩
  have ht : (t₀.offerAll rows).Holds name schema (rows.filter (Fits schema)) :=
    (holds_of_create hcreate).offerAll rows
  have hall {t' : Table} : ofRows name schema rows = .ok t' ↔
      (∀ row ∈ rows, Fits schema row) ∧ t' = t₀.offerAll rows :=
    ofRows_eq_ok_iff hcreate
  refine ⟨t₀, _, hcreate, rfl, ht, fun row => ?_, ?_, fun _ h => (hall.1 h).2⟩
  · exact ⟨ht.offer_ok_iff, fun _ => ht.offer_error, offer_eq ht.columns_length row⟩
  · exact ⟨fun ⟨_, h⟩ => (hall.1 h).1, fun h => ⟨_, hall.2 ⟨h, rfl⟩⟩⟩

end

namespace Countries

def schema : List Column :=
  [⟨"id", .number⟩, ⟨"Country", .text⟩]

/-- The second row has a text among the numbers, and the third row is too short. -/
def rows : List (List Value) :=
  [[.number 1, .text "France"], [.text "x", .text "Japan"], [.number 4], [.number 2, .null]]

end Countries

theorem rows_taken_whole_countries :
    (Countries.schema.map (·.name)).Nodup ∧
      ∃ t₀ t, create "Countries" Countries.schema = .ok t₀ ∧ t₀.offerAll Countries.rows = t ∧
        t.Holds "Countries" Countries.schema [[.number 1, .text "France"], [.number 2, .null]] ∧
        t.offer [.text "x", .text "Japan"] =
          (.error (.wrongType "Countries" "id" 2 .number .text), t) ∧
        ¬∃ t', ofRows "Countries" Countries.schema Countries.rows = .ok t' := by
  have hnames : (Countries.schema.map (·.name)).Nodup := by decide
  obtain ⟨t₀, t, hcreate, hoffered, ht, hnext, hall, -⟩ :=
    @rows_taken_whole "Countries" Countries.schema hnames Countries.rows
  have hfault : (t.offer [.text "x", .text "Japan"]).1 =
      .error (.wrongType "Countries" "id" 2 .number .text) := by
    obtain rfl := Except.ok.inj hcreate
    rw [← hoffered]
    rfl
  have hsame := ((hnext _).2.1 _ hfault).1
  have hmisfit : ¬∀ row ∈ Countries.rows, Fits Countries.schema row := by decide
  exact ⟨hnames, t₀, t, hcreate, hoffered, ht, Prod.ext hfault hsame, mt hall.1 hmisfit⟩

end Table

end CubeQuery
