import MukhiDb.BTree.PageParts
import MukhiDb.Foundation.Decimal
import MukhiDb.Foundation.Joins
import MukhiDb.Model.Executor
import MukhiDb.Storage.RowBytes
import MukhiDb.Storage.Reachable

/-!
Contract: the rows that a scan hands to the executor.

Owns: the fact that they have a value of the right type for each column; that their
texts tell them apart; and that the nested loop of a join over such rows never indexes
past the end of a row and gives the pairs that agree.

Does not own: which columns a join compares.
-/

namespace MukhiDb.Model

open MukhiDb.Foundation

/-- The row has a value of the right type for each column. -/
def RowOf (columns : List Column) (row : Row) : Prop :=
  List.Forall₂ (fun column value => Typed (column, value)) columns row.values

variable {columns : List Column} {row other : Row}

theorem RowOf.length (typed : RowOf columns row) : row.values.length = columns.length :=
  typed.length_eq.symm

/-! ### Rows of a scan -/

theorem deserializeValue_typed {buf : Bytes} {column : Column} {offset next : Nat} {value : Value}
    (decoded : deserializeValue buf column.dataType offset = .ok (value, next)) :
    Typed (column, value) := by
  obtain ⟨name, dataType⟩ := column
  cases dataType with
  | integer =>
      unfold deserializeValue at decoded
      rcases bytes : readFrom buf offset 8 with fault | bytes'
      · rw [bytes] at decoded
        cases decoded
      · rw [bytes] at decoded
        obtain ⟨rfl, -⟩ := Prod.mk.inj (Except.ok.inj decoded)
        trivial
  | text =>
      unfold deserializeValue at decoded
      rcases size : readFrom buf offset 4 with fault | size'
      · rw [size] at decoded
        cases decoded
      rw [size] at decoded
      dsimp only [ok_bind] at decoded
      rcases bytes : readFrom buf (offset + 4) (leValue size') with fault | bytes'
      · rw [bytes] at decoded
        cases decoded
      · rw [bytes] at decoded
        obtain ⟨rfl, -⟩ := Prod.mk.inj (Except.ok.inj decoded)
        trivial

theorem deserializeCells_typed {buf : Bytes} {offset : Nat} {values : List Value}
    (decoded : deserializeCells buf columns offset = .ok values) :
    List.Forall₂ (fun column value => Typed (column, value)) columns values := by
  induction columns generalizing offset values with
  | nil =>
      obtain rfl := Except.ok.inj decoded
      exact List.Forall₂.nil
  | cons column rest inductionHypothesis =>
      unfold deserializeCells at decoded
      rcases first : deserializeValue buf column.dataType offset with fault | ⟨value, next⟩
      · rw [first] at decoded
        cases decoded
      rw [first, ok_bind] at decoded
      dsimp only at decoded
      rcases tail : deserializeCells buf rest next with fault | others
      · rw [tail] at decoded
        cases decoded
      rw [tail] at decoded
      obtain rfl := Except.ok.inj decoded
      refine List.Forall₂.cons ?_ (inductionHypothesis tail)
      exact deserializeValue_typed first

theorem deserialize_typed {buf : Bytes} (decoded : deserialize buf columns = .ok row) :
    RowOf columns row := by
  unfold deserialize at decoded
  rcases cells : deserializeCells buf columns 0 with fault | values
  · rw [cells] at decoded
    cases decoded
  · rw [cells] at decoded
    obtain rfl := Except.ok.inj decoded
    exact deserializeCells_typed cells

namespace TableIo

theorem decodeRows_typed {rawRows : List Bytes} {rows : List Row}
    (decoded : decodeRows columns rawRows = .ok rows) : ∀ row ∈ rows, RowOf columns row := by
  induction rawRows generalizing rows with
  | nil =>
      obtain rfl := Except.ok.inj decoded
      exact fun row member => absurd member List.not_mem_nil
  | cons buf rest inductionHypothesis =>
      unfold decodeRows at decoded
      rcases head : deserialize buf columns with fault | row
      · rw [head] at decoded
        cases decoded
      rw [head, ok_bind] at decoded
      rcases tail : decodeRows columns rest with fault | others
      · rw [tail] at decoded
        cases decoded
      rw [tail] at decoded
      obtain rfl := Except.ok.inj decoded
      intro other member
      rcases List.mem_cons.mp member with rfl | member
      · exact deserialize_typed head
      · exact inductionHypothesis tail other member

theorem selectAll_typed {table after : TableIo} {headers : List String} {rows : List Row}
    (ran : selectAll table = (.ok (headers, rows), after)) :
    headers = table.store.columns.map Column.name ∧
      ∀ row ∈ rows, RowOf table.store.columns row := by
  unfold selectAll at ran
  rw [Exec.bind_ok (Exec.run_get table)] at ran
  obtain ⟨rawRows, middle, -, ran⟩ := Exec.bind_eq_ok.mp ran
  obtain ⟨decodedRows, last, decoded, ran⟩ := Exec.bind_eq_ok.mp ran
  obtain ⟨result, -⟩ := Prod.mk.inj ran
  obtain ⟨rfl, rfl⟩ := Prod.mk.inj (Except.ok.inj result)
  exact ⟨rfl, decodeRows_typed (Prod.mk.inj decoded).1⟩

end TableIo

/-- The rows of `select_all` have values of the types of the table's columns. -/
theorem Storage.selectAll_typed {state after : Storage} {name : String} {headers : List String}
    {rows : List Row} (ran : selectAll name state = (.ok (headers, rows), after)) :
    ∃ columns : List Column, headers = columns.map Column.name ∧
      ∀ row ∈ rows, RowOf columns row := by
  unfold selectAll at ran
  rcases found : state.tableAt name with _ | table
  · rw [onTable_missing found] at ran
    cases (Prod.mk.inj ran).1
  · rw [onTable_found found (TableIo.Safe.samePath TableIo.selectAll_safe)] at ran
    exact ⟨table.store.columns, TableIo.selectAll_typed (Prod.ext (Prod.mk.inj ran).1 rfl)⟩

/-! ### Rows as texts -/

namespace Executor

theorem display_value_injective {column : Column} {value value' : Value}
    (typed : Typed (column, value)) (typed' : Typed (column, value'))
    (same : value.display = value'.display) : value = value' := by
  obtain ⟨name, dataType⟩ := column
  cases dataType with
  | integer =>
      cases value with
      | integer n =>
          cases value' with
          | integer m => exact congrArg Value.integer (decimal_injective (congrArg String.toList same))
          | text s => exact typed'.elim
          | null => exact typed'.elim
      | text s => exact typed.elim
      | null => exact typed.elim
  | text =>
      cases value with
      | integer n => exact typed.elim
      | text s =>
          cases value' with
          | integer m => exact typed'.elim
          | text s' => exact congrArg Value.text same
          | null => exact typed'.elim
      | null => exact typed.elim

/-- The texts of a row tell it apart from the other rows of the table. -/
theorem display_injective (typed : RowOf columns row) (typed' : RowOf columns other)
    (same : display row = display other) : row = other := by
  obtain ⟨values⟩ := row
  obtain ⟨values'⟩ := other
  unfold display at same
  unfold RowOf at typed typed'
  dsimp only at same typed typed'
  refine congrArg Row.mk ?_
  induction typed generalizing values' with
  | nil =>
      cases typed'
      rfl
  | cons head _ inductionHypothesis =>
      cases typed' with
      | cons head' tail' =>
          rw [List.map_cons, List.map_cons, List.cons_eq_cons] at same
          rw [display_value_injective head head' same.1, inductionHypothesis _ tail' same.2]

/-! ### The nested loop -/

/-- Two rows have the same value in a column each. -/
def agreeAt (leftIdx rightIdx : Nat) (left right : Row) : Bool :=
  left.values[leftIdx]? = right.values[rightIdx]?

/-- A pair of rows as one row. -/
def combined (pair : Row × Row) : Row := ⟨pair.1.values ++ pair.2.values⟩

variable {leftIdx rightIdx : Nat} {leftRows rightRows : List Row}

theorem joinRow_ok {lr : Row} (inside : leftIdx < lr.values.length)
    (rightInside : ∀ rr ∈ rightRows, rightIdx < rr.values.length) :
    joinRow leftIdx rightIdx lr rightRows =
      .ok ((rightRows.filter (agreeAt leftIdx rightIdx lr)).map fun rr => combined (lr, rr)) := by
  induction rightRows with
  | nil => rfl
  | cons rr rest inductionHypothesis =>
      have here := rightInside rr List.mem_cons_self
      have later := inductionHypothesis fun other member =>
        rightInside other (List.mem_cons_of_mem _ member)
      unfold joinRow cell
      rw [List.getElem?_eq_getElem inside, List.getElem?_eq_getElem here, later]
      simp only [ok_bind, List.filter_cons]
      by_cases equal : lr.values[leftIdx] = rr.values[rightIdx]
      · have agrees : agreeAt leftIdx rightIdx lr rr = true := by
          unfold agreeAt
          rw [List.getElem?_eq_getElem inside, List.getElem?_eq_getElem here, equal]
          exact decide_eq_true rfl
        rw [if_pos equal, if_pos agrees]
        rfl
      · have apart : ¬ agreeAt leftIdx rightIdx lr rr = true := by
          unfold agreeAt
          rw [List.getElem?_eq_getElem inside, List.getElem?_eq_getElem here, decide_eq_true_eq]
          exact fun same => equal (Option.some.inj same)
        rw [if_neg equal, if_neg apart]
        rfl

/-- The nested loop gives the pairs that agree. -/
theorem joinRows_ok (leftInside : ∀ lr ∈ leftRows, leftIdx < lr.values.length)
    (rightInside : ∀ rr ∈ rightRows, rightIdx < rr.values.length) :
    joinRows leftIdx rightIdx rightRows leftRows =
      .ok ((joined (agreeAt leftIdx rightIdx) leftRows rightRows).map combined) := by
  induction leftRows with
  | nil => rfl
  | cons lr rest inductionHypothesis =>
      have head := joinRow_ok (leftInside lr List.mem_cons_self) rightInside
      have tail := inductionHypothesis fun other member =>
        leftInside other (List.mem_cons_of_mem _ member)
      unfold joinRows
      rw [head, ok_bind, tail, ok_bind, joined_cons, List.map_append, List.map_map]
      rfl

/-- Without a WHERE clause every row stays. -/
theorem filterRows_none (headers : List String) (rows : List Row) :
    filterRows none headers rows = .ok rows := by
  induction rows with
  | nil => rfl
  | cons row rest inductionHypothesis =>
      unfold filterRows
      rw [inductionHypothesis]
      rfl

end Executor

end MukhiDb.Model
