import MukhiDb.Model.Statement
import MukhiDb.Model.Storage

/-!
Contract: running the queries of one session (`executor.rs`).

Owns: what a statement returns to the client; how a column reference is looked up; a
WHERE condition on a row; and `execute_join` over a storage that nobody else uses, whose
row indexing is bounds-checked.

Does not own: `execute` on a session, with the other statements, and what other sessions
do between the two scans of a join.
-/

namespace MukhiDb.Model

open MukhiDb.Foundation

/-- The result of executing a statement: a message or a table of rows. -/
inductive ExecuteResult where
  | message (text : String)
  | rows (headers : List String) (rows : List (List String))
deriving DecidableEq

/-- `to_string` of a value. -/
def Value.display : Value → String
  | .integer n => toString n
  | .text s => s
  | .null => "NULL"

namespace Executor

/-- `eq_ignore_ascii_case`. -/
def eqIgnoreAsciiCase (left right : String) : Bool :=
  left.toList.map Char.toLower = right.toList.map Char.toLower

/-- `headers.iter().position(|h| h.eq_ignore_ascii_case(name))`. -/
def position (headers : List String) (name : String) : Option Nat :=
  headers.findIdx? fun header => eqIgnoreAsciiCase header name

/-- `row.values[idx]`. -/
def cell (row : Row) (idx : Nat) : Except Fault Value :=
  match row.values[idx]? with
  | some value => .ok value
  | none => .error .panic

/-- The comparisons of `evaluate`. -/
def compare : CompOp → Value → Value → Bool
  | .eq, .integer a, .integer b => a = b
  | .lt, .integer a, .integer b => a < b
  | .gt, .integer a, .integer b => b < a
  | .eq, .text a, .text b => a = b
  | .lt, .text a, .text b => a < b
  | .gt, .text a, .text b => b < a
  | _, _, _ => false

/-- `evaluate`: a WHERE expression against a single row. -/
def evaluate (expr : Expr) (row : Row) (headers : List String) : Except Fault Bool :=
  match position headers expr.column with
  | none => pure false
  | some idx => do
      let value ← cell row idx
      pure (compare expr.op value expr.value)

/-- The rows that the WHERE clause keeps. -/
def filterRows (whereClause : Option Expr) (headers : List String) : List Row → Except Fault (List Row)
  | [] => pure []
  | row :: rest => do
      let keep ← (match whereClause with
        | some expr => evaluate expr row headers
        | none => pure true)
      let kept ← filterRows whereClause headers rest
      pure (if keep then row :: kept else kept)

/-- A row as texts. -/
def display (row : Row) : List String := row.values.map Value.display

/-- The answer for an error value. -/
def errorMessage (error : String) : ExecuteResult := .message s!"Error: {error}"

/-- The column name of a reference: what comes after the first dot, if there is one. -/
def columnName (colRef : String) : String :=
  match colRef.toList.dropWhile (· ≠ '.') with
  | [] => colRef
  | _ :: name => String.ofList name

/-- `find_col_index`. The table is not used. -/
def findColIndex (headers : List String) (_table : String) (colRef : String) : Option Nat :=
  position headers (columnName colRef)

/-- The inner loop of the join. -/
def joinRow (leftIdx rightIdx : Nat) (lr : Row) : List Row → Except Fault (List Row)
  | [] => pure []
  | rr :: rest => do
      let left ← cell lr leftIdx
      let right ← cell rr rightIdx
      let joined ← joinRow leftIdx rightIdx lr rest
      pure (if left = right then ⟨lr.values ++ rr.values⟩ :: joined else joined)

/-- The nested loop of the join. -/
def joinRows (leftIdx rightIdx : Nat) (rightRows : List Row) : List Row → Except Fault (List Row)
  | [] => pure []
  | lr :: rest => do
      let head ← joinRow leftIdx rightIdx lr rightRows
      let tail ← joinRows leftIdx rightIdx rightRows rest
      pure (head ++ tail)

/-- `format!("{}.{}", table, column)`. -/
def qualified (table column : String) : String := table ++ "." ++ column

/-- The part of `execute_join` after the two scans. -/
def joinTables (leftTable : String) (jc : JoinClause) (whereClause : Option Expr)
    (left right : List String × List Row) : Except Fault ExecuteResult :=
  match findColIndex left.1 leftTable jc.leftCol, findColIndex right.1 jc.rightTable jc.rightCol with
  | some leftIdx, some rightIdx => do
      let headers := left.1.map (qualified leftTable) ++ right.1.map (qualified jc.rightTable)
      let joinedRows ← joinRows leftIdx rightIdx right.2 left.2
      let filtered ← filterRows whereClause headers joinedRows
      pure (.rows headers (filtered.map display))
  | _, _ => pure (errorMessage "JOIN column not found.")

/-- `execute_join`, on the storage. -/
def executeJoin (leftTable : String) (jc : JoinClause) (whereClause : Option Expr) :
    Exec Storage ExecuteResult := do
  match ← Exec.attempt (Storage.selectAll leftTable) with
  | .error error => pure (errorMessage error)
  | .ok left => do
      match ← Exec.attempt (Storage.selectAll jc.rightTable) with
      | .error error => pure (errorMessage error)
      | .ok right => Exec.ofExcept (joinTables leftTable jc whereClause left right)

end Executor

end MukhiDb.Model
