import MukhiDb.Foundation.Calls
import MukhiDb.Model.Executor
import MukhiDb.Model.Parser
import MukhiDb.Model.Protocol
import MukhiDb.Model.Session

/-!
Contract: what a text from a client is answered with (`executor.rs`, and `dispatch` of `server.rs`).

Owns: `execute` as a program over the operations of a session; the messages its results become; the
answer to a message that is no query; and a session that nobody else shares the storage with.

Does not own: when the operations of other sessions run, and how messages travel.
-/

namespace MukhiDb.Model

open MukhiDb.Foundation

/-! ### Programs over a session -/

/-- What an operation of a session returns to the executor. -/
abbrev Reply : Type := Except String Answer

/-- A program over the operations of one session. -/
abbrev SessionProgram (α : Type) : Type := Calls Operation Reply α

/-- `select_all` of a session. -/
def Session.selectAll (table : String) : SessionProgram (Except String (List String × List Row)) := do
  match ← Calls.ask (.selectAll table) with
  | .ok (.rows headers rows) => pure (.ok (headers, rows))
  | .ok _ => .done (.error .panic)
  | .error message => pure (.error message)

/-- `dump_btree` of a session. -/
def Session.dumpBtree (table : String) : SessionProgram (Except String String) := do
  match ← Calls.ask (.dumpBtree table) with
  | .ok (.text dump) => pure (.ok dump)
  | .ok _ => .done (.error .panic)
  | .error message => pure (.error message)

namespace Executor

/-- The message of an operation that returns no value. -/
def told (success : String) : Reply → ExecuteResult
  | .ok _ => .message success
  | .error error => errorMessage error

/-- `execute_select`, on a session. -/
def select (tableName : String) (whereClause : Option Expr) : SessionProgram ExecuteResult := do
  match ← Session.selectAll tableName with
  | .error error => pure (errorMessage error)
  | .ok (headers, rows) => do
      let filtered ← filterRows whereClause headers rows
      pure (.rows headers (filtered.map display))

/-- `execute_join`, on a session. -/
def join (leftTable : String) (jc : JoinClause) (whereClause : Option Expr) :
    SessionProgram ExecuteResult := do
  match ← Session.selectAll leftTable with
  | .error error => pure (errorMessage error)
  | .ok left => do
      match ← Session.selectAll jc.rightTable with
      | .error error => pure (errorMessage error)
      | .ok right => joinTables leftTable jc whereClause left right

/-- `execute`: a parsed statement against the session. -/
def execute : Statement → SessionProgram ExecuteResult
  | .createTable tableName columns => do
      let reply ← Calls.ask (.createTable tableName columns)
      pure (told s!"Table '{tableName}' created." reply)
  | .insert tableName values => do
      let reply ← Calls.ask (.insert tableName values)
      pure (told "1 row inserted." reply)
  | .select tableName (some jc) whereClause => join tableName jc whereClause
  | .select tableName none whereClause => select tableName whereClause
  | .unknown command => pure (.message s!"Unrecognised command: '{command}'")
  | .begin => do
      let reply ← Calls.ask .begin
      pure (told "Transaction started." reply)
  | .commit => do
      let reply ← Calls.ask .commit
      pure (told "Transaction committed." reply)
  | .rollback => do
      let reply ← Calls.ask .rollback
      pure (told "Transaction rolled back." reply)

end Executor

/-! ### Messages -/

/-- `{:?}` of a text. -/
def debugText (text : String) : String :=
  String.ofList ('"' :: text.toList.flatMap debugChar ++ ['"'])

/-- `{:?}` of a list, from its parts. -/
def debugList (parts : List String) : String := "[" ++ ", ".intercalate parts ++ "]"

/-- `{:?}` of a message. -/
def Message.debug : Message → String
  | .query text => "Query(" ++ debugText text ++ ")"
  | .ok text => "Ok(" ++ debugText text ++ ")"
  | .error text => "Error(" ++ debugText text ++ ")"
  | .rows headers table =>
      "Rows \x7b headers: " ++ debugList (headers.map debugText) ++ ", rows: " ++
        debugList (table.map fun row => debugList (row.map debugText)) ++ " \x7d"

namespace Dispatch

/-- `"Error:"`. -/
def errorWord : List Char := ['E', 'r', 'r', 'o', 'r', ':']

/-- `".btree "`. -/
def btreeWord : List Char := ['.', 'b', 't', 'r', 'e', 'e', ' ']

/-- `trim_start_matches("Error:")`. -/
def trimStartMatchesError : List Char → List Char
  | 'E' :: 'r' :: 'r' :: 'o' :: 'r' :: ':' :: rest => trimStartMatchesError rest
  | chars => chars

/-- The message that a result of the executor becomes. -/
def messageOf : ExecuteResult → Message
  | .message text =>
      if errorWord.isPrefixOf text.toList then
        .error (String.ofList (trim (trimStartMatchesError text.toList)))
      else .ok text
  | .rows headers rows => .rows headers rows

/-- The answer to `.btree`. -/
def dumpMessage : Except String String → Message
  | .ok tree => .ok tree
  | .error error => .error error

/-- `dispatch`: parse and execute a text, converting the result into a message. -/
def dispatch (sql : String) : SessionProgram Message :=
  let sql := trim sql.toList
  if btreeWord.isPrefixOf sql then do
    let dump ← Session.dumpBtree (String.ofList (trim (sql.drop btreeWord.length)))
    pure (dumpMessage dump)
  else do
    let statement ← Parser.parse (String.ofList sql)
    let result ← Executor.execute statement
    pure (messageOf result)

/-- The response to a message, in `session_loop`. -/
def respond : Message → SessionProgram Message
  | .query sql => dispatch sql
  | other => pure (.error ("Unexpected message from client: " ++ other.debug))

end Dispatch

/-! ### One session alone -/

namespace Operation

/-- The text of an operation that the session refuses before it takes any lock. -/
def refusal (inTransaction : Bool) : Operation → Option String
  | .begin => if inTransaction then some "Already in a transaction." else none
  | .commit | .rollback => if inTransaction then none else some "No active transaction."
  | _ => none

/-- The flag `in_transaction` after the closure of an operation. -/
def flagAfter (inTransaction : Bool) (answer : Except Fault Answer) : Operation → Bool
  | .begin =>
      match answer with
      | .ok _ => true
      | .error _ => inTransaction
  | .commit | .rollback | .drop => false
  | _ => inTransaction

end Operation

/-- A session that no other one shares the storage with, which the gate never stops. -/
structure Alone where
  inTransaction : Bool
  storage : Storage

namespace Alone

/-- Run the closure of an operation. -/
def runClosure (operation : Operation) : Exec Alone Answer := fun alone =>
  let (answer, storage) := operation.closure alone.storage
  (answer, ⟨operation.flagAfter alone.inTransaction answer, storage⟩)

/-- An operation that the executor calls. -/
def perform (operation : Operation) : Exec Alone Answer := fun alone =>
  match operation.refusal alone.inTransaction with
  | some message => (.error (.error message), alone)
  | none => runClosure operation alone

/-- An operation, with an error value as its reply. -/
def reply (operation : Operation) : Exec Alone Reply := Exec.attempt (perform operation)

/-- The end of the session. -/
def drop : Exec Alone Unit := fun alone =>
  if alone.inTransaction then ((runClosure .drop alone).1.map fun _ => (), (runClosure .drop alone).2)
  else (.ok (), alone)

end Alone

end MukhiDb.Model
