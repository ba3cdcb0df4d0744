import Mathlib.Data.Multiset.AddSub
import MukhiDb.Model.Session

/-!
Contract: what the database is for, without pages, files and locks.

Owns: a table as two multisets of rows, the one that statements see and the one that is in
its file; which answers an operation may give and what it leaves; and what may be found after
the process was started again, also when it was killed during an operation.

Does not own: the bytes of rows, the trees that hold them, and the order of rows with equal
keys.
-/

namespace MukhiDb.Model

open MukhiDb.Foundation

/-! ### Tables -/

/-- The rows of a table. It is intact unless an insertion was stopped half way because there
were no more pages. -/
structure Content where
  rows : Multiset Row
  intact : Bool

/-- No rows. -/
def Content.empty : Content := ⟨0, true⟩

/-- A table: the rows that statements see, the rows in its file, and whether a transaction on
it is open. -/
structure TableView where
  columns : List Column
  live : Content
  saved : Content
  inTransaction : Bool

/-- As long as a table has fewer rows than this, it takes in more. -/
def assuredRows : Nat := 511

namespace TableView

/-- The key of a row: the value of the first INTEGER column. -/
def key (columns : List Column) (row : Row) : Int64 := TableIo.extractKey (columns.zip row.values)

/-- The values are a row of the table: one of the type of each column, and not too large. -/
structure Admits (columns : List Column) (values : List Value) : Prop where
  typed : List.Forall₂ (fun column value => match column.dataType, value with
    | .integer, .integer _ | .text, .text _ => True
    | _, _ => False) columns values
  short : serializedSize ⟨values⟩ columns ≤ BTree.maxRowDataSize

/-- A table without rows. -/
def fresh (columns : List Column) : TableView := ⟨columns, .empty, .empty, false⟩

/-- With one more row, that stays in memory. -/
def add (row : Row) (view : TableView) : TableView :=
  { view with live := { view.live with rows := row ::ₘ view.live.rows } }

/-- The rows that statements see are put in the file. -/
def store (view : TableView) : TableView := { view with saved := view.live }

/-- With one more row, in the file too unless a transaction is open. -/
def insert (row : Row) (view : TableView) : TableView :=
  if view.inTransaction then view.add row else (view.add row).store

/-- With one more row that an insertion added before it was stopped. -/
def addStopped (row : Row) (view : TableView) : TableView :=
  { view with live := ⟨row ::ₘ view.live.rows, false⟩ }

/-- A transaction is opened. -/
def begin (view : TableView) : TableView := { view with inTransaction := true }

/-- The transaction ends, and its rows are kept. -/
def commit (view : TableView) : TableView := { view.store with inTransaction := false }

/-- Back to what is in the file. -/
def rollback (view : TableView) : TableView :=
  { view with live := view.saved, inTransaction := false }

section Changes

variable {view : TableView} {row : Row}

@[simp] theorem live_commit : view.commit.live = view.live := rfl

@[simp] theorem saved_commit : view.commit.saved = view.live := rfl

@[simp] theorem live_rollback : view.rollback.live = view.saved := rfl

@[simp] theorem saved_rollback : view.rollback.saved = view.saved := rfl

@[simp] theorem live_begin : view.begin.live = view.live := rfl

@[simp] theorem saved_begin : view.begin.saved = view.saved := rfl

@[simp] theorem rows_insert : (view.insert row).live.rows = row ::ₘ view.live.rows := by
  unfold insert
  split <;> rfl

theorem saved_insert : (view.insert row).saved =
    if view.inTransaction then view.saved else (view.insert row).live := by
  unfold insert
  split <;> rfl

@[simp] theorem inTransaction_insert : (view.insert row).inTransaction = view.inTransaction := by
  unfold insert
  split <;> rfl

end Changes

/-- Rows in the order of a scan: with distinct keys they come in key order. -/
def InOrder (view : TableView) (rows : List Row) : Prop :=
  (rows : Multiset Row) = view.live.rows ∧
    (view.live.intact = true → (rows.map (key view.columns)).Nodup →
      (rows.map (key view.columns)).Pairwise (· < ·))

end TableView

/-! ### Databases -/

/-- The tables by their names. -/
abbrev Database : Type := String → Option TableView

namespace Database

/-- The database without tables. -/
def empty : Database := fun _ => none

/-- The database with another table of a name. -/
def put (name : String) (view : TableView) (db : Database) : Database :=
  Function.update db name (some view)

/-- A change to all tables. -/
def map (change : TableView → TableView) (db : Database) : Database :=
  fun name => (db name).map change

/-- The table that a statement is about has to be there. -/
def needs : Operation → Option String
  | .insert table _ | .selectAll table | .dumpBtree table => some table
  | _ => none

/-- What an operation may answer and leave. -/
inductive Step (db : Database) : Operation → Except Fault Answer → Database → Prop where
  | created {name : String} (columns : List Column) (absent : db name = none) :
      Step db (.createTable name columns) (.ok .done) (db.put name (.fresh columns))
  | taken {name : String} {view : TableView} (columns : List Column) (present : db name = some view) :
      Step db (.createTable name columns)
        (.error (.error s!"Table '{name}' already exists.")) db
  | missing {operation : Operation} {name : String} (about : needs operation = some name)
      (absent : db name = none) : Step db operation (.error (Storage.notFound name)) db
  | inserted {name : String} {view : TableView} {values : List Value} (present : db name = some view)
      (admits : TableView.Admits view.columns values) :
      Step db (.insert name values) (.ok .done) (db.put name (view.insert ⟨values⟩))
  | refused {name : String} {view : TableView} {values : List Value} {message : String}
      (present : db name = some view) (unfit : ¬ TableView.Admits view.columns values)
      (told : TableIo.encodeRow view.columns values = .error (.error message)) :
      Step db (.insert name values) (.error (.error message)) db
  /-- There are no more pages. The row may be there, or not. -/
  | full {name : String} {view after : TableView} {values : List Value} (present : db name = some view)
      (admits : TableView.Admits view.columns values) (many : assuredRows ≤ view.live.rows.card)
      (left : after = view ∨ after = view.addStopped ⟨values⟩) :
      Step db (.insert name values) (.error (.error (Pager.pageLimitMessage maxPages)))
        (db.put name after)
  | selected {name : String} {view : TableView} {rows : List Row} (present : db name = some view)
      (scan : view.InOrder rows) :
      Step db (.selectAll name) (.ok (.rows (view.columns.map Column.name) rows)) db
  | dumped {name : String} {view : TableView} (dump : String) (present : db name = some view) :
      Step db (.dumpBtree name) (.ok (.text dump)) db
  | begun (idle : ∀ name view, db name = some view → view.inTransaction = false) :
      Step db .begin (.ok .done) (db.map TableView.begin)
  /-- A table is in a transaction already. Others may be in it afterwards. -/
  | busy {after : Database} {name : String} {view : TableView} (present : db name = some view)
      (open_ : view.inTransaction = true)
      (left : ∀ other, after other = db other ∨ after other = (db other).map TableView.begin) :
      Step db .begin (.error (.error "Already in a transaction.")) after
  | committed : Step db .commit (.ok .done) (db.map TableView.commit)
  | rolledBack : Step db .rollback (.ok .done) (db.map TableView.rollback)
  | dropped : Step db .drop (.ok .done) (db.map TableView.rollback)

/-- What may be found after the process was killed during an operation and started again: the
rows in the files, with the row of the insert or the rows of the transaction, table by table. -/
inductive Killed (db : Database) : Operation → Database → Prop where
  | lost (operation : Operation) : Killed db operation (db.map TableView.rollback)
  | inserted {name : String} {view : TableView} {values : List Value} (present : db name = some view)
      (outside : view.inTransaction = false) (admits : TableView.Admits view.columns values) :
      Killed db (.insert name values)
        ((db.map TableView.rollback).put name (view.insert ⟨values⟩))
  | committed {after : Database} (left : ∀ name,
      after name = (db name).map TableView.rollback ∨ after name = (db name).map TableView.commit) :
      Killed db .commit after

end Database

/-! ### Several processes -/

/-- What happens to a server: an operation gives an answer, or the process ends, between two
operations or during one, and a new one is started. -/
inductive Event where
  | ran (operation : Operation) (answer : Except Fault Answer)
  | restarted (during : Option Operation)

namespace Database

/-- What an event may leave. -/
inductive Lives (db : Database) : Event → Database → Prop where
  | ran {operation : Operation} {answer : Except Fault Answer} {after : Database}
      (step : Step db operation answer after) : Lives db (.ran operation answer) after
  | stopped : Lives db (.restarted none) (db.map TableView.rollback)
  | killed {operation : Operation} {after : Database} (killed : Killed db operation after) :
      Lives db (.restarted (some operation)) after

end Database

end MukhiDb.Model
