import Mathlib.Data.Finmap
import Mathlib.Data.Finset.Sort
import Mathlib.Data.String.Basic
import MukhiDb.Model.BTree
import MukhiDb.Model.Row

/-!
Contract: the open tables of a database (`storage.rs`).

Owns: the metadata page; one table with its files, on which an insert, a scan, a
dump, begin, commit and rollback run; and the map of tables over a directory,
with what the host decides: the order in which the loops over all tables visit
them, and the file that a path leads to.

Does not own: sessions and locks.
-/

namespace MukhiDb.Model

open MukhiDb.Foundation

/-! ### The metadata page -/

/-- `META_ROOT_OFFSET`. -/
def metaRootOffset : Nat := 0

/-- `META_NCOLS_OFFSET`. -/
def metaNcolsOffset : Nat := 4

/-- `META_COLS_OFFSET`. -/
def metaColsOffset : Nat := 8

/-- The tag of a data type. -/
def DataType.tag : DataType → UInt8
  | .integer => 0
  | .text => 1

/-- The loop of `write_metadata`. Names are cut to 255 bytes. -/
def writeColumns : List Column → (off : Nat) → Page → Except Fault Page
  | [], _, page => pure page
  | column :: rest, off, page => do
      let name := utf8Bytes column.name
      let len := min name.length 255
      let page ← page.write off (leBytes 2 len)
      let page ← page.write (off + 2) (name.take len)
      let page ← page.write (off + 2 + len) [column.dataType.tag]
      writeColumns rest (off + 2 + len + 1) page

/-- What `write_metadata` does to page 0. -/
def encodeMetadata (rootPage : Nat) (columns : List Column) (page : Page) : Except Fault Page := do
  let page ← page.write metaRootOffset (leBytes 4 rootPage)
  let page ← page.write metaNcolsOffset (leBytes 4 columns.length)
  writeColumns columns metaColsOffset page

/-- `write_metadata`. -/
def writeMetadata (rootPage : Nat) (columns : List Column) : PageProgram Unit :=
  BTree.modifyPage 0 (encodeMetadata rootPage columns)

/-- The data type of a tag. -/
def dataTypeOf (tag : UInt8) : Except Fault DataType :=
  if tag = 0 then .ok .integer
  else if tag = 1 then .ok .text
  else .error (.error s!"Unknown type tag {tag} in metadata")

/-- The loop of `read_metadata`. -/
def readColumns (page : Page) : (ncols off : Nat) → Except Fault (List Column)
  | 0, _ => pure []
  | ncols + 1, off => do
      let len := leValue (← page.read off 2)
      let name := fromUtf8Lossy (← page.read (off + 2) len)
      let dataType ← dataTypeOf ((← page.read (off + 2 + len) 1).headD 0)
      let rest ← readColumns page ncols (off + 2 + len + 1)
      pure (⟨name, dataType⟩ :: rest)

/-- What `read_metadata` takes from page 0. -/
def decodeMetadata (page : Page) : Except Fault (Nat × List Column) := do
  let root := leValue (← page.read metaRootOffset 4)
  let ncols := leValue (← page.read metaNcolsOffset 4)
  let columns ← readColumns page ncols metaColsOffset
  pure (root, columns)

/-- `read_metadata`. -/
def readMetadata : PageProgram (Nat × List Column) := do
  let page ← BTree.getPage 0
  decodeMetadata page

/-! ### One table -/

/-- Per-table handle: pager + schema + root page. `path` is the file that the
pager has open. -/
structure TableStore where
  path : String
  pager : Pager
  columns : List Column
  rootPage : Nat

/-- A table together with its files. -/
structure TableIo where
  store : TableStore
  disk : Disk
  schedule : List IoOutcome

namespace TableIo

/-- Run a call of the table's pager. -/
def onPager {α : Type} (call : Exec PagerIo α) : Exec TableIo α :=
  Exec.zoom (fun table => ⟨table.store.pager, table.disk, table.schedule⟩)
    (fun after table =>
      { store := { table.store with pager := after.pager }
        disk := after.disk
        schedule := after.schedule })
    call

/-- Run a program over the table's pages. -/
def onPages {α : Type} (program : PageProgram α) : Exec TableIo α :=
  onPager (Pager.perform program)

/-- `store.root_page = root`. -/
def setRoot (root : Nat) : Exec TableIo Unit :=
  Exec.modify fun table => { table with store := { table.store with rootPage := root } }

/-- `extract_key`: the first INTEGER column, 0 if there is none. -/
def extractKey : List (Column × Value) → Int64
  | [] => 0
  | (column, value) :: rest =>
      match column.dataType, value with
      | .integer, .integer n => n
      | _, _ => extractKey rest

/-- The text of the type check. -/
def typeMessage (column : Column) (position : Nat) (value : Value) : String :=
  s!"Column '{column.name}' (position {position}) expects " ++ column.dataType.debug ++ ", got " ++
    value.debug ++ "."

/-- The type check: `position` numbers the columns. -/
def checkTypes : List (Column × Value) → (position : Nat) → Except Fault Unit
  | [], _ => pure ()
  | (column, value) :: rest, position =>
      match column.dataType, value with
      | .integer, .integer _ => checkTypes rest (position + 1)
      | .text, .text _ => checkTypes rest (position + 1)
      | _, _ => .error (.error (typeMessage column position value))

/-- The text of the arity check. -/
def arityMessage (expected got : Nat) : String := s!"Expected {expected} values, got {got}."

/-- The text of the size check. -/
def sizeMessage (size : Nat) : String :=
  s!"Row too large ({size} bytes). Maximum row size is {BTree.maxRowDataSize} bytes."

/-- The checks of `insert` on the values: the key and the serialized row. -/
def encodeRow (columns : List Column) (values : List Value) : Except Fault (Int64 × Bytes) := do
  if values.length ≠ columns.length then .error (.error (arityMessage columns.length values.length))
  else do
    checkTypes (columns.zip values) 0
    let key := extractKey (columns.zip values)
    let rsize := serializedSize ⟨values⟩ columns
    if BTree.maxRowDataSize < rsize then .error (.error (sizeMessage rsize))
    else do
      let buf ← serialize ⟨values⟩ columns (List.replicate rsize 0)
      pure (key, buf)

/-- `if !pager.in_transaction() { pager.flush()? }`. -/
def flushOutside : Exec TableIo Unit := do
  let table ← Exec.get
  if table.store.pager.inTransaction then pure () else onPager Pager.flush

/-- The part of `insert` after the checks. -/
def insertRow (key : Int64) (buf : Bytes) : Exec TableIo Unit := do
  let table ← Exec.get
  let newRoot ← onPages (BTree.insert table.store.rootPage key buf)
  (if newRoot ≠ table.store.rootPage then do
    setRoot newRoot
    onPages (writeMetadata newRoot table.store.columns)
  else pure ())
  flushOutside

/-- `insert`, on the table it found. -/
def insert (values : List Value) : Exec TableIo Unit := do
  let table ← Exec.get
  let (key, buf) ← Exec.ofExcept (encodeRow table.store.columns values)
  insertRow key buf

/-- The rows that raw rows stand for. -/
def decodeRows (columns : List Column) : List Bytes → Except Fault (List Row)
  | [] => pure []
  | buf :: rest => do
      let row ← deserialize buf columns
      let rows ← decodeRows columns rest
      pure (row :: rows)

/-- `select_all`, on the table it found: the headers and the rows. -/
def selectAll : Exec TableIo (List String × List Row) := do
  let table ← Exec.get
  let rawRows ← onPages (BTree.scanAll table.store.rootPage)
  let rows ← Exec.ofExcept (decodeRows table.store.columns rawRows)
  pure (table.store.columns.map Column.name, rows)

/-- `dump_btree`, on the table it found. -/
def dumpBtree : Exec TableIo String := do
  let table ← Exec.get
  onPages (BTree.dumpTree (maxPages + 1) table.store.rootPage 0)

/-- The body of the loop of `begin`. -/
def begin : Exec TableIo Unit := onPager Pager.begin

/-- The body of the loop of `commit`. -/
def commit : Exec TableIo Unit := onPager Pager.commit

/-- The body of the loop of `rollback`: the root page is read again, since the
dirty pages were discarded. -/
def rollback : Exec TableIo Unit := do
  onPager Pager.rollback
  let (root, _) ← onPages readMetadata
  setRoot root

/-- What `create_table` does with the pager it opened. -/
def create (columns : List Column) : Exec TableIo Unit := do
  let _ ← onPages BTree.allocatePage
  let rootPage ← onPages BTree.createTree
  onPages (writeMetadata rootPage columns)
  flushOutside
  Exec.modify fun table => { table with store := { table.store with columns, rootPage } }

/-- What `open_table` does with the pager it opened. -/
def load : Exec TableIo Unit := do
  let (rootPage, columns) ← onPages readMetadata
  Exec.modify fun table => { table with store := { table.store with columns, rootPage } }

end TableIo

/-! ### All tables -/

/-- What the host decides: the order in which a hash map visits its keys, each once, and in
the same order as long as the keys are the same; and the file that a path leads to, which two
paths can share. -/
structure Host where
  order : Finset String → List String
  mem_order : ∀ names name, name ∈ order names ↔ name ∈ names
  nodup_order : ∀ names, (order names).Nodup
  resolve : String → String

/-- The host of a later process on the same files, where hash maps may visit in another order. -/
def Host.restarted (host later : Host) : Host := { later with resolve := host.resolve }

/-- A path in the working directory, with `./` or without it. -/
def Host.inDirectory (path : String) : String :=
  match path.toList with
  | '.' :: '/' :: rest => String.ofList rest
  | _ => path

/-- A hash map that visits one name before all others, and paths in the working directory. -/
def Host.startingWith (first : String) : Host where
  resolve := Host.inDirectory
  order names :=
    if first ∈ names then first :: (names.erase first).sort (· ≤ ·) else names.sort (· ≤ ·)
  mem_order := by
    intro names name
    split
    · next present =>
        rw [List.mem_cons, Finset.mem_sort, Finset.mem_erase]
        by_cases same : name = first
        · simp [same, present]
        · simp [same]
    · exact Finset.mem_sort _
  nodup_order := by
    intro names
    split
    · rw [List.nodup_cons, Finset.mem_sort]
      exact ⟨Finset.notMem_erase _ _, Finset.sort_nodup _ _⟩
    · exact Finset.sort_nodup _ _

/-- `HashMap<String, TableStore>`. -/
abbrev Tables : Type := Finmap fun _ : String => TableStore

/-- `Storage`, over a directory. A file of the directory stands for a `.db` file and its
log, and is not a path: `host` leads from paths to files. -/
structure Storage where
  tables : Tables
  host : Host
  dir : String → Option Disk
  schedule : List IoOutcome

namespace Storage

/-- `Storage::new`, over a directory. -/
def new (host : Host) (dir : String → Option Disk) (schedule : List IoOutcome) : Storage :=
  ⟨∅, host, dir, schedule⟩

/-- A file with its log, empty if there are none. -/
def filesAt (state : Storage) (path : String) : Disk := (state.dir path).getD ⟨[], []⟩

/-- Run a call on one table with its files. -/
def onTable {α : Type} (name : String) (missing : Fault) (call : Exec TableIo α) :
    Exec Storage α := fun state =>
  match state.tables.lookup name with
  | none => (.error missing, state)
  | some store =>
      let (result, after) := call ⟨store, state.filesAt store.path, state.schedule⟩
      (result,
        { state with
          tables := state.tables.insert name after.store
          dir := Function.update state.dir store.path (some after.disk)
          schedule := after.schedule })

/-- The first I/O call takes effect. -/
def firstCallDone : List IoOutcome → Bool
  | [] => true
  | outcome :: _ => outcome = .done

/-- `Pager::open`, on the file that a path leads to. The first call creates the file if there is
none. -/
def openPager (path : String) : Exec Storage Pager := fun state =>
  let (result, after) := Pager.open path ⟨state.filesAt path, state.schedule⟩
  (result,
    { state with
      dir :=
        if (state.dir path).isSome ∨ firstCallDone state.schedule then
          Function.update state.dir path (some after.disk)
        else state.dir
      schedule := after.schedule })

/-- Set a table up with a pager that was just opened, and add it if that succeeds. -/
def addTable (name path : String) (pager : Pager) (setUp : Exec TableIo Unit) :
    Exec Storage Unit := fun state =>
  let (result, after) := setUp ⟨⟨path, pager, [], 0⟩, state.filesAt path, state.schedule⟩
  let state :=
    { state with
      dir := Function.update state.dir path (some after.disk)
      schedule := after.schedule }
  match result with
  | .ok () => (.ok (), { state with tables := state.tables.insert name after.store })
  | .error fault => (.error fault, state)

/-- `open_table`. -/
def openTable (name path : String) : Exec Storage Unit := do
  let state ← Exec.get
  let file := state.host.resolve path
  let pager ← openPager file
  addTable name file pager TableIo.load

/-- The path of a new table. -/
def pathOf (name : String) : String := name ++ ".db"

/-- The file that the path leads to. -/
def fileOf (state : Storage) (name : String) : String := state.host.resolve (pathOf name)

/-- `create_table`. -/
def createTable (name : String) (columns : List Column) : Exec Storage Unit := do
  let state ← Exec.get
  if (state.tables.lookup name).isSome then
    Exec.throw (.error s!"Table '{name}' already exists.")
  else do
    let pager ← openPager (state.fileOf name)
    addTable name (state.fileOf name) pager (TableIo.create columns)

/-- The error for a table that is not there. -/
def notFound (name : String) : Fault := .error s!"Table '{name}' not found."

/-- `insert`. -/
def insert (name : String) (values : List Value) : Exec Storage Unit :=
  onTable name (notFound name) (TableIo.insert values)

/-- `select_all`. -/
def selectAll (name : String) : Exec Storage (List String × List Row) :=
  onTable name (notFound name) TableIo.selectAll

/-- `dump_btree`. -/
def dumpBtree (name : String) : Exec Storage String :=
  onTable name (notFound name) TableIo.dumpBtree

/-- The order in which `values_mut` visits the tables. -/
def visited (state : Storage) : List String := state.host.order state.tables.keys

/-- A loop over tables, up to the first that fails. -/
def forEach (call : Exec TableIo Unit) : List String → Exec Storage Unit
  | [] => pure ()
  | name :: rest => do
      onTable name .panic call
      forEach call rest

/-- `for store in self.tables.values_mut()`. -/
def forAll (call : Exec TableIo Unit) : Exec Storage Unit := do
  let state ← Exec.get
  forEach call state.visited

/-- `begin`: start a transaction across all open tables. -/
def begin : Exec Storage Unit := forAll TableIo.begin

/-- `commit`. -/
def commit : Exec Storage Unit := forAll TableIo.commit

/-- `rollback`. -/
def rollback : Exec Storage Unit := forAll TableIo.rollback

end Storage

end MukhiDb.Model
