import MukhiDb.Model.Wal

/-!
Contract: the page cache over one table file (`pager.rs`).

Owns: opening a table file with replay of the log; loading, modifying and
allocating pages; begin, commit, rollback and flush. Every I/O call of the
source is one entry of the schedule, in issue order across both files.

Does not own: locks (`read_page` and `get_page` load a page in the same way, and
each runs here as one step), and the meaning of page contents.
-/

namespace MukhiDb.Model

open MukhiDb.Foundation

/-- `MAX_PAGES`. -/
def maxPages : Nat := 1024

/-- The loop range `0..MAX_PAGES`. -/
@[irreducible] def pageIndices : List Nat := List.range maxPages

/-- The two files of a table: `<name>.db` and `<name>.db.wal`. -/
structure Disk where
  db : Bytes
  log : Bytes
deriving DecidableEq

/-- The in-memory part of a pager. The cache vectors have `maxPages` entries;
no operation touches an index past them. -/
structure Pager where
  fileLength : Nat
  pages : Nat → Option Page
  dirty : Nat → Bool
  wal : Wal
  inTransaction : Bool

/-- A pager together with the files it has open. -/
structure PagerIo where
  pager : Pager
  disk : Disk
  schedule : List IoOutcome

/-- The files of a table before a pager has them open. -/
structure DiskIo where
  disk : Disk
  schedule : List IoOutcome

/-! ### Calls on one of the two files -/

/-- Run a call on the `.db` file of an open pager. -/
def PagerIo.onFile {α : Type} (call : Exec Medium α) : Exec PagerIo α :=
  Exec.zoom (fun state => ⟨state.disk.db, state.schedule⟩)
    (fun medium state =>
      { state with disk := { state.disk with db := medium.bytes }, schedule := medium.schedule })
    call

/-- Run a log operation of an open pager. -/
def PagerIo.onWal {α : Type} (call : Exec WalIo α) : Exec PagerIo α :=
  Exec.zoom (fun state => ⟨state.pager.wal, state.disk.log, state.schedule⟩)
    (fun after state =>
      { state with
        pager := { state.pager with wal := after.wal }
        disk := { state.disk with log := after.log }
        schedule := after.schedule })
    call

/-- Run a call on the `.db` file before the pager exists. -/
def DiskIo.onFile {α : Type} (call : Exec Medium α) : Exec DiskIo α :=
  Exec.zoom (fun state => ⟨state.disk.db, state.schedule⟩)
    (fun medium state =>
      { state with disk := { state.disk with db := medium.bytes }, schedule := medium.schedule })
    call

/-- Run a log operation before the pager exists. The handle was just opened. -/
def DiskIo.onWal {α : Type} (call : Exec WalIo α) : Exec DiskIo α :=
  Exec.zoom (fun state => ⟨Wal.opened, state.disk.log, state.schedule⟩)
    (fun after state =>
      { state with disk := { state.disk with log := after.log }, schedule := after.schedule })
    call

/-! ### Opening -/

namespace Pager

/-- Write the recovered pages to the `.db` file, in log order. -/
def replay : List WalRecord → Exec DiskIo Unit
  | [] => pure ()
  | record :: rest => do
      DiskIo.onFile Medium.touch
      DiskIo.onFile (Medium.writeAt (record.pageNum * pageSize) record.data.bytes)
      replay rest

/-- The crash recovery of `open`: replay the committed records, then truncate the log. -/
def recoverFile : Exec DiskIo Unit := do
  let records ← DiskIo.onWal Wal.recover
  if records = [] then
    pure ()
  else
    DiskIo.onFile (Medium.openFile id)
    replay records
    DiskIo.onFile Medium.touch
    DiskIo.onWal Wal.truncate

/-- `Pager::open`. The length check comes before the replay of the log. -/
def «open» (path : String) : Exec DiskIo Pager := do
  DiskIo.onFile (Medium.openFile fun message => s!"Failed to open '{path}': {message}")
  let fileLength ← DiskIo.onFile Medium.length
  if fileLength % pageSize = 0 then
    DiskIo.onWal (Wal.onLog
      (Medium.openFile fun message => s!"WAL open '{path}.wal': {message}"))
    recoverFile
    let fileLength ← DiskIo.onFile Medium.length
    pure
      { fileLength
        pages := fun _ => none
        dirty := fun _ => false
        wal := Wal.opened
        inTransaction := false }
  else
    Exec.throw (.error s!"Corrupt file '{path}': length {fileLength} not a multiple of {pageSize}")

/-- `num_pages`, cast to `u32`. -/
def numPages (pager : Pager) : Nat := pager.fileLength / pageSize % 2 ^ 32

/-! ### Loading pages -/

/-- The text of the page-number check. -/
def pageLimitMessage (pageNum : Nat) : String := s!"Page {pageNum} exceeds max {maxPages}"

/-- Put a page into the cache. -/
def cachePage (pageNum : Nat) (page : Page) (state : PagerIo) : PagerIo :=
  { state with
    pager := { state.pager with pages := Function.update state.pager.pages pageNum (some page) } }

/-- The bytes of a page that is not in the cache: read from the file when it ends
at or before `file_length`, else zeros. -/
def fetch (pageNum : Nat) : Exec PagerIo Page := do
  let state ← Exec.get
  if (pageNum + 1) * pageSize ≤ state.pager.fileLength then
    PagerIo.onFile Medium.touch
    match ← PagerIo.onFile (Medium.readAt (pageNum * pageSize) pageSize) with
    | some bytes =>
        if size : bytes.length = pageSize then pure ⟨bytes, size⟩ else Exec.throw .panic
    | none => Exec.throw (.error "failed to fill whole buffer")
  else pure Page.zero

/-- The shared body of `read_page` and `get_page`: fill the cache entry if it is
empty and return it. -/
def loadPage (pageNum : Nat) : Exec PagerIo Page := do
  if maxPages ≤ pageNum then
    Exec.throw (.error (pageLimitMessage pageNum))
  else
    let state ← Exec.get
    match state.pager.pages pageNum with
    | some page => pure page
    | none =>
        let page ← fetch pageNum
        Exec.modify (cachePage pageNum page)
        pure page

/-- `read_page`. -/
def readPage (pageNum : Nat) : Exec PagerIo Page := loadPage pageNum

/-- `get_page`. -/
def getPage (pageNum : Nat) : Exec PagerIo Page := loadPage pageNum

/-- Mark a page dirty and extend `file_length` over it. -/
def markDirty (pageNum : Nat) (state : PagerIo) : PagerIo :=
  { state with
    pager :=
      { state.pager with
        fileLength := max state.pager.fileLength ((pageNum + 1) * pageSize)
        dirty := Function.update state.pager.dirty pageNum true } }

/-- `get_page_mut`. -/
def getPageMut (pageNum : Nat) : Exec PagerIo Page := do
  let page ← getPage pageNum
  Exec.modify (markDirty pageNum)
  pure page

/-- `get_page_mut` followed by changes to the page through the returned
reference. A panic on the way leaves the loaded page. -/
def modifyPage (pageNum : Nat) (change : Page → Except Fault Page) : Exec PagerIo Unit := do
  let page ← getPageMut pageNum
  let page ← Exec.ofExcept (change page)
  Exec.modify (cachePage pageNum page)

/-- `allocate_page`. -/
def allocatePage : Exec PagerIo Nat := do
  let state ← Exec.get
  let pageNum := state.pager.numPages
  let _ ← getPageMut pageNum
  pure pageNum

/-! ### Transactions -/

/-- `begin`. -/
def begin : Exec PagerIo Unit := do
  let state ← Exec.get
  if state.pager.inTransaction then
    Exec.throw (.error "Already in a transaction.")
  else
    Exec.modify fun state => { state with pager := { state.pager with inTransaction := true } }

/-- The first loop of `commit`: append every dirty page of `indices` to the log. -/
def logDirty : (indices : List Nat) → Exec PagerIo Unit
  | [] => pure ()
  | index :: rest => do
      let state ← Exec.get
      if state.pager.dirty index then
        match state.pager.pages index with
        | some page => PagerIo.onWal (Wal.appendPage index page)
        | none => pure ()
      logDirty rest

/-- Clear the dirty bit of a page. -/
def markClean (index : Nat) (state : PagerIo) : PagerIo :=
  { state with pager := { state.pager with dirty := Function.update state.pager.dirty index false } }

/-- The second loop of `commit`: write every dirty page of `indices` to the file
and clear its dirty bit. -/
def applyDirty : (indices : List Nat) → Exec PagerIo Unit
  | [] => pure ()
  | index :: rest => do
      let state ← Exec.get
      if state.pager.dirty index then
        match state.pager.pages index with
        | some page =>
            PagerIo.onFile Medium.touch
            PagerIo.onFile (Medium.writeAt (index * pageSize) page.bytes)
            Exec.modify (markClean index)
        | none => pure ()
      applyDirty rest

/-- Leave the transaction. -/
def endTransaction (state : PagerIo) : PagerIo :=
  { state with pager := { state.pager with inTransaction := false } }

/-- `commit`: log the dirty pages, seal the log, apply the pages, truncate the log. -/
def commit : Exec PagerIo Unit := do
  logDirty pageIndices
  PagerIo.onWal Wal.appendCommit
  applyDirty pageIndices
  PagerIo.onFile Medium.touch
  PagerIo.onFile Medium.touch
  PagerIo.onWal Wal.truncate
  Exec.modify endTransaction

/-- Drop every dirty page from the cache. -/
def dropDirty (state : PagerIo) : PagerIo :=
  { state with
    pager :=
      { state.pager with
        pages := fun index => if state.pager.dirty index then none else state.pager.pages index
        dirty := fun _ => false } }

/-- `rollback`: drop the dirty pages and take the length of the file again. -/
def rollback : Exec PagerIo Unit := do
  Exec.modify dropDirty
  let length ← PagerIo.onFile Medium.length
  Exec.modify fun state => { state with pager := { state.pager with fileLength := length } }
  PagerIo.onWal Wal.truncate
  Exec.modify endTransaction

/-- `flush`. -/
def flush : Exec PagerIo Unit := commit

end Pager

end MukhiDb.Model
