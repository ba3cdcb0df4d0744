import MukhiDb.Foundation.Medium
import MukhiDb.Model.Page

/-!
Contract: the write-ahead log of one table (`wal.rs`).

Owns: the fixed 4109-byte record; the three calls that change the log; and
recovery, which reads whole records up to the first short read, collects the
transaction ids of the commit records, and keeps the page records of those ids.

Does not own: when the log is written, replayed or truncated (`pager.rs`).
-/

namespace MukhiDb.Model

open MukhiDb.Foundation

/-- `RECORD_TYPE_PAGE`. -/
def recordTypePage : UInt8 := 0x01

/-- `RECORD_TYPE_COMMIT`. -/
def recordTypeCommit : UInt8 := 0x02

/-- `RECORD_SIZE`: type, transaction id, page number, page data. -/
def recordSize : Nat := 1 + 8 + 4 + pageSize

/-- The in-memory part of the log handle. -/
structure Wal where
  txnId : Nat
deriving DecidableEq, Repr

/-- A single recovered page write. -/
structure WalRecord where
  pageNum : Nat
  data : Page
deriving DecidableEq

/-- The log handle together with the log file it has open. -/
structure WalIo where
  wal : Wal
  log : Bytes
  schedule : List IoOutcome

namespace Wal

/-- Run a call on the log file. -/
def onLog {α : Type} (call : Exec Medium α) : Exec WalIo α :=
  Exec.zoom (fun state => ⟨state.log, state.schedule⟩)
    (fun medium state => { state with log := medium.bytes, schedule := medium.schedule }) call

/-- The bytes of a page-write record. -/
def pageRecord (txnId pageNum : Nat) (data : Page) : Bytes :=
  recordTypePage :: (leBytes 8 txnId ++ leBytes 4 pageNum ++ data.bytes)

/-- The bytes of a commit record: page number and page data stay zero. -/
def commitRecord (txnId : Nat) : Bytes :=
  recordTypeCommit :: (leBytes 8 txnId ++ List.replicate (4 + pageSize) 0)

/-- `Wal::open`: a handle starts at transaction id 0. -/
def opened : Wal := ⟨0⟩

/-- Append a page-write record. -/
def appendPage (pageNum : Nat) (data : Page) : Exec WalIo Unit := do
  let state ← Exec.get
  onLog Medium.touch
  onLog (Medium.append (pageRecord state.wal.txnId pageNum data))

/-- Append a commit marker and sync the log. -/
def appendCommit : Exec WalIo Unit := do
  let state ← Exec.get
  onLog Medium.touch
  onLog (Medium.append (commitRecord state.wal.txnId))
  onLog Medium.touch
  Exec.modify fun state => { state with wal := ⟨(state.wal.txnId + 1) % 2 ^ 64⟩ }

/-- Truncate the log to zero bytes. -/
def truncate : Exec WalIo Unit := do
  onLog Medium.clear
  onLog Medium.touch

/-- The page data of a record. -/
def recordPage (record : Bytes) (size : record.length = recordSize) : Page :=
  ⟨slice record 13 pageSize, slice_length (by rw [size]; decide)⟩

/-- What recovery has collected: the committed ids and the page records. -/
structure Scan where
  committed : List Nat
  pages : List (Nat × WalRecord)

/-- Add one whole record. An unknown record type is skipped. -/
def Scan.add (found : Scan) (record : Bytes) : Scan :=
  if size : record.length = recordSize then
    let rtype := record.headD 0
    let txn := leValue (slice record 1 8)
    if rtype = recordTypeCommit then
      { found with committed := txn :: found.committed }
    else if rtype = recordTypePage then
      { found with
        pages := found.pages ++ [(txn, ⟨leValue (slice record 9 4), recordPage record size⟩)] }
    else found
  else found

/-- The loop of `recover`, with one unit of fuel for each read. -/
def recoverLoop : (fuel : Nat) → (offset : Nat) → (found : Scan) → Exec WalIo Scan
  | 0, _, _ => Exec.throw .diverge
  | fuel + 1, offset, found => do
      match ← onLog (Medium.readAt offset recordSize) with
      | none => pure found
      | some record => recoverLoop fuel (offset + recordSize) (found.add record)

/-- Keep only the records of committed transactions. -/
def Scan.records (found : Scan) : List WalRecord :=
  (found.pages.filter fun page => page.1 ∈ found.committed).map Prod.snd

/-- Recover the committed page writes. Each read advances by a whole record, so
the loop needs no more reads than the log has bytes, and one that finds the end. -/
def recover : Exec WalIo (List WalRecord) := do
  let len ← onLog Medium.length
  if len = 0 then
    pure []
  else
    onLog Medium.touch
    let found ← recoverLoop (len + 1) 0 ⟨[], []⟩
    pure found.records

end Wal

end MukhiDb.Model
