import Mathlib.Logic.Function.Basic
import MukhiDb.Model.Storage

/-!
Contract: the sessions that share one storage (`session.rs`).

Owns: the operations of a session; the place of a session between two atomic
sections; and the steps of all sessions over the shared storage, its read/write
lock, the owner of the transaction gate and the condition variable. A section
under the `txn_owner` mutex is one step. A closure on the storage takes the lock
in one step and returns in another, which runs it.

Does not own: which session moves next, and what follows a closure that does not
return. Its session keeps the lock from then on, the read lock too, which the code
gives back when a scan panics.
-/

namespace MukhiDb.Model

open MukhiDb.Foundation

/-! ### Operations -/

/-- An operation of a session. `drop` ends the session. -/
inductive Operation where
  | createTable (name : String) (columns : List Column)
  | insert (table : String) (values : List Value)
  | selectAll (table : String)
  | dumpBtree (table : String)
  | begin
  | commit
  | rollback
  | drop

/-- What an operation returns. -/
inductive Answer where
  | done
  | rows (headers : List String) (rows : List Row)
  | text (dump : String)

namespace Operation

/-- The closure that the operation runs on the storage. -/
def closure : Operation → Exec Storage Answer
  | createTable name columns => do
      Storage.createTable name columns
      pure .done
  | insert table values => do
      Storage.insert table values
      pure .done
  | selectAll table => do
      let (headers, rows) ← Storage.selectAll table
      pure (.rows headers rows)
  | dumpBtree table => do
      let dump ← Storage.dumpBtree table
      pure (.text dump)
  | begin => do
      Storage.begin
      pure .done
  | commit => do
      Storage.commit
      pure .done
  | rollback | drop => do
      Storage.rollback
      pure .done

/-- The operation uses `with_write`. `select_all` and `dump_btree` do so inside a
transaction only. -/
def writes (inTransaction : Bool) : Operation → Bool
  | selectAll _ | dumpBtree _ => inTransaction
  | _ => true

end Operation

/-! ### Sessions -/

/-- Where a session is. -/
inductive Phase where
  /-- Between two operations. -/
  | idle
  /-- About to lock `txn_owner` and to test the condition of the loop of
  `wait_for_txn_clear` or `begin`. -/
  | gate (operation : Operation)
  /-- Waiting on `txn_cv`, not notified. -/
  | parked (operation : Operation)
  /-- About to lock the storage. -/
  | locking (operation : Operation)
  /-- Holding the lock of the storage. -/
  | inside (operation : Operation)
  /-- About to run `release_txn_gate`. -/
  | releasing (operation : Operation) (answer : Except Fault Answer)
  /-- Dropped. -/
  | gone

/-- `Session`, with the place it is in and what its last operation returned. -/
structure Session where
  inTransaction : Bool
  phase : Phase
  reply : Option (Except Fault Answer)

namespace Session

/-- `Session::new`. -/
def new : Session := ⟨false, .idle, none⟩

/-- The session at another place. -/
def at_ (phase : Phase) (session : Session) : Session := { session with phase }

/-- The session with its operation over. -/
def returns (answer : Except Fault Answer) (session : Session) : Session :=
  { session with phase := .idle, reply := some answer }

/-- The first steps of an operation, up to its first lock. -/
def start (session : Session) : Operation → Session
  | .begin =>
      if session.inTransaction then session.returns (.error (.error "Already in a transaction."))
      else session.at_ (.gate .begin)
  | .commit =>
      if session.inTransaction then session.at_ (.locking .commit)
      else session.returns (.error (.error "No active transaction."))
  | .rollback =>
      if session.inTransaction then session.at_ (.locking .rollback)
      else session.returns (.error (.error "No active transaction."))
  | .drop => if session.inTransaction then session.at_ (.locking .drop) else session.at_ .gone
  | operation => session.at_ (.gate operation)

/-- What follows the closure of an operation. -/
def afterClosure (session : Session) (answer : Except Fault Answer) : Operation → Session
  | .begin =>
      match answer with
      | .ok _ => { session.returns answer with inTransaction := true }
      | .error _ => session.at_ (.releasing .begin answer)
  | .commit => { session.at_ (.releasing .commit answer) with inTransaction := false }
  | .rollback => { session.at_ (.releasing .rollback answer) with inTransaction := false }
  | .drop => { session.at_ (.releasing .drop answer) with inTransaction := false }
  | _ => session.returns answer

/-- What follows `release_txn_gate`. -/
def afterRelease (session : Session) (answer : Except Fault Answer) : Operation → Session
  | .drop => session.at_ .gone
  | _ => session.returns answer

/-- A session that waits on `txn_cv` is notified. -/
def notified (session : Session) : Session :=
  match session.phase with
  | .parked operation => session.at_ (.gate operation)
  | _ => session

end Session

/-! ### The lock of the storage -/

/-- Who holds `RwLock<Storage>`. -/
inductive StorageLock where
  | free
  | writing (id : Nat)
  | reading (ids : List Nat)

namespace StorageLock

/-- Take the lock, if that is possible now. -/
def acquire (id : Nat) (write : Bool) : StorageLock → Option StorageLock
  | free => some (if write then writing id else reading [id])
  | reading ids => if write then none else some (reading (id :: ids))
  | writing _ => none

/-- Give the lock back. -/
def drop (id : Nat) : StorageLock → StorageLock
  | reading ids => if ids.erase id = [] then free else reading (ids.erase id)
  | _ => free

end StorageLock

/-! ### All sessions -/

/-- `Shared`, and the sessions by their ids. -/
structure System where
  storage : Storage
  lock : StorageLock
  txnOwner : Option Nat
  sessions : Nat → Session

/-- One section of a session. -/
inductive Action where
  | start (operation : Operation)
  | check
  | wake
  | enter
  | leave
  | release

/-- The closure came back, with `Ok` or with `Err`. -/
def cameBack {α : Type} : Except Fault α → Bool
  | .ok _ => true
  | .error (.error _) => true
  | .error _ => false

namespace System

/-- `Shared::new`, with sessions that did nothing yet. -/
def new (storage : Storage) : System := ⟨storage, .free, none, fun _ => Session.new⟩

/-- The system with another state of one session. -/
def set (id : Nat) (session : Session) (system : System) : System :=
  { system with sessions := Function.update system.sessions id session }

/-- A session is called between two operations. -/
def start (id : Nat) (operation : Operation) (system : System) : Option System :=
  match (system.sessions id).phase with
  | .idle => some (system.set id ((system.sessions id).start operation))
  | _ => none

/-- Test the condition of the loop under the mutex: go on, or wait. `begin` goes on when
there is no owner, and becomes the owner; the others also when they are the owner. -/
def check (id : Nat) (system : System) : Option System :=
  match (system.sessions id).phase with
  | .gate .begin =>
      if system.txnOwner = none then
        some { system.set id ((system.sessions id).at_ (.locking .begin)) with txnOwner := some id }
      else some (system.set id ((system.sessions id).at_ (.parked .begin)))
  | .gate operation =>
      if system.txnOwner = none ∨ system.txnOwner = some id then
        some (system.set id ((system.sessions id).at_ (.locking operation)))
      else some (system.set id ((system.sessions id).at_ (.parked operation)))
  | _ => none

/-- A spurious wake-up. -/
def wake (id : Nat) (system : System) : Option System :=
  match (system.sessions id).phase with
  | .parked operation => some (system.set id ((system.sessions id).at_ (.gate operation)))
  | _ => none

/-- Lock the storage. -/
def enter (id : Nat) (system : System) : Option System :=
  match (system.sessions id).phase with
  | .locking operation =>
      (system.lock.acquire id (operation.writes (system.sessions id).inTransaction)).map fun lock =>
        { system.set id ((system.sessions id).at_ (.inside operation)) with lock }
  | _ => none

/-- Run the closure and unlock the storage. -/
def leave (id : Nat) (system : System) : Option System :=
  match (system.sessions id).phase with
  | .inside operation =>
      let (answer, storage) := operation.closure system.storage
      if cameBack answer then
        some
          { system.set id ((system.sessions id).afterClosure answer operation) with
            storage
            lock := system.lock.drop id }
      else none
  | _ => none

/-- `release_txn_gate`. -/
def release (id : Nat) (system : System) : Option System :=
  match (system.sessions id).phase with
  | .releasing operation answer =>
      some
        { system with
          txnOwner := if system.txnOwner = some id then none else system.txnOwner
          sessions := fun other =>
            if other = id then (system.sessions id).afterRelease answer operation
            else (system.sessions other).notified }
  | _ => none

/-- The next section of a session. -/
def step (id : Nat) (action : Action) (system : System) : Option System :=
  match action with
  | .start operation => system.start id operation
  | .check => system.check id
  | .wake => system.wake id
  | .enter => system.enter id
  | .leave => system.leave id
  | .release => system.release id

end System

end MukhiDb.Model
