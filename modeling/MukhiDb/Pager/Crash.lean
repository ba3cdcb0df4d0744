import MukhiDb.Pager.Transactions

/-!
Contract: the files that are left when the process stops inside a commit.

Owns: both loops of commit as loops over the dirty pages; and one equation for
the files after a crash at any I/O call of commit, with any number of bytes of
that call written.

Does not own: what a later opening makes of these files.
-/

namespace MukhiDb.Model

open MukhiDb.Foundation

/-! ### Cut-off writes -/

/-- Records appended one after another, each after a seek, when the process stops
at call `calls` with `bytes` bytes of it written. -/
def stoppedAppends (records : List Bytes) (calls bytes : Nat) : Bytes :=
  match records, calls with
  | [], _ => []
  | _ :: _, 0 => []
  | record :: _, 1 => record.take bytes
  | record :: rest, calls + 2 => record ++ stoppedAppends rest calls bytes

/-- Pages written one after another, each after a seek, when the process stops at
call `calls` with `bytes` bytes of it written. -/
def stoppedWrites (disk : Disk) (writes : List (Nat × Page)) (calls bytes : Nat) : Bytes :=
  match writes, calls with
  | [], _ => disk.db
  | _ :: _, 0 => disk.db
  | write :: _, 1 => overwrite disk.db (write.1 * pageSize) (write.2.bytes.take bytes)
  | write :: rest, calls + 2 => stoppedWrites (disk.put write.1 write.2) rest calls bytes

/-- The records that a transaction appends to the log. -/
def txnRecords (txnId : Nat) (writes : List (Nat × Page)) : List Bytes :=
  writes.map (fun write => Wal.pageRecord txnId write.1 write.2) ++ [Wal.commitRecord txnId]

theorem stoppedAppends_append_lt {front back : List Bytes} {calls : Nat} (bytes : Nat)
    (early : calls < 2 * front.length) :
    stoppedAppends (front ++ back) calls bytes = stoppedAppends front calls bytes := by
  induction front generalizing calls with
  | nil => simp at early
  | cons record rest inductionHypothesis =>
      match calls with
      | 0 | 1 => rfl
      | calls + 2 =>
          rw [List.length_cons] at early
          simp only [List.cons_append, stoppedAppends]
          rw [inductionHypothesis (by omega)]

theorem stoppedAppends_append_add (front back : List Bytes) (calls bytes : Nat) :
    stoppedAppends (front ++ back) (2 * front.length + calls) bytes =
      front.flatten ++ stoppedAppends back calls bytes := by
  induction front with
  | nil => simp
  | cons record rest inductionHypothesis =>
      have count : 2 * (record :: rest).length + calls = 2 * rest.length + calls + 2 := by
        rw [List.length_cons]
        omega
      rw [count, List.cons_append, stoppedAppends, inductionHypothesis, List.flatten_cons,
        List.append_assoc]

theorem stoppedAppends_all (records : List Bytes) {calls : Nat} (bytes : Nat)
    (late : 2 * records.length ≤ calls) :
    stoppedAppends records calls bytes = records.flatten := by
  have split := stoppedAppends_append_add records [] (calls - 2 * records.length) bytes
  rw [List.append_nil, Nat.add_sub_cancel' late] at split
  rw [split, stoppedAppends, List.append_nil]

theorem stoppedWrites_all (disk : Disk) (writes : List (Nat × Page)) {calls : Nat} (bytes : Nat)
    (late : 2 * writes.length ≤ calls) :
    stoppedWrites disk writes calls bytes = (disk.putAll writes).db := by
  induction writes generalizing disk calls with
  | nil => rfl
  | cons write rest inductionHypothesis =>
      rw [List.length_cons] at late
      obtain ⟨calls, rfl⟩ : ∃ before, calls = before + 2 := ⟨calls - 2, by omega⟩
      rw [stoppedWrites, inductionHypothesis _ (by omega)]
      rfl

theorem stoppedWrites_none (disk : Disk) (writes : List (Nat × Page)) (bytes : Nat) :
    stoppedWrites disk writes 0 bytes = disk.db := by
  cases writes <;> rfl

/-- The log plays no part in page writes. -/
theorem stoppedWrites_log (db log other : Bytes) (writes : List (Nat × Page)) (calls bytes : Nat) :
    stoppedWrites ⟨db, log⟩ writes calls bytes = stoppedWrites ⟨db, other⟩ writes calls bytes := by
  induction writes generalizing db calls with
  | nil => rfl
  | cons write rest inductionHypothesis =>
      match calls with
      | 0 | 1 => rfl
      | calls + 2 => exact inductionHypothesis _ _

/-! ### The loops of commit as loops over the dirty pages -/

namespace Pager

/-- Append page records. -/
def logWrites : List (Nat × Page) → Exec PagerIo Unit
  | [] => pure ()
  | write :: rest => do
      PagerIo.onWal (Wal.appendPage write.1 write.2)
      logWrites rest

/-- Write pages to the file and mark them clean. -/
def applyWrites : List (Nat × Page) → Exec PagerIo Unit
  | [] => pure ()
  | write :: rest => do
      PagerIo.onFile Medium.touch
      PagerIo.onFile (Medium.writeAt (write.1 * pageSize) write.2.bytes)
      Exec.modify (markClean write.1)
      applyWrites rest

theorem logDirty_eq (indices : List Nat) (state : PagerIo) :
    logDirty indices state = logWrites (state.dirtyPages indices) state := by
  induction indices generalizing state with
  | nil => rfl
  | cons index rest inductionHypothesis =>
      unfold logDirty
      rw [Exec.bind_ok (Exec.run_get state), PagerIo.dirtyPages_cons]
      by_cases dirty : state.pager.dirty index = true
      · rw [if_pos dirty, if_pos dirty]
        cases cached : state.pager.pages index with
        | none => exact inductionHypothesis state
        | some page =>
            refine Exec.bind_congr fun _ after ran => ?_
            have pages : (PagerIo.onWal (Wal.appendPage index page) state).2.dirtyPages rest =
                state.dirtyPages rest := rfl
            rw [ran] at pages
            exact (inductionHypothesis after).trans (by rw [pages]; rfl)
      · rw [if_neg dirty, if_neg dirty]
        exact inductionHypothesis state

theorem applyDirty_eq (indices : List Nat) (distinct : indices.Nodup) (state : PagerIo) :
    applyDirty indices state = applyWrites (state.dirtyPages indices) state := by
  induction indices generalizing state with
  | nil => rfl
  | cons index rest inductionHypothesis =>
      obtain ⟨fresh, distinct⟩ := List.nodup_cons.mp distinct
      unfold applyDirty
      rw [Exec.bind_ok (Exec.run_get state), PagerIo.dirtyPages_cons]
      by_cases dirty : state.pager.dirty index = true
      · rw [if_pos dirty, if_pos dirty]
        cases cached : state.pager.pages index with
        | none => exact inductionHypothesis distinct state
        | some page =>
            refine Exec.bind_congr fun _ sought ranSeek => Exec.bind_congr fun _ wrote ranWrite => ?_
            have soughtPager : (PagerIo.onFile Medium.touch state).2.pager = state.pager := rfl
            have wrotePager : (PagerIo.onFile
                (Medium.writeAt (index * pageSize) page.bytes) sought).2.pager = sought.pager := rfl
            rw [ranSeek] at soughtPager
            rw [ranWrite] at wrotePager
            have pages : (markClean index wrote).dirtyPages rest = state.dirtyPages rest := by
              apply PagerIo.dirtyPages_congr
              intro other member
              have different : other ≠ index := fun same => fresh (same ▸ member)
              dsimp only at soughtPager wrotePager
              simp only [markClean, wrotePager, soughtPager, Function.update_of_ne different,
                and_self]
            exact (inductionHypothesis distinct (markClean index wrote)).trans (by rw [pages]; rfl)
      · rw [if_neg dirty, if_neg dirty]
        exact inductionHypothesis distinct state

/-! ### The log loop under a crash -/

variable (pager : Pager) (db log : Bytes)

theorem logWrites_stop {writes : List (Nat × Page)} {calls : Nat} (bytes : Nat)
    (early : calls < 2 * writes.length) :
    logWrites writes ⟨pager, ⟨db, log⟩, crashAt calls bytes⟩ =
      (.error .crash, ⟨pager, ⟨db, log ++ stoppedAppends
        (writes.map fun write => Wal.pageRecord pager.wal.txnId write.1 write.2) calls bytes⟩,
        []⟩) := by
  induction writes generalizing log calls with
  | nil => simp at early
  | cons write rest inductionHypothesis =>
      match calls with
      | 0 => simp [stoppedAppends]; rfl
      | 1 => rfl
      | calls + 2 =>
          rw [List.length_cons] at early
          have appended : PagerIo.onWal (Wal.appendPage write.1 write.2)
              ⟨pager, ⟨db, log⟩, crashAt (calls + 2) bytes⟩ =
              (.ok (), ⟨pager, ⟨db, log ++ Wal.pageRecord pager.wal.txnId write.1 write.2⟩,
                crashAt calls bytes⟩) := rfl
          rw [logWrites, Exec.bind_ok appended, inductionHypothesis _ (by omega), List.map_cons,
            stoppedAppends, List.append_assoc]

theorem logWrites_pass (writes : List (Nat × Page)) (calls bytes : Nat) :
    logWrites writes ⟨pager, ⟨db, log⟩, crashAt (2 * writes.length + calls) bytes⟩ =
      (.ok (), ⟨pager, ⟨db, log ++ PagerIo.pageRecords pager.wal.txnId writes⟩,
        crashAt calls bytes⟩) := by
  induction writes generalizing log with
  | nil => simp [logWrites, PagerIo.pageRecords]
  | cons write rest inductionHypothesis =>
      have count : 2 * (write :: rest).length + calls = 2 * rest.length + calls + 2 := by
        rw [List.length_cons]
        omega
      have appended : PagerIo.onWal (Wal.appendPage write.1 write.2)
          ⟨pager, ⟨db, log⟩, crashAt (2 * rest.length + calls + 2) bytes⟩ =
          (.ok (), ⟨pager, ⟨db, log ++ Wal.pageRecord pager.wal.txnId write.1 write.2⟩,
            crashAt (2 * rest.length + calls) bytes⟩) := rfl
      rw [count, logWrites, Exec.bind_ok appended, inductionHypothesis]
      simp [PagerIo.pageRecords]

/-! ### The file loop under a crash -/

theorem applyWrites_stop {writes : List (Nat × Page)} {calls : Nat} (bytes : Nat)
    (early : calls < 2 * writes.length) :
    ∃ after, applyWrites writes ⟨pager, ⟨db, log⟩, crashAt calls bytes⟩ =
      (.error .crash, ⟨after, ⟨stoppedWrites ⟨db, log⟩ writes calls bytes, log⟩, []⟩) := by
  induction writes generalizing pager db calls with
  | nil => simp at early
  | cons write rest inductionHypothesis =>
      match calls with
      | 0 | 1 => exact ⟨pager, rfl⟩
      | calls + 2 =>
          rw [List.length_cons] at early
          exact inductionHypothesis _ _ (show calls < 2 * rest.length by omega)

theorem applyWrites_pass (writes : List (Nat × Page)) (calls bytes : Nat) :
    ∃ after, applyWrites writes ⟨pager, ⟨db, log⟩, crashAt (2 * writes.length + calls) bytes⟩ =
      (.ok (), ⟨after, ⟨(Disk.putAll ⟨db, log⟩ writes).db, log⟩, crashAt calls bytes⟩) := by
  induction writes generalizing pager db with
  | nil => exact ⟨pager, by simp [applyWrites, Disk.putAll]⟩
  | cons write rest inductionHypothesis =>
      have count : 2 * (write :: rest).length + calls = 2 * rest.length + calls + 2 := by
        rw [List.length_cons]
        omega
      rw [count]
      exact inductionHypothesis _ _

end Pager

/-! ### Commit under a crash -/

namespace PagerIo

/-- The pages that a commit writes, in order. -/
def commitWrites (state : PagerIo) : List (Nat × Page) := state.dirtyPages pageIndices

/-- The files after commit was stopped at I/O call `calls`, with `bytes` bytes of
that call written. Each append and each page write is two calls; the commit record
is followed by a sync; the pages are followed by two calls and the truncation. -/
def crashed (state : PagerIo) (calls bytes : Nat) : Disk :=
  ⟨stoppedWrites state.disk state.commitWrites (calls - (2 * state.commitWrites.length + 3)) bytes,
    if calls ≤ 4 * state.commitWrites.length + 5 then
      state.disk.log ++
        stoppedAppends (txnRecords state.pager.wal.txnId state.commitWrites) calls bytes
    else []⟩

end PagerIo

namespace Pager

theorem txnRecords_length (txnId : Nat) (writes : List (Nat × Page)) :
    (txnRecords txnId writes).length = writes.length + 1 := by
  simp [txnRecords]

theorem txnRecords_flatten (txnId : Nat) (writes : List (Nat × Page)) :
    (txnRecords txnId writes).flatten =
      PagerIo.pageRecords txnId writes ++ Wal.commitRecord txnId := by
  simp [txnRecords, PagerIo.pageRecords, List.flatMap_def]

theorem appendCommit_stop (pager : Pager) (db log : Bytes) {calls : Nat} (bytes : Nat)
    (early : calls < 3) :
    PagerIo.onWal Wal.appendCommit ⟨pager, ⟨db, log⟩, crashAt calls bytes⟩ =
      (.error .crash, ⟨pager,
        ⟨db, log ++ stoppedAppends [Wal.commitRecord pager.wal.txnId] calls bytes⟩, []⟩) := by
  match calls with
  | 0 =>
      rw [stoppedAppends, List.append_nil]
      rfl
  | 1 => rfl
  | 2 =>
      rw [stoppedAppends, stoppedAppends, List.append_nil]
      rfl
  | calls + 3 => omega

section Crashed

variable (state : PagerIo) {calls : Nat} (bytes : Nat)

/-- The process stops while the page records are appended. -/
private theorem commit_crash_log (early : calls < 2 * state.commitWrites.length) :
    (commit ⟨state.pager, state.disk, crashAt calls bytes⟩).2.disk =
      state.crashed calls bytes := by
  have stopped := (logDirty_eq pageIndices ⟨state.pager, state.disk, crashAt calls bytes⟩).trans
    (logWrites_stop state.pager state.disk.db state.disk.log bytes early)
  unfold commit PagerIo.crashed
  rw [Exec.bind_error stopped, if_pos (by omega), txnRecords,
    stoppedAppends_append_lt bytes (by simpa using early),
    show calls - (2 * state.commitWrites.length + 3) = 0 by omega, stoppedWrites_none]
  rfl

private theorem logged (calls : Nat) :
    logDirty pageIndices ⟨state.pager, state.disk,
        crashAt (2 * state.commitWrites.length + calls) bytes⟩ =
      (.ok (), ⟨state.pager, ⟨state.disk.db, state.disk.log ++
        PagerIo.pageRecords state.pager.wal.txnId state.commitWrites⟩, crashAt calls bytes⟩) :=
  (logDirty_eq pageIndices _).trans
    (logWrites_pass state.pager state.disk.db state.disk.log state.commitWrites calls bytes)

/-- The process stops while the commit record is appended or synced. -/
private theorem commit_crash_seal (early : calls < 3) :
    (commit ⟨state.pager, state.disk,
        crashAt (2 * state.commitWrites.length + calls) bytes⟩).2.disk =
      state.crashed (2 * state.commitWrites.length + calls) bytes := by
  have stopped := appendCommit_stop state.pager state.disk.db (state.disk.log ++
    PagerIo.pageRecords state.pager.wal.txnId state.commitWrites) bytes early
  have records := stoppedAppends_append_add
    (state.commitWrites.map fun write => Wal.pageRecord state.pager.wal.txnId write.1 write.2)
    [Wal.commitRecord state.pager.wal.txnId] calls bytes
  rw [List.length_map] at records
  unfold commit PagerIo.crashed
  rw [Exec.bind_ok (logged state bytes calls), Exec.bind_error stopped, if_pos (by omega),
    show 2 * state.commitWrites.length + calls - (2 * state.commitWrites.length + 3) = 0 by omega,
    stoppedWrites_none, txnRecords, records, List.append_assoc]
  rfl

/-- The process stops after the commit record was synced. -/
private theorem commit_crash_apply (calls : Nat) :
    (commit ⟨state.pager, state.disk,
        crashAt (2 * state.commitWrites.length + (calls + 3)) bytes⟩).2.disk =
      state.crashed (2 * state.commitWrites.length + (calls + 3)) bytes := by
  have sealed : PagerIo.onWal Wal.appendCommit ⟨state.pager, ⟨state.disk.db, state.disk.log ++
      PagerIo.pageRecords state.pager.wal.txnId state.commitWrites⟩, crashAt (calls + 3) bytes⟩ =
      (.ok (), ⟨⟨state.pager.fileLength, state.pager.pages, state.pager.dirty,
        ⟨(state.pager.wal.txnId + 1) % 2 ^ 64⟩, state.pager.inTransaction⟩,
        ⟨state.disk.db, state.disk.log ++
          PagerIo.pageRecords state.pager.wal.txnId state.commitWrites ++
          Wal.commitRecord state.pager.wal.txnId⟩, crashAt calls bytes⟩) := rfl
  generalize sealedPager : (⟨state.pager.fileLength, state.pager.pages, state.pager.dirty,
    ⟨(state.pager.wal.txnId + 1) % 2 ^ 64⟩, state.pager.inTransaction⟩ : Pager) = pager at sealed
  have writes (disk : Disk) (schedule : List IoOutcome) :
      PagerIo.dirtyPages ⟨pager, disk, schedule⟩ pageIndices = state.commitWrites := by
    rw [← sealedPager]
    rfl
  have records := @stoppedAppends_all (txnRecords state.pager.wal.txnId state.commitWrites)
    (2 * state.commitWrites.length + (calls + 3)) bytes (by rw [txnRecords_length]; omega)
  rw [txnRecords_flatten] at records
  generalize sealedLog : state.disk.log ++ PagerIo.pageRecords state.pager.wal.txnId
    state.commitWrites ++ Wal.commitRecord state.pager.wal.txnId = log at sealed
  unfold commit PagerIo.crashed
  rw [Exec.bind_ok (logged state bytes (calls + 3)), Exec.bind_ok sealed, records,
    ← List.append_assoc, sealedLog,
    show 2 * state.commitWrites.length + (calls + 3) - (2 * state.commitWrites.length + 3) =
      calls by omega]
  have looped := applyDirty_eq pageIndices PagerIo.nodup_pageIndices
    ⟨pager, ⟨state.disk.db, log⟩, crashAt calls bytes⟩
  rw [writes] at looped
  by_cases early : calls < 2 * state.commitWrites.length
  · -- inside the page writes
    obtain ⟨after, stopped⟩ := applyWrites_stop pager state.disk.db log bytes early
    rw [Exec.bind_error (looped.trans stopped), if_pos (by omega),
      ← stoppedWrites_log state.disk.db log state.disk.log]
  · -- after the page writes: flush, sync, truncate, seek
    obtain ⟨rest, rfl⟩ := Nat.exists_eq_add_of_le (Nat.le_of_not_lt early)
    obtain ⟨after, passed⟩ :=
      applyWrites_pass pager state.disk.db log state.commitWrites rest bytes
    rw [Exec.bind_ok (looped.trans passed), stoppedWrites_all _ _ _ (by omega),
      ← Disk.putAll_db state.disk.db log state.disk.log]
    match rest with
    | 0 | 1 | 2 =>
        rw [if_pos (by omega)]
        rfl
    | 3 =>
        rw [if_neg (by omega)]
        rfl
    | rest + 4 =>
        rw [if_neg (by omega)]
        rfl

/-- The files after a crash at any call of commit. -/
theorem commit_crash (calls : Nat) :
    (commit ⟨state.pager, state.disk, crashAt calls bytes⟩).2.disk =
      state.crashed calls bytes := by
  by_cases early : calls < 2 * state.commitWrites.length
  · exact commit_crash_log state bytes early
  · obtain ⟨rest, rfl⟩ := Nat.exists_eq_add_of_le (Nat.le_of_not_lt early)
    by_cases sealing : rest < 3
    · exact commit_crash_seal state bytes sealing
    · obtain ⟨last, rfl⟩ := Nat.exists_eq_add_of_le' (Nat.le_of_not_lt sealing)
      exact commit_crash_apply state bytes last

end Crashed

end Pager

end MukhiDb.Model
