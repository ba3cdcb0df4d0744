import MukhiDb.Pager.Reading
import MukhiDb.Pager.Transactions

/-!
Contract: commit, rollback and page programs under every pattern of I/O outcomes.

Owns: how many I/O calls a commit and a rollback make; the fact that they leave the
transaction exactly if all of these take effect; and the fact that page programs keep
the transaction state.

Does not own: what is in the files afterwards.
-/

namespace MukhiDb.Model

open MukhiDb.Foundation

namespace PagerIo

variable {state : PagerIo}

/-! ### Counting I/O calls -/

/-- The call makes `count` I/O calls. If all of them take effect, it succeeds and leads
to what `reached` says; else it fails and the transaction state stays. -/
structure Spends {α : Type} (call : Exec PagerIo α) (count : Nat) (reached : PagerIo → Prop)
    (state : PagerIo) : Prop where
  clear : Clear count state.schedule → ∃ value after, call state = (.ok value, after) ∧
    after.schedule = state.schedule.drop count ∧ reached after
  failed : ¬ Clear count state.schedule → ∃ fault after, call state = (.error fault, after) ∧
    after.pager.inTransaction = state.pager.inTransaction

theorem Spends.bind {α β : Type} {first : Exec PagerIo α} {next : α → Exec PagerIo β}
    {head tail : Nat} {middle reached : PagerIo → Prop} (spends : Spends first head middle state)
    (still : ∀ after, middle after → after.pager.inTransaction = state.pager.inTransaction)
    (continues : ∀ value after, middle after → Spends (next value) tail reached after) :
    Spends (first >>= next) (head + tail) reached state where
  clear := by
    intro clear
    obtain ⟨clearHead, clearTail⟩ := clear_add.mp clear
    obtain ⟨value, between, ran, schedule, held⟩ := spends.clear clearHead
    rw [← schedule] at clearTail
    obtain ⟨result, after, ended, last, done⟩ := (continues value between held).clear clearTail
    refine ⟨result, after, (Exec.bind_ok ran).trans ended, ?_, done⟩
    rw [last, schedule, List.drop_drop]
  failed := by
    intro failed
    by_cases clearHead : Clear head state.schedule
    · obtain ⟨value, between, ran, schedule, held⟩ := spends.clear clearHead
      have failedTail : ¬ Clear tail between.schedule := by
        rw [schedule]
        exact fun clearTail => failed (clear_add.mpr ⟨clearHead, clearTail⟩)
      obtain ⟨fault, after, ended, same⟩ := (continues value between held).failed failedTail
      exact ⟨fault, after, (Exec.bind_ok ran).trans ended, same.trans (still between held)⟩
    · obtain ⟨fault, after, ran, same⟩ := spends.failed clearHead
      exact ⟨fault, after, Exec.bind_error ran, same⟩

theorem Spends.mono {α : Type} {call : Exec PagerIo α} {count : Nat}
    {reached weaker : PagerIo → Prop} (spends : Spends call count reached state)
    (implies : ∀ after, reached after → weaker after) : Spends call count weaker state where
  clear := by
    intro clear
    obtain ⟨value, after, ran, schedule, held⟩ := spends.clear clear
    exact ⟨value, after, ran, schedule, implies after held⟩
  failed := spends.failed

/-- A step without I/O. -/
theorem spends_modify (change : PagerIo → PagerIo)
    (still : (change state).schedule = state.schedule) :
    Spends (Exec.modify change) 0 (fun after => after = change state) state where
  clear := fun _ => ⟨(), change state, rfl, still, rfl⟩
  failed := fun failed => absurd (clear_zero _) failed

theorem spends_pure {α : Type} (value : α) :
    Spends (pure value) 0 (fun after => after = state) state where
  clear := fun _ => ⟨value, state, rfl, rfl, rfl⟩
  failed := fun failed => absurd (clear_zero _) failed

/-- One call on the `.db` file. -/
theorem spends_onFile (describe : String → String) (partway : Nat → Bytes → Bytes)
    (whole : Bytes → Bytes) (state : PagerIo) :
    Spends (onFile (Medium.perform describe partway whole)) 1
      (fun after => after.pager = state.pager) state where
  clear := by
    intro clear
    have ran := @Medium.perform_clear describe partway whole ⟨state.disk.db, state.schedule⟩ clear
    unfold onFile
    rw [Exec.run_zoom, ran]
    exact ⟨_, _, rfl, rfl, rfl⟩
  failed := by
    intro failed
    obtain ⟨fault, after, ran⟩ :=
      @Medium.perform_failed describe partway whole ⟨state.disk.db, state.schedule⟩ failed
    unfold onFile
    rw [Exec.run_zoom, ran]
    exact ⟨_, _, rfl, rfl⟩

/-- One call on the log. -/
theorem spends_onLog (describe : String → String) (partway : Nat → Bytes → Bytes)
    (whole : Bytes → Bytes) (state : PagerIo) :
    Spends (onWal (Wal.onLog (Medium.perform describe partway whole))) 1
      (fun after => after.pager = state.pager) state where
  clear := by
    intro clear
    have ran := @Medium.perform_clear describe partway whole ⟨state.disk.log, state.schedule⟩ clear
    unfold onWal Wal.onLog
    rw [Exec.run_zoom, Exec.run_zoom, ran]
    exact ⟨_, _, rfl, rfl, rfl⟩
  failed := by
    intro failed
    obtain ⟨fault, after, ran⟩ :=
      @Medium.perform_failed describe partway whole ⟨state.disk.log, state.schedule⟩ failed
    unfold onWal Wal.onLog
    rw [Exec.run_zoom, Exec.run_zoom, ran]
    exact ⟨_, _, rfl, rfl⟩

theorem Spends.congr {α : Type} {call other : Exec PagerIo α} {count : Nat}
    {reached : PagerIo → Prop} (spends : Spends call count reached state)
    (same : other state = call state) : Spends other count reached state where
  clear := by
    rw [same]
    exact spends.clear
  failed := by
    rw [same]
    exact spends.failed

/-- Two parts that leave the pager alone. -/
theorem Spends.both {first second : Exec PagerIo Unit} {head tail : Nat}
    (left : Spends first head (fun after => after.pager = state.pager) state)
    (right : ∀ between, Spends second tail (fun after => after.pager = between.pager) between) :
    Spends (do first; second) (head + tail) (fun after => after.pager = state.pager) state := by
  apply left.bind
  · exact fun after same => by rw [same]
  · intro _ between same
    rw [← same]
    exact right between

/-- A step without I/O follows. -/
theorem Spends.andModify {call : Exec PagerIo Unit} {count : Nat}
    (spends : Spends call count (fun after => after.pager = state.pager) state)
    (change : PagerIo → PagerIo) (still : ∀ after, (change after).schedule = after.schedule) :
    Spends (do call; Exec.modify change) count
      (fun after => ∃ between, between.pager = state.pager ∧ after = change between) state := by
  rw [← Nat.add_zero count]
  apply spends.bind
  · exact fun after same => by rw [same]
  · intro _ between same
    refine (spends_modify change (still between)).mono ?_
    exact fun after changed => ⟨between, same, changed⟩

theorem onWal_bind {α β : Type} (first : Exec WalIo α) (next : α → Exec WalIo β) :
    onWal (first >>= next) = onWal first >>= fun value => onWal (next value) := by
  apply Exec.zoom_bind
  · exact fun _ _ => rfl
  · exact fun _ _ _ => rfl

theorem spends_appendPage (index : Nat) (page : Page) (state : PagerIo) :
    Spends (onWal (Wal.appendPage index page)) 2 (fun after => after.pager = state.pager) state := by
  have calls := (spends_onLog id (fun _ bytes => bytes) id state).both
    (spends_onLog id (fun count bytes => bytes ++
      (Wal.pageRecord state.pager.wal.txnId index page).take count)
      (fun bytes => bytes ++ Wal.pageRecord state.pager.wal.txnId index page))
  rw [← onWal_bind] at calls
  exact calls.congr rfl

theorem spends_truncate (state : PagerIo) :
    Spends (onWal Wal.truncate) 2 (fun after => after.pager = state.pager) state := by
  have calls := (spends_onLog id (fun _ bytes => bytes) (fun _ => []) state).both
    (spends_onLog id (fun _ bytes => bytes) id)
  rw [← onWal_bind] at calls
  exact calls.congr rfl

/-- The cache and the transaction state are the same. -/
structure SameCache (before after : PagerIo) : Prop where
  pages : after.pager.pages = before.pager.pages
  dirty : after.pager.dirty = before.pager.dirty
  inTransaction : after.pager.inTransaction = before.pager.inTransaction

theorem SameCache.of_pager {before after : PagerIo} (same : after.pager = before.pager) :
    SameCache before after := by
  refine ⟨?_, ?_, ?_⟩ <;> rw [same]

theorem SameCache.trans {first second third : PagerIo} (left : SameCache first second)
    (right : SameCache second third) : SameCache first third :=
  ⟨right.pages.trans left.pages, right.dirty.trans left.dirty,
    right.inTransaction.trans left.inTransaction⟩

theorem SameCache.dirtyPages {before after : PagerIo} (same : SameCache before after)
    (indices : List Nat) : after.dirtyPages indices = before.dirtyPages indices :=
  dirtyPages_congr fun index _ => ⟨congrFun same.dirty index, congrFun same.pages index⟩

theorem spends_appendCommit (state : PagerIo) :
    Spends (onWal Wal.appendCommit) 3 (SameCache state) state := by
  have sought := spends_onLog id (fun _ bytes => bytes) id state
  have appended := spends_onLog id (fun count bytes => bytes ++
    (Wal.commitRecord state.pager.wal.txnId).take count)
    (fun bytes => bytes ++ Wal.commitRecord state.pager.wal.txnId)
  have synced := spends_onLog id (fun _ bytes => bytes) id
  -- three calls, then the id that the next transaction gets
  have calls := ((sought.both appended).both synced).andModify PagerIo.nextTxn fun _ => rfl
  have unfolded : onWal Wal.appendCommit state = onWal (do
      Wal.onLog Medium.touch
      Wal.onLog (Medium.append (Wal.commitRecord state.pager.wal.txnId))
      Wal.onLog Medium.touch
      Exec.modify fun wal => { wal with wal := ⟨(wal.wal.txnId + 1) % 2 ^ 64⟩ }) state := rfl
  refine (calls.mono ?_).congr ?_
  · rintro after ⟨between, same, rfl⟩
    have cache := SameCache.of_pager same
    exact ⟨cache.pages, cache.dirty, cache.inTransaction⟩
  · rw [unfolded]
    simp only [onWal_bind, bind_assoc]
    rfl

theorem spends_logDirty (indices : List Nat) (state : PagerIo) :
    Spends (Pager.logDirty indices) (2 * (state.dirtyPages indices).length)
      (fun after => after.pager = state.pager) state := by
  induction indices generalizing state with
  | nil => exact (spends_pure ()).mono fun after same => by rw [same]
  | cons index rest inductionHypothesis =>
      rw [dirtyPages_cons]
      by_cases dirty : state.pager.dirty index = true
      · rw [if_pos dirty]
        rcases cached : state.pager.pages index with _ | page
        · refine (inductionHypothesis state).congr ?_
          rw [Pager.logDirty, Exec.bind_ok (Exec.run_get state), if_pos dirty, cached]
        · have appended := (spends_appendPage index page state).bind
            (fun after same => by rw [same]) fun _ between same => by
              have next := inductionHypothesis between
              rw [(SameCache.of_pager same).dirtyPages, same] at next
              exact next
          have count : 2 + 2 * (state.dirtyPages rest).length =
              2 * ((some (index, page)).toList ++ state.dirtyPages rest).length := by
            simp
            omega
          rw [count] at appended
          refine appended.congr ?_
          rw [Pager.logDirty, Exec.bind_ok (Exec.run_get state), if_pos dirty, cached]
      · rw [if_neg dirty]
        refine (inductionHypothesis state).congr ?_
        rw [Pager.logDirty, Exec.bind_ok (Exec.run_get state), if_neg dirty]

/-- Writing a page to the file: a seek and a write. -/
theorem spends_writePage (index : Nat) (page : Page) (state : PagerIo) :
    Spends (do
      onFile Medium.touch
      onFile (Medium.writeAt (index * pageSize) page.bytes)
      Exec.modify (Pager.markClean index)) 2
      (fun after => ∃ between, between.pager = state.pager ∧
        after = Pager.markClean index between) state := by
  have calls := ((spends_onFile id (fun _ bytes => bytes) id state).both (spends_onFile id
    (fun count bytes => overwrite bytes (index * pageSize) (page.bytes.take count))
    (fun bytes => overwrite bytes (index * pageSize) page.bytes))).andModify
    (Pager.markClean index) fun _ => rfl
  rw [bind_assoc] at calls
  exact calls

theorem spends_applyDirty (indices : List Nat) (distinct : indices.Nodup) (state : PagerIo) :
    Spends (Pager.applyDirty indices) (2 * (state.dirtyPages indices).length)
      (fun after => after.pager.inTransaction = state.pager.inTransaction) state := by
  induction indices generalizing state with
  | nil => exact (spends_pure ()).mono fun after same => by rw [same]
  | cons index rest inductionHypothesis =>
      obtain ⟨fresh, distinct⟩ := List.nodup_cons.mp distinct
      rw [dirtyPages_cons]
      by_cases dirty : state.pager.dirty index = true
      · rw [if_pos dirty]
        rcases cached : state.pager.pages index with _ | page
        · refine (inductionHypothesis distinct state).congr ?_
          rw [Pager.applyDirty, Exec.bind_ok (Exec.run_get state), if_pos dirty, cached]
        · have written : Spends (do
              (do
                onFile Medium.touch
                onFile (Medium.writeAt (index * pageSize) page.bytes)
                Exec.modify (Pager.markClean index))
              Pager.applyDirty rest) (2 + 2 * (state.dirtyPages rest).length)
              (fun after => after.pager.inTransaction = state.pager.inTransaction) state := by
            apply (spends_writePage index page state).bind
            · rintro after ⟨between, same, rfl⟩
              exact (SameCache.of_pager same).inTransaction
            · rintro _ after ⟨between, same, rfl⟩
              have others : (Pager.markClean index between).dirtyPages rest =
                  state.dirtyPages rest := by
                apply dirtyPages_congr
                intro other member
                have different : other ≠ index := fun same => fresh (same ▸ member)
                simp [Pager.markClean, different, same]
              rw [← others, ← (SameCache.of_pager same).inTransaction]
              exact inductionHypothesis distinct _
          have count : 2 + 2 * (state.dirtyPages rest).length =
              2 * ((some (index, page)).toList ++ state.dirtyPages rest).length := by
            simp
            omega
          rw [count] at written
          refine written.congr ?_
          rw [Pager.applyDirty, Exec.bind_ok (Exec.run_get state), if_pos dirty, cached]
          simp only [bind_assoc]
      · rw [if_neg dirty]
        refine (inductionHypothesis distinct state).congr ?_
        rw [Pager.applyDirty, Exec.bind_ok (Exec.run_get state), if_neg dirty]

/-! ### Commit and rollback -/

/-- The I/O calls of a commit. -/
def commitCalls (state : PagerIo) : Nat := 4 * (state.dirtyPages pageIndices).length + 7

/-- A commit leaves the transaction exactly if its I/O calls take effect. -/
theorem spends_commit (state : PagerIo) :
    Spends Pager.commit state.commitCalls (fun after => after.pager.inTransaction = false)
      state := by
  have ending (start : PagerIo) : Spends (do
      onFile Medium.touch
      onFile Medium.touch
      onWal Wal.truncate
      Exec.modify Pager.endTransaction) 4 (fun after => after.pager.inTransaction = false)
      start := by
    have calls := (((spends_onFile id (fun _ bytes => bytes) id start).both
      (spends_onFile id (fun _ bytes => bytes) id)).both spends_truncate).andModify
      Pager.endTransaction fun _ => rfl
    simp only [bind_assoc] at calls
    refine calls.mono ?_
    rintro after ⟨between, -, rfl⟩
    rfl
  have applying (start : PagerIo) (same : SameCache state start) : Spends (do
      Pager.applyDirty pageIndices
      onFile Medium.touch
      onFile Medium.touch
      onWal Wal.truncate
      Exec.modify Pager.endTransaction) (2 * (state.dirtyPages pageIndices).length + 4)
      (fun after => after.pager.inTransaction = false) start := by
    rw [← same.dirtyPages]
    exact (spends_applyDirty pageIndices nodup_pageIndices start).bind (fun _ kept => kept)
      fun _ after _ => ending after
  have sealing (start : PagerIo) (same : start.pager = state.pager) : Spends (do
      onWal Wal.appendCommit
      Pager.applyDirty pageIndices
      onFile Medium.touch
      onFile Medium.touch
      onWal Wal.truncate
      Exec.modify Pager.endTransaction) (3 + (2 * (state.dirtyPages pageIndices).length + 4))
      (fun after => after.pager.inTransaction = false) start := by
    apply (spends_appendCommit start).bind
    · exact fun after cache => cache.inTransaction
    · exact fun _ after cache => applying after ((SameCache.of_pager same).trans cache)
  have calls := (spends_logDirty pageIndices state).bind (fun after same => by rw [same])
    fun _ after same => sealing after same
  have count : 2 * (state.dirtyPages pageIndices).length +
      (3 + (2 * (state.dirtyPages pageIndices).length + 4)) = state.commitCalls := by
    unfold commitCalls
    omega
  rw [count] at calls
  exact calls

/-- A rollback whose first three I/O calls take effect. -/
theorem rollback_clear (clear : Clear 3 state.schedule) :
    Pager.rollback state =
      (.ok (), ⟨state.rolledBack.pager, state.rolledBack.disk, state.schedule.drop 3⟩) := by
  obtain ⟨pager, disk, schedule⟩ := state
  rcases clear_succ.mp clear with rfl | ⟨rest, rfl, clearTwo⟩
  · rfl
  · rcases clear_succ.mp clearTwo with rfl | ⟨rest, rfl, clearOne⟩
    · rfl
    · rcases clear_succ.mp clearOne with rfl | ⟨rest, rfl, -⟩
      · rfl
      · rfl

/-- A rollback that fails stays in the transaction, and no rollback writes to the `.db` file. -/
theorem rollback_failed (failed : ¬ Clear 3 state.schedule) :
    ∃ fault after, Pager.rollback state = (.error fault, after) ∧
      after.pager.inTransaction = state.pager.inTransaction ∧ after.disk.db = state.disk.db := by
  obtain ⟨pager, disk, schedule⟩ := state
  obtain ⟨outcome, rest, rfl, failedTwo⟩ := not_clear_succ.mp failed
  cases outcome with
  | failed message bytes => exact ⟨_, _, rfl, rfl, rfl⟩
  | stopped bytes => exact ⟨_, _, rfl, rfl, rfl⟩
  | done =>
      obtain ⟨outcome, rest, rfl, failedOne⟩ := not_clear_succ.mp (failedTwo rfl)
      cases outcome with
      | failed message bytes => exact ⟨_, _, rfl, rfl, rfl⟩
      | stopped bytes => exact ⟨_, _, rfl, rfl, rfl⟩
      | done =>
          obtain ⟨outcome, rest, rfl, failedZero⟩ := not_clear_succ.mp (failedOne rfl)
          cases outcome with
          | failed message bytes => exact ⟨_, _, rfl, rfl, rfl⟩
          | stopped bytes => exact ⟨_, _, rfl, rfl, rfl⟩
          | done => exact absurd (clear_zero rest) (failedZero rfl)

/-! ### Loading -/

/-- The I/O calls of a load: a seek and a read if the page is not cached and in the file. -/
def loadCalls (state : PagerIo) (index : Nat) : Nat :=
  if state.pager.pages index = none ∧ (index + 1) * pageSize ≤ state.pager.fileLength then 2 else 0

/-- A load whose I/O calls take effect answers as if all did. -/
theorem loadPage_clear {index : Nat} (below : ¬ maxPages ≤ index)
    (clear : Clear (state.loadCalls index) state.schedule) :
    (Pager.loadPage index state).1 = state.reads index ∧
      (Pager.loadPage index state).2.schedule = state.schedule.drop (state.loadCalls index) := by
  unfold Pager.loadPage
  rw [if_neg below, Exec.bind_ok (Exec.run_get state)]
  rcases cached : state.pager.pages index with _ | page
  · have fetched : Pager.fetch index state = (state.stored index,
        ⟨state.pager, state.disk, state.schedule.drop (state.loadCalls index)⟩) := by
      by_cases within : (index + 1) * pageSize ≤ state.pager.fileLength
      · have calls : state.loadCalls index = 2 := if_pos ⟨cached, within⟩
        rw [calls] at clear ⊢
        obtain ⟨pager, disk, schedule⟩ := state
        rcases clear_succ.mp clear with rfl | ⟨rest, rfl, clearOne⟩
        · exact fetch_within within rfl rfl
        · rcases clear_succ.mp clearOne with rfl | ⟨rest, rfl, -⟩
          · exact fetch_within within rfl rfl
          · exact fetch_within within rfl rfl
      · have calls : state.loadCalls index = 0 := if_neg fun both => within both.2
        rw [calls]
        exact fetch_past within
    rw [reads_missing below cached]
    dsimp only
    rcases stored : state.stored index with fault | page
    · rw [stored] at fetched
      rw [Exec.bind_error fetched]
      exact ⟨rfl, rfl⟩
    · rw [stored] at fetched
      rw [Exec.bind_ok fetched]
      exact ⟨rfl, rfl⟩
  · have calls : state.loadCalls index = 0 := if_neg fun both => by
      rw [cached] at both
      cases both.1
    rw [reads_cached below cached, calls]
    exact ⟨rfl, rfl⟩

/-- A load fails if one of its I/O calls does. -/
theorem loadPage_failed {index : Nat} (failed : ¬ Clear (state.loadCalls index) state.schedule) :
    ∃ fault, (Pager.loadPage index state).1 = .error fault := by
  have reads : state.pager.pages index = none ∧ (index + 1) * pageSize ≤ state.pager.fileLength := by
    by_contra cached
    have calls : state.loadCalls index = 0 := if_neg cached
    rw [calls] at failed
    exact failed (clear_zero _)
  have calls : state.loadCalls index = 2 := if_pos reads
  rw [calls] at failed
  unfold Pager.loadPage
  split
  · exact ⟨_, rfl⟩
  · rw [Exec.bind_ok (Exec.run_get state), reads.1]
    dsimp only
    have fetched : ∃ fault, (Pager.fetch index state).1 = .error fault := by
      unfold Pager.fetch
      rw [Exec.bind_ok (Exec.run_get state), if_pos reads.2]
      obtain ⟨pager, disk, schedule⟩ := state
      obtain ⟨outcome, rest, rfl, failedOne⟩ := not_clear_succ.mp failed
      cases outcome with
      | failed message bytes => exact ⟨_, rfl⟩
      | stopped bytes => exact ⟨_, rfl⟩
      | done =>
          obtain ⟨outcome, rest, rfl, failedZero⟩ := not_clear_succ.mp (failedOne rfl)
          cases outcome with
          | failed message bytes => exact ⟨_, rfl⟩
          | stopped bytes => exact ⟨_, rfl⟩
          | done => exact absurd (clear_zero rest) (failedZero rfl)
    obtain ⟨fault, fetched⟩ := fetched
    rcases ran : Pager.fetch index state with ⟨result, after⟩
    rw [ran] at fetched
    obtain rfl : result = .error fault := fetched
    rw [Exec.bind_error ran]
    exact ⟨fault, rfl⟩

/-! ### Page programs -/

/-- The transaction state is the same, and successful I/O stays so. -/
structure Calm (before after : PagerIo) : Prop where
  inTransaction : after.pager.inTransaction = before.pager.inTransaction
  quiet : before.Quiet → after.Quiet

theorem Calm.refl (state : PagerIo) : Calm state state := ⟨rfl, id⟩

theorem Calm.trans {first second third : PagerIo} (left : Calm first second)
    (right : Calm second third) : Calm first third :=
  ⟨right.inTransaction.trans left.inTransaction, fun quiet => right.quiet (left.quiet quiet)⟩

theorem Calm.bind {α β : Type} {first : Exec PagerIo α} {next : α → Exec PagerIo β}
    (head : Exec.Preserves Calm first) (tail : ∀ value, Exec.Preserves Calm (next value)) :
    Exec.Preserves Calm (first >>= next) :=
  Exec.Preserves.bind (fun left right => left.trans right) head tail

theorem loadPage_calm (index : Nat) : Exec.Preserves Calm (Pager.loadPage index) := by
  intro state
  refine ⟨(loadPage_filled index state).inTransaction, fun quiet => ?_⟩
  rw [loadPage_quiet quiet]
  exact loaded_quiet quiet index

theorem getPageMut_calm (index : Nat) : Exec.Preserves Calm (Pager.getPageMut index) := by
  apply Calm.bind (loadPage_calm index)
  intro page
  exact Calm.bind (fun _ => ⟨rfl, id⟩) fun _ state => Calm.refl state

theorem modifyPage_calm (index : Nat) (change : Page → Except Fault Page) :
    Exec.Preserves Calm (Pager.modifyPage index change) := by
  apply Calm.bind (getPageMut_calm index)
  intro page
  exact Calm.bind (fun state => Calm.refl state) fun _ _ => ⟨rfl, id⟩

theorem allocatePage_calm : Exec.Preserves Calm Pager.allocatePage := by
  apply Calm.bind fun state => Calm.refl state
  intro state
  exact Calm.bind (getPageMut_calm _) fun _ state => Calm.refl state

/-- Every page program keeps the transaction state, and successful I/O. -/
theorem perform_calm {α : Type} (program : PageProgram α) :
    Exec.Preserves Calm (Pager.perform program) :=
  Program.preserves Calm.refl (fun left right => left.trans right) loadPage_calm
    modifyPage_calm allocatePage_calm program

end PagerIo

end MukhiDb.Model
