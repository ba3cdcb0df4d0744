import Mathlib.Data.List.Basic
import MukhiDb.Pager.Access
import MukhiDb.Pager.DiskPages

/-!
Contract: begin, commit and rollback when every I/O call succeeds.

Owns: begin is refused inside a transaction; commit makes the `.db` file read as
the working pages, empties the log and leaves no dirty page; rollback makes the
working pages read as the `.db` file.

Does not own: crashes, failed calls, and opening.
-/

namespace MukhiDb.Model

open MukhiDb.Foundation

namespace PagerIo

variable {state : PagerIo}

/-! ### The dirty pages -/

theorem mem_pageIndices {index : Nat} : index ∈ pageIndices ↔ index < maxPages := by
  unfold pageIndices
  exact List.mem_range

theorem nodup_pageIndices : pageIndices.Nodup := by
  unfold pageIndices
  exact List.nodup_range

/-- The dirty cached pages among `indices`, in that order. -/
def dirtyPages (state : PagerIo) (indices : List Nat) : List (Nat × Page) :=
  indices.filterMap fun index =>
    if state.pager.dirty index then (state.pager.pages index).map fun page => (index, page)
    else none

/-- The log records of a list of page writes. -/
def pageRecords (txnId : Nat) (writes : List (Nat × Page)) : Bytes :=
  writes.flatMap fun write => Wal.pageRecord txnId write.1 write.2

theorem mem_dirtyPages {indices : List Nat} {write : Nat × Page} :
    write ∈ state.dirtyPages indices ↔
      write.1 ∈ indices ∧ state.pager.dirty write.1 = true ∧
        state.pager.pages write.1 = some write.2 := by
  obtain ⟨index, page⟩ := write
  simp only [dirtyPages, List.mem_filterMap]
  constructor
  · rintro ⟨other, member, found⟩
    split at found
    · next dirty =>
        simp only [Option.map_eq_some_iff, Prod.mk.injEq] at found
        obtain ⟨cachedPage, cached, rfl, rfl⟩ := found
        exact ⟨member, dirty, cached⟩
    · contradiction
  · rintro ⟨member, dirty, cached⟩
    exact ⟨index, member, by rw [if_pos dirty, cached]; rfl⟩

theorem dirtyPages_cons (state : PagerIo) (index : Nat) (rest : List Nat) :
    state.dirtyPages (index :: rest) =
      (if state.pager.dirty index then
        ((state.pager.pages index).map fun page => (index, page)).toList else []) ++
        state.dirtyPages rest := by
  unfold dirtyPages
  rw [List.filterMap_cons]
  by_cases dirty : state.pager.dirty index = true
  · cases cached : state.pager.pages index <;> simp [dirty]
  · simp [dirty]

/-- Writing the dirty pages of `indices` to the file makes these pages read as
the cache. -/
theorem page_putAll_dirtyPages {disk : Disk} (aligned : disk.Aligned) (indices : List Nat)
    (index : Nat) :
    (disk.putAll (state.dirtyPages indices)).page index =
      if index ∈ indices ∧ state.pager.dirty index = true then
        (state.pager.pages index).getD (disk.page index)
      else disk.page index := by
  induction indices generalizing disk with
  | nil => simp [dirtyPages, Disk.putAll]
  | cons head rest inductionHypothesis =>
      rw [dirtyPages_cons]
      by_cases dirty : state.pager.dirty head = true
      · cases cached : state.pager.pages head with
        | none =>
            rw [if_pos dirty, Option.map_none, Option.toList_none, List.nil_append,
              inductionHypothesis aligned]
            by_cases same : index = head
            · subst same
              simp [cached, dirty]
            · simp [same]
        | some page =>
            rw [if_pos dirty, Option.map_some, Option.toList_some, List.cons_append,
              List.nil_append, Disk.putAll_cons, inductionHypothesis (aligned.put _ _),
              aligned.page_put]
            by_cases same : index = head
            · subst same
              simp [cached, dirty]
            · simp [same]
      · rw [if_neg dirty, List.nil_append, inductionHypothesis aligned]
        by_cases same : index = head
        · subst same
          simp [dirty]
        · simp [same]

/-! ### Begin -/

theorem begin_busy (busy : state.pager.inTransaction = true) :
    Pager.begin state = (.error (.error "Already in a transaction."), state) := by
  unfold Pager.begin
  rw [Exec.bind_ok (Exec.run_get state), if_pos busy]
  rfl

theorem begin_ok (idle : state.pager.inTransaction = false) :
    Pager.begin state =
      (.ok (), { state with pager := { state.pager with inTransaction := true } }) := by
  unfold Pager.begin
  rw [Exec.bind_ok (Exec.run_get state), if_neg (by simp [idle])]
  rfl

/-! ### Commit -/

/-- The state with another log. -/
def setLog (log : Bytes) (state : PagerIo) : PagerIo :=
  ⟨state.pager, ⟨state.disk.db, log⟩, state.schedule⟩

/-- The state after the next transaction id was taken. -/
def nextTxn (state : PagerIo) : PagerIo :=
  ⟨⟨state.pager.fileLength, state.pager.pages, state.pager.dirty,
    ⟨(state.pager.wal.txnId + 1) % 2 ^ 64⟩, state.pager.inTransaction⟩, state.disk, state.schedule⟩

/-- The dirty bits after the cached pages of `indices` were written. -/
def dirtyAfter (state : PagerIo) (indices : List Nat) (index : Nat) : Bool :=
  state.pager.dirty index && !(decide (index ∈ indices) && (state.pager.pages index).isSome)

/-- The state after the dirty pages of `indices` were written to the file. -/
def applied (state : PagerIo) (indices : List Nat) : PagerIo :=
  ⟨⟨state.pager.fileLength, state.pager.pages, state.dirtyAfter indices, state.pager.wal,
    state.pager.inTransaction⟩, state.disk.putAll (state.dirtyPages indices), state.schedule⟩

theorem onWal_appendPage (quiet : state.Quiet) (index : Nat) (page : Page) :
    onWal (Wal.appendPage index page) state =
      (.ok (), state.setLog (state.disk.log ++ Wal.pageRecord state.pager.wal.txnId index page)) := by
  obtain ⟨pager, disk, schedule⟩ := state
  obtain rfl : schedule = [] := quiet
  rfl

theorem onWal_appendCommit (quiet : state.Quiet) :
    onWal Wal.appendCommit state =
      (.ok (), (state.setLog (state.disk.log ++ Wal.commitRecord state.pager.wal.txnId)).nextTxn) := by
  obtain ⟨pager, disk, schedule⟩ := state
  obtain rfl : schedule = [] := quiet
  rfl

theorem onWal_truncate (quiet : state.Quiet) :
    onWal Wal.truncate state = (.ok (), state.setLog []) := by
  obtain ⟨pager, disk, schedule⟩ := state
  obtain rfl : schedule = [] := quiet
  rfl

theorem dirtyPages_setLog (log : Bytes) (indices : List Nat) :
    (state.setLog log).dirtyPages indices = state.dirtyPages indices := rfl

theorem logDirty_ok (quiet : state.Quiet) (indices : List Nat) :
    Pager.logDirty indices state =
      (.ok (), state.setLog
        (state.disk.log ++ pageRecords state.pager.wal.txnId (state.dirtyPages indices))) := by
  induction indices generalizing state with
  | nil => simp [Pager.logDirty, pageRecords, dirtyPages, setLog]
  | cons index rest inductionHypothesis =>
      unfold Pager.logDirty
      rw [Exec.bind_ok (Exec.run_get state), dirtyPages_cons]
      by_cases dirty : state.pager.dirty index = true
      · rw [if_pos dirty, if_pos dirty]
        cases cached : state.pager.pages index with
        | none => exact inductionHypothesis quiet
        | some page =>
            refine (Exec.bind_ok (onWal_appendPage quiet index page)).trans ?_
            refine (@inductionHypothesis (state.setLog
              (state.disk.log ++ Wal.pageRecord state.pager.wal.txnId index page)) quiet).trans ?_
            rw [dirtyPages_setLog]
            simp [pageRecords, setLog]
      · rw [if_neg dirty, if_neg dirty]
        exact inductionHypothesis quiet

/-- The dirty pages of `indices` depend only on these entries. -/
theorem dirtyPages_congr {other : PagerIo} {indices : List Nat}
    (same : ∀ index ∈ indices, other.pager.dirty index = state.pager.dirty index ∧
      other.pager.pages index = state.pager.pages index) :
    other.dirtyPages indices = state.dirtyPages indices := by
  unfold dirtyPages
  refine List.filterMap_congr fun index member => ?_
  rw [(same index member).1, (same index member).2]

/-- An entry that is clean or empty is passed over. -/
private theorem applied_skip {index : Nat} {rest : List Nat}
    (idle : state.pager.dirty index = true → state.pager.pages index = none) :
    state.applied (index :: rest) = state.applied rest := by
  have bits : state.dirtyAfter (index :: rest) = state.dirtyAfter rest := by
    funext other
    by_cases same : other = index
    · subst same
      by_cases dirty : state.pager.dirty other = true
      · simp [dirtyAfter, idle dirty]
      · simp [dirtyAfter, dirty]
    · simp [dirtyAfter, same]
  have pages : state.dirtyPages (index :: rest) = state.dirtyPages rest := by
    rw [dirtyPages_cons]
    by_cases dirty : state.pager.dirty index = true
    · simp [dirty, idle dirty]
    · simp [dirty]
  unfold applied
  rw [bits, pages]

/-- A dirty cached entry is written and marked clean. -/
private theorem applied_write {index : Nat} {rest : List Nat} {page : Page}
    (fresh : index ∉ rest) (dirty : state.pager.dirty index = true)
    (cached : state.pager.pages index = some page) :
    (Pager.markClean index
      ⟨state.pager, state.disk.put index page, state.schedule⟩).applied rest =
      state.applied (index :: rest) := by
  have pages : (Pager.markClean index
      ⟨state.pager, state.disk.put index page, state.schedule⟩).dirtyPages rest =
      state.dirtyPages rest := by
    apply dirtyPages_congr
    intro other member
    have different : other ≠ index := fun same => fresh (same ▸ member)
    exact ⟨by simp [Pager.markClean, different], rfl⟩
  have bits : (Pager.markClean index
      ⟨state.pager, state.disk.put index page, state.schedule⟩).dirtyAfter rest =
      state.dirtyAfter (index :: rest) := by
    funext other
    by_cases same : other = index
    · subst same
      simp [dirtyAfter, Pager.markClean, cached]
    · simp [dirtyAfter, Pager.markClean, same]
  unfold applied
  rw [pages, bits, dirtyPages_cons, if_pos dirty, cached]
  rfl

theorem applyDirty_ok (quiet : state.Quiet) (indices : List Nat) (distinct : indices.Nodup) :
    Pager.applyDirty indices state = (.ok (), state.applied indices) := by
  induction indices generalizing state with
  | nil =>
      have bits : state.dirtyAfter [] = state.pager.dirty := by
        funext index
        simp [dirtyAfter]
      simp [Pager.applyDirty, applied, bits, dirtyPages, Disk.putAll]
  | cons index rest inductionHypothesis =>
      obtain ⟨fresh, distinct⟩ := List.nodup_cons.mp distinct
      unfold Pager.applyDirty
      rw [Exec.bind_ok (Exec.run_get state)]
      by_cases dirty : state.pager.dirty index = true
      · rw [if_pos dirty]
        cases cached : state.pager.pages index with
        | none =>
            refine (inductionHypothesis quiet distinct).trans ?_
            rw [applied_skip fun _ => cached]
        | some page =>
            have written := onFile_writeAt quiet (index * pageSize) page.bytes
            refine (Exec.bind_ok (onFile_touch quiet)).trans ?_
            refine (Exec.bind_ok written).trans ?_
            refine (Exec.bind_ok (Exec.run_modify _ _)).trans ?_
            refine (@inductionHypothesis (Pager.markClean index
              ⟨state.pager, state.disk.put index page, state.schedule⟩) quiet distinct).trans ?_
            rw [applied_write fresh dirty cached]
      · rw [if_neg dirty]
        refine (inductionHypothesis quiet distinct).trans ?_
        rw [applied_skip fun dirty' => absurd dirty' dirty]

/-- The state that a successful commit reaches. -/
def committed (state : PagerIo) : PagerIo :=
  ⟨⟨state.pager.fileLength, state.pager.pages, state.dirtyAfter pageIndices,
    ⟨(state.pager.wal.txnId + 1) % 2 ^ 64⟩, false⟩,
    ⟨(state.disk.putAll (state.dirtyPages pageIndices)).db, []⟩, state.schedule⟩

theorem commit_ok (quiet : state.Quiet) :
    Pager.commit state = (.ok (), state.committed) := by
  have logged := logDirty_ok quiet pageIndices
  generalize state.disk.log ++ pageRecords state.pager.wal.txnId
    (state.dirtyPages pageIndices) = log at logged
  have sealed := @onWal_appendCommit (state.setLog log) quiet
  generalize (state.setLog log).disk.log ++ Wal.commitRecord (state.setLog log).pager.wal.txnId =
    sealedLog at sealed
  have quiet' : ((state.setLog log).setLog sealedLog).nextTxn.Quiet := quiet
  have wrote := applyDirty_ok quiet' pageIndices nodup_pageIndices
  unfold Pager.commit
  rw [Exec.bind_ok logged, Exec.bind_ok sealed, Exec.bind_ok wrote]
  generalize after : ((state.setLog log).setLog sealedLog).nextTxn.applied pageIndices = wroteTo
  have quiet'' : wroteTo.Quiet := by
    rw [← after]
    exact quiet
  rw [Exec.bind_ok (onFile_touch quiet''), Exec.bind_ok (onFile_touch quiet''),
    Exec.bind_ok (onWal_truncate quiet''), Exec.run_modify, ← after]
  have file := Disk.putAll_db state.disk.db sealedLog state.disk.log (state.dirtyPages pageIndices)
  unfold committed
  rw [← file]
  rfl

theorem committed_count (state : PagerIo) : state.committed.count = state.count := rfl

theorem Consistent.aligned (consistent : state.Consistent) : state.disk.Aligned :=
  consistent.fileAligned

theorem Consistent.dirtyAfter_all (consistent : state.Consistent) (index : Nat) :
    state.dirtyAfter pageIndices index = false := by
  by_cases dirty : state.pager.dirty index = true
  · have below := (consistent.dirtyBelow index dirty).2
    have cached := consistent.dirtyCached index dirty
    simp [dirtyAfter, mem_pageIndices, below, Option.isSome_iff_ne_none.mpr cached]
  · simp [dirtyAfter, dirty]

/-- After a commit the file reads as the working pages did. -/
theorem Consistent.committed_page (consistent : state.Consistent) :
    state.committed.disk.page = state.view := by
  funext index
  have written : state.committed.disk.page index =
      (state.disk.putAll (state.dirtyPages pageIndices)).page index := rfl
  rw [written, page_putAll_dirtyPages consistent.aligned]
  by_cases dirty : state.pager.dirty index = true
  · rw [if_pos ⟨mem_pageIndices.mpr (consistent.dirtyBelow index dirty).2, dirty⟩]
    rfl
  · rw [if_neg (fun both => dirty both.2), view]
    cases cached : state.pager.pages index with
    | none => rfl
    | some page =>
        rw [Option.getD_some, consistent.clean index page cached (by simpa using dirty)]

theorem Consistent.committed_view (consistent : state.Consistent) :
    state.committed.view = state.view := by
  funext index
  unfold view
  rw [consistent.committed_page]
  change (state.pager.pages index).getD (state.view index) = _
  unfold view
  cases state.pager.pages index <;> rfl

theorem Consistent.committed_aligned (consistent : state.Consistent) :
    state.committed.disk.Aligned :=
  consistent.aligned.putAll (state.dirtyPages pageIndices)

/-- A commit extends the file at most to `file_length`. -/
theorem Consistent.committed_longer (consistent : state.Consistent) :
    state.committed.disk.db.length ≤ state.pager.fileLength := by
  have counted : state.committed.disk.pageCount ≤ state.count := by
    refine (consistent.aligned.pageCount_putAll_le (state.dirtyPages pageIndices) _).mpr
      ⟨Nat.div_le_div_right consistent.longer, fun write member => ?_⟩
    exact (consistent.dirtyBelow _ (mem_dirtyPages.mp member).2.1).1
  rw [consistent.committed_aligned.length_eq]
  exact (Nat.mul_le_mul_right _ counted).trans (Nat.div_mul_le_self _ _)

section Committed

variable (coherent : state.Coherent)

include coherent

/-- After a commit the file has as many pages as the working map. -/
theorem Coherent.committed_pageCount : state.committed.disk.pageCount = state.count := by
  refine eq_of_forall_ge_iff fun bound => ?_
  have counted := coherent.consistent.aligned.pageCount_putAll_le
    (state.dirtyPages pageIndices) bound
  refine counted.trans ⟨fun both => ?_, fun small => ?_⟩
  · by_contra large
    have grown : state.disk.pageCount < state.count := by omega
    have dirty := coherent.lastDirty grown
    obtain ⟨page, cached⟩ := Option.ne_none_iff_exists'.mp (coherent.dirtyCached _ dirty)
    have below := both.2 (state.count - 1, page) (mem_dirtyPages.mpr
      ⟨mem_pageIndices.mpr (coherent.dirtyBelow _ dirty).2, dirty, cached⟩)
    dsimp only at below
    omega
  · refine ⟨coherent.pageCount_le.trans small, fun write member => ?_⟩
    have dirty := (mem_dirtyPages.mp member).2.1
    exact lt_of_lt_of_le (coherent.dirtyBelow _ dirty).1 small

theorem Coherent.committed_fileLength :
    state.committed.disk.db.length = state.committed.pager.fileLength := by
  rw [coherent.consistent.committed_aligned.length_eq, coherent.committed_pageCount]
  exact coherent.fileLength_eq.symm

theorem Coherent.committed_coherent : state.committed.Coherent where
  fileAligned := coherent.consistent.committed_aligned
  lengthAligned := coherent.lengthAligned
  longer := coherent.committed_fileLength.le
  clean := by
    intro index page cached _
    rw [coherent.consistent.committed_page, view]
    have cached' : state.pager.pages index = some page := cached
    rw [cached', Option.getD_some]
  dirtyCached := by
    intro index dirty
    have clean := coherent.consistent.dirtyAfter_all index
    exact absurd (clean.symm.trans dirty) (by decide)
  dirtyBelow := by
    intro index dirty
    have clean := coherent.consistent.dirtyAfter_all index
    exact absurd (clean.symm.trans dirty) (by decide)
  lastDirty := by
    intro grown
    rw [coherent.committed_pageCount, committed_count] at grown
    omega

end Committed

/-! ### Rollback -/

/-- The state that a successful rollback reaches. -/
def rolledBack (state : PagerIo) : PagerIo :=
  ⟨⟨state.disk.db.length,
    fun index => if state.pager.dirty index then none else state.pager.pages index,
    fun _ => false, state.pager.wal, false⟩, ⟨state.disk.db, []⟩, state.schedule⟩

theorem rollback_ok (quiet : state.Quiet) :
    Pager.rollback state = (.ok (), state.rolledBack) := by
  have quiet' : (Pager.dropDirty state).Quiet := quiet
  unfold Pager.rollback
  refine (Exec.bind_ok (Exec.run_modify _ _)).trans ?_
  refine (Exec.bind_ok (onFile_length quiet')).trans ?_
  refine (Exec.bind_ok (Exec.run_modify _ _)).trans ?_
  refine (Exec.bind_ok (@onWal_truncate ⟨{ (Pager.dropDirty state).pager with
    fileLength := state.disk.db.length }, state.disk, state.schedule⟩ quiet)).trans ?_
  rfl

/-- After a rollback the working pages read as the file. -/
theorem Consistent.rolledBack_view (consistent : state.Consistent) :
    state.rolledBack.view = state.disk.page := by
  funext index
  unfold view rolledBack
  dsimp only
  by_cases dirty : state.pager.dirty index = true
  · rw [if_pos dirty]
    rfl
  · rw [if_neg dirty]
    cases cached : state.pager.pages index with
    | none => rfl
    | some page => exact consistent.clean index page cached (by simpa using dirty)

theorem rolledBack_count (state : PagerIo) : state.rolledBack.count = state.disk.pageCount := rfl

theorem Consistent.rolledBack_coherent (consistent : state.Consistent) :
    state.rolledBack.Coherent where
  fileAligned := consistent.fileAligned
  lengthAligned := consistent.fileAligned
  longer := le_rfl
  clean := by
    intro index page cached _
    unfold rolledBack at cached
    dsimp only at cached
    split at cached
    · contradiction
    · next clean => exact consistent.clean index page cached (by simpa using clean)
  dirtyCached := by
    intro index dirty
    exact absurd dirty (by simp [rolledBack])
  dirtyBelow := by
    intro index dirty
    exact absurd dirty (by simp [rolledBack])
  lastDirty := by
    intro grown
    exact absurd grown (lt_irrefl _)

/-- No page is a gap when the lengths agree. -/
theorem noGap_of_lengths (same : state.pager.fileLength = state.disk.db.length) (index : Nat) :
    ¬ state.Gap index := by
  rintro ⟨-, below, past⟩
  unfold count at below
  rw [same] at below
  exact absurd below (Nat.not_lt_of_le past)

end PagerIo

end MukhiDb.Model
