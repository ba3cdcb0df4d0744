import MukhiDb.Pager.Calls
import MukhiDb.Pager.CrashedFiles

/-!
Contract: one crash at any byte of a commit.

Owns: the pages that a fresh opening reads; the exact crash positions at which
opening after the crash succeeds and every page reads as before the commit, or
as after it, by whether the commit record was whole.

Does not own: several crashes in a row.
-/

namespace MukhiDb.Model

open MukhiDb.Foundation

/-- Opening the files succeeds, and every page then reads as given. -/
def OpensTo (path : String) (disk : Disk) (pages : Nat → Page) : Prop :=
  ∃ pager files, Pager.open path ⟨disk, []⟩ = (.ok pager, files) ∧
    ∀ pageNum < maxPages, (Pager.readPage pageNum ⟨pager, files.disk, []⟩).1 = .ok (pages pageNum)

theorem opensTo_recovered (path : String) {disk : Disk} (aligned : disk.Aligned) :
    OpensTo path disk disk.recovered.page := by
  refine ⟨_, _, Pager.open_ok path aligned, fun pageNum below => ?_⟩
  obtain ⟨after, run, -⟩ := PagerIo.loadPage_ok (Pager.fresh_coherent aligned.recovered []) rfl below
    (PagerIo.noGap_of_lengths rfl pageNum)
  have run : Pager.readPage pageNum _ = _ := run
  rw [run, Pager.fresh_view]

/-- Opening is a function of the files. -/
theorem OpensTo.unique {path : String} {disk : Disk} {pages other : Nat → Page}
    (left : OpensTo path disk pages) (right : OpensTo path disk other) {pageNum : Nat}
    (below : pageNum < maxPages) : pages pageNum = other pageNum := by
  obtain ⟨pager, files, opened, reads⟩ := left
  obtain ⟨pager', files', opened', reads'⟩ := right
  obtain ⟨same, rfl⟩ := Prod.mk.inj (opened.symm.trans opened')
  obtain rfl := Except.ok.inj same
  exact Except.ok.inj ((reads pageNum below).symm.trans (reads' pageNum below))

/-- The files after a commit that ran to its end, and after one that stopped. -/
def PagerIo.finished (state : PagerIo) : Disk :=
  (Pager.commit ⟨state.pager, state.disk, []⟩).2.disk

def PagerIo.stopped (state : PagerIo) (calls bytes : Nat) : Disk :=
  (Pager.commit ⟨state.pager, state.disk, crashAt calls bytes⟩).2.disk

/-- After a crash inside commit, opening succeeds and the pages read as they would
have before the commit, or after it when the commit record is whole. -/
def AtomicAtCrash (path : String) (state : PagerIo) (calls bytes : Nat) : Prop :=
  ∃ before after, OpensTo path state.disk before ∧ OpensTo path state.finished after ∧
    OpensTo path (state.stopped calls bytes)
      (if Sealed state.commitWrites calls bytes then after else before)

/-- A coherent pager whose log is empty. -/
structure Settled (state : PagerIo) : Prop where
  coherent : state.Coherent
  quiet : state.Quiet
  logEmpty : state.disk.log = []

theorem PagerCall.machine_settled (call : PagerCall) {state : PagerIo} (settled : Settled state) :
    Settled (machine call state).2 := by
  rcases call.machine_after settled.coherent settled.quiet with
    ⟨-, after⟩ | ⟨-, after⟩ | ⟨-, -, coherent, quiet, disk, -⟩
  · rw [after]
    exact ⟨settled.coherent.committed_coherent, settled.quiet, rfl⟩
  · rw [after]
    exact ⟨settled.coherent.consistent.rolledBack_coherent, settled.quiet, rfl⟩
  · exact ⟨coherent, quiet, by rw [disk]; exact settled.logEmpty⟩

theorem PagerCall.run_settled (calls : List PagerCall) {state : PagerIo} (settled : Settled state) :
    Settled (Machine.run machine calls state).2 := by
  induction calls generalizing state with
  | nil => exact settled
  | cons call rest inductionHypothesis => exact inductionHypothesis (call.machine_settled settled)

section Settled

variable {path : String} {state : PagerIo} (settled : Settled state) {calls bytes : Nat}

include settled

theorem Settled.atomic (intact : ¬ TornExtension state.disk state.commitWrites calls bytes) :
    AtomicAtCrash path state calls bytes := by
  have coherent := settled.coherent
  have whole : WholeLog state.disk.log := by
    rw [settled.logEmpty]
    exact wholeLog_nil
  have idle : recoveredRecords state.disk.log = [] := by
    rw [settled.logEmpty]
    rfl
  obtain ⟨aligned, pages⟩ := coherent.crashed_recovered whole idle
    (PagerIo.idUnused_of_empty settled.logEmpty calls bytes) intact
  have finished : state.finished = state.committed.disk :=
    congrArg (fun run => run.2.disk) (@PagerIo.commit_ok ⟨state.pager, state.disk, []⟩ rfl)
  refine ⟨state.disk.page, state.view, ?_, ?_, ?_⟩
  · have opened := opensTo_recovered path (show state.disk.Aligned from coherent.fileAligned)
    rw [Disk.recovered_of_empty settled.logEmpty] at opened
    exact opened
  · have opened := opensTo_recovered path coherent.consistent.committed_aligned
    rw [Disk.recovered_of_empty rfl, coherent.consistent.committed_page] at opened
    rw [finished]
    exact opened
  · rw [PagerIo.stopped, Pager.commit_crash, ← pages]
    exact opensTo_recovered path aligned

theorem Settled.not_atomic (torn : TornExtension state.disk state.commitWrites calls bytes) :
    ¬ AtomicAtCrash path state calls bytes := by
  rintro ⟨-, -, -, -, pager, files, opened, -⟩
  have aligned : state.disk.Aligned := settled.coherent.fileAligned
  rw [PagerIo.stopped, Pager.commit_crash] at opened
  exact aligned.stoppedWrites_torn state.commitWrites_sorted torn _ (Pager.open_eq_ok opened).1

end Settled

/-- A commit of any work on files that were closed cleanly is atomic at a crash
exactly when the crash does not tear a page that extends the file. -/
theorem commit_atomicAtCrash_iff {path : String} {disk : Disk} {pager : Pager} {files : DiskIo}
    (closed : disk.log = []) (opened : Pager.open path ⟨disk, []⟩ = (.ok pager, files))
    (work : List PagerCall) (calls bytes : Nat) :
    AtomicAtCrash path (Machine.run PagerCall.machine work ⟨pager, files.disk, []⟩).2 calls bytes ↔
      ¬ TornExtension (Machine.run PagerCall.machine work ⟨pager, files.disk, []⟩).2.disk
        (Machine.run PagerCall.machine work ⟨pager, files.disk, []⟩).2.commitWrites calls bytes := by
  obtain ⟨aligned, rfl, rfl⟩ := Pager.open_eq_ok opened
  have start : Settled ⟨Pager.fresh disk.recovered.db.length, disk.recovered, []⟩ :=
    ⟨Pager.fresh_coherent aligned.recovered [], rfl,
      by rw [Disk.recovered_of_empty closed]; exact closed⟩
  have settled := PagerCall.run_settled work start
  exact ⟨fun atomic torn => settled.not_atomic torn atomic, settled.atomic⟩

/-- The process stops when the first of two new pages is in the file, and the second one is not. -/
theorem commit_atomicAtCrash_between :
    (Machine.run PagerCall.machine [.allocatePage, .allocatePage]
      ⟨Pager.fresh 0, ⟨[], []⟩, []⟩).2.commitWrites = [(0, Page.zero), (1, Page.zero)] ∧
    AtomicAtCrash "t.db" (Machine.run PagerCall.machine [.allocatePage, .allocatePage]
      ⟨Pager.fresh 0, ⟨[], []⟩, []⟩).2 10 0 := by
  have opened : Pager.open "t.db" ⟨⟨[], []⟩, []⟩ = (.ok (Pager.fresh 0), ⟨⟨[], []⟩, []⟩) := rfl
  constructor
  · refine PagerIo.commitWrites_eq (show 2 ≤ maxPages by decide) fun index above => ?_
    exact (Function.update_of_ne (show index ≠ 1 by omega) _ _).trans
      (Function.update_of_ne (show index ≠ 0 by omega) _ _)
  · refine (commit_atomicAtCrash_iff rfl opened [.allocatePage, .allocatePage] 10 0).mpr ?_
    rintro ⟨-, -, -, -, -, some, -⟩
    exact absurd some (Nat.lt_irrefl 0)

/-- The first page of an empty file is committed, and the process stops after one
byte of it reached the file: opening is refused. -/
theorem commit_torn_first_page :
    ∃ pager files, Pager.open "t.db" ⟨⟨[], []⟩, []⟩ = (.ok pager, files) ∧
      ¬ AtomicAtCrash "t.db" (Machine.run PagerCall.machine [.allocatePage]
        ⟨pager, files.disk, []⟩).2 6 1 := by
  refine ⟨Pager.fresh 0, ⟨⟨[], []⟩, []⟩, rfl, ?_⟩
  have start : Settled ⟨Pager.fresh 0, ⟨[], []⟩, []⟩ :=
    ⟨@Pager.fresh_coherent ⟨[], []⟩ rfl [], rfl, rfl⟩
  refine (PagerCall.run_settled [.allocatePage] start).not_atomic ?_
  have writes : (Machine.run PagerCall.machine [.allocatePage]
      ⟨Pager.fresh 0, ⟨[], []⟩, []⟩).2.commitWrites = [(0, Page.zero)] := by
    refine PagerIo.commitWrites_eq (show 1 ≤ maxPages by decide) fun index above => ?_
    exact Function.update_of_ne (show index ≠ 0 by omega) _ _
  rw [writes]
  exact ⟨0, (0, Page.zero), rfl, rfl, Nat.le_refl 0, by decide, by decide⟩

end MukhiDb.Model
