import MukhiDb.Pager.ReplayCrash
import MukhiDb.Pager.TornCommit
import MukhiDb.Pager.Refinement

/-!
Contract: histories of one table file and its log over many processes.

Owns: openings, calls and exits as steps, any of them stopped at any I/O call;
the page writes whose commit record was appended, as a history; and the law that
an opening reads exactly these, for every history in which no log record can be
mistaken for one of a later transaction with the same id.

Does not own: writes that take effect in part.
-/

namespace MukhiDb.Model

open MukhiDb.Foundation

/-! ### Histories -/

/-- A step of the history of a table. A crash is the number of the I/O call, counted
from the start of the step, at which the process stops; it stops right after the
step when the step makes fewer calls. -/
inductive TableEvent where
  | opening (crash : Option Nat)
  | call (call : PagerCall) (crash : Option Nat)
  | exit

/-- The files of a table, the process that has them open, and the page writes of
the transactions whose commit record was completely appended, in order. -/
structure TableHistory where
  disk : Disk
  process : Option Pager
  committed : List (Nat × Page)

namespace TableHistory

/-- A table that no process has open. -/
def start (disk : Disk) : TableHistory := ⟨disk, none, []⟩

/-- The outcomes of the I/O calls of a step: no call takes effect in part. -/
def outcomes : Option Nat → List IoOutcome
  | none => []
  | some calls => crashAt calls 0

/-- The page writes of a call whose commit record was completely appended. -/
def sealedWrites (call : PagerCall) (crash : Option Nat) (state : PagerIo) : List (Nat × Page) :=
  match call, crash with
  | .commit, none => state.commitWrites
  | .commit, some calls => if Sealed state.commitWrites calls 0 then state.commitWrites else []
  | _, _ => []

/-- One step. -/
def step (path : String) : Machine TableHistory TableEvent Unit
  | .opening crash, history =>
      match history.process with
      | some _ => ((), history)
      | none =>
          let opened := Pager.open path ⟨history.disk, outcomes crash⟩
          match crash, opened.1 with
          | none, .ok pager => ((), ⟨opened.2.disk, some pager, history.committed⟩)
          | _, _ => ((), ⟨opened.2.disk, none, history.committed⟩)
  | .call call crash, history =>
      match history.process with
      | none => ((), history)
      | some pager =>
          let after := (PagerCall.machine call ⟨pager, history.disk, outcomes crash⟩).2
          ((), ⟨after.disk, if crash = none then some after.pager else none,
            history.committed ++ sealedWrites call crash ⟨pager, history.disk, []⟩⟩)
  | .exit, history => ((), ⟨history.disk, none, history.committed⟩)

/-- The pages after writes in order. -/
def applyWrites (pages : Nat → Page) (writes : List (Nat × Page)) : Nat → Page :=
  writes.foldl (fun pages write => Function.update pages write.1 write.2) pages

/-- A commit that is stopped finds no record in the log that can be mistaken for one
of its own. -/
def IdsUnused : TableEvent → TableHistory → Prop
  | .call .commit (some calls), ⟨disk, some pager, _⟩ =>
      PagerIo.IdUnused ⟨pager, disk, []⟩ calls 0
  | _, _ => True

/-- Recovery of the files gives the committed writes, and an open pager has found
nothing to recover. -/
structure Consistent (initial : Nat → Page) (history : TableHistory) : Prop where
  aligned : history.disk.Aligned
  whole : WholeLog history.disk.log
  pages : history.disk.recovered.page = applyWrites initial history.committed
  running : ∀ pager, history.process = some pager →
    (PagerIo.mk pager history.disk []).Coherent ∧ recoveredRecords history.disk.log = []

end TableHistory

/-! ### Stopped calls -/

namespace PagerIo

/-- The files stay, or the log is emptied. -/
def LogDropped (before after : PagerIo) : Prop :=
  after.disk = before.disk ∨ after.disk = ⟨before.disk.db, []⟩

theorem LogDropped.trans {first second third : PagerIo} (left : LogDropped first second)
    (right : LogDropped second third) : LogDropped first third := by
  rcases left with left | left <;> rcases right with right | right
  · exact Or.inl (right.trans left)
  · exact Or.inr (by rw [right, left])
  · exact Or.inr (right.trans left)
  · exact Or.inr (by rw [right, left])

theorem LogDropped.bind {α β : Type} {first : Exec PagerIo α} {next : α → Exec PagerIo β}
    (head : Exec.Preserves LogDropped first) (tail : ∀ value, Exec.Preserves LogDropped (next value)) :
    Exec.Preserves LogDropped (first >>= next) :=
  Exec.Preserves.bind (fun left right => left.trans right) head tail

theorem LogDropped.of_disk {α : Type} {program : Exec PagerIo α}
    (same : ∀ state, (program state).2.disk = state.disk) : Exec.Preserves LogDropped program :=
  fun state => Or.inl (same state)

theorem onFile_logDropped {α : Type} {call : Exec Medium α}
    (untouched : ∀ medium, (call medium).2.bytes = medium.bytes) :
    Exec.Preserves LogDropped (onFile call) :=
  LogDropped.of_disk fun state =>
    congrArg (Disk.mk · state.disk.log) (untouched ⟨state.disk.db, state.schedule⟩)

theorem loadPage_logDropped (index : Nat) : Exec.Preserves LogDropped (Pager.loadPage index) := by
  have fetched : Exec.Preserves LogDropped (Pager.fetch index) := by
    unfold Pager.fetch
    refine LogDropped.bind (LogDropped.of_disk fun _ => rfl) fun state => ?_
    split
    · refine LogDropped.bind (onFile_logDropped fun medium => (untouched_touch id medium).1)
        fun _ => LogDropped.bind (onFile_logDropped fun medium =>
          (untouched_readAt _ _ medium).1) fun bytes => ?_
      cases bytes with
      | none => exact LogDropped.of_disk fun _ => rfl
      | some bytes =>
          dsimp only
          split
          · exact LogDropped.of_disk fun _ => rfl
          · exact LogDropped.of_disk fun _ => rfl
    · exact LogDropped.of_disk fun _ => rfl
  unfold Pager.loadPage
  split
  · exact LogDropped.of_disk fun _ => rfl
  · refine LogDropped.bind (LogDropped.of_disk fun _ => rfl) fun state => ?_
    split
    · exact LogDropped.of_disk fun _ => rfl
    · exact LogDropped.bind fetched fun page =>
        LogDropped.bind (LogDropped.of_disk fun _ => rfl) fun _ => LogDropped.of_disk fun _ => rfl

theorem getPageMut_logDropped (index : Nat) : Exec.Preserves LogDropped (Pager.getPageMut index) :=
  LogDropped.bind (loadPage_logDropped index) fun _ =>
    LogDropped.bind (LogDropped.of_disk fun _ => rfl) fun _ => LogDropped.of_disk fun _ => rfl

theorem onWal_truncate_logDropped : Exec.Preserves LogDropped (onWal Wal.truncate) := by
  rintro ⟨pager, disk, schedule⟩
  match schedule with
  | [] | [.done] => exact Or.inr rfl
  | .done :: .done :: _ | .done :: .stopped _ :: _ | .done :: .failed _ _ :: _ => exact Or.inr rfl
  | .stopped _ :: _ | .failed _ _ :: _ => exact Or.inl rfl

/-- Apart from commit, no call changes the `.db` file, wherever it stops. -/
theorem perform_logDropped (call : PagerCall) (other : call ≠ .commit) :
    Exec.Preserves LogDropped call.perform := by
  have unchanged {α : Type} (value : α) : Exec.Preserves LogDropped (pure value : Exec PagerIo α) :=
    LogDropped.of_disk fun _ => rfl
  cases call with
  | readPage pageNum => exact LogDropped.bind (loadPage_logDropped _) fun _ => unchanged _
  | getPage pageNum => exact LogDropped.bind (loadPage_logDropped _) fun _ => unchanged _
  | getPageMut pageNum change =>
      refine LogDropped.bind ?_ fun _ => unchanged _
      exact LogDropped.bind (getPageMut_logDropped _) fun _ =>
        LogDropped.bind (LogDropped.of_disk fun _ => rfl) fun _ => LogDropped.of_disk fun _ => rfl
  | allocatePage =>
      refine LogDropped.bind ?_ fun _ => unchanged _
      exact LogDropped.bind (LogDropped.of_disk fun _ => rfl) fun state =>
        LogDropped.bind (getPageMut_logDropped _) fun _ => LogDropped.of_disk fun _ => rfl
  | begin =>
      refine LogDropped.bind ?_ fun _ => unchanged _
      unfold Pager.begin
      refine LogDropped.bind (LogDropped.of_disk fun _ => rfl) fun state => ?_
      split
      · exact LogDropped.of_disk fun _ => rfl
      · exact LogDropped.of_disk fun _ => rfl
  | commit => exact absurd rfl other
  | rollback =>
      refine LogDropped.bind ?_ fun _ => unchanged _
      unfold Pager.rollback
      refine LogDropped.bind (LogDropped.of_disk fun _ => rfl) fun _ => ?_
      refine LogDropped.bind (onFile_logDropped fun medium => (untouched_length medium).1) fun _ => ?_
      refine LogDropped.bind (LogDropped.of_disk fun _ => rfl) fun _ => ?_
      exact LogDropped.bind onWal_truncate_logDropped fun _ => LogDropped.of_disk fun _ => rfl

end PagerIo

/-! ### The law -/

namespace TableHistory

variable {initial : Nat → Page} {history : TableHistory}

theorem applyWrites_append (pages : Nat → Page) (earlier later : List (Nat × Page)) :
    applyWrites pages (earlier ++ later) = applyWrites (applyWrites pages earlier) later :=
  List.foldl_append

theorem Consistent.disk_page (consistent : Consistent initial history) {pager : Pager}
    (open_ : history.process = some pager) :
    history.disk.page = applyWrites initial history.committed := by
  have same : history.disk.recovered = history.disk :=
    if_pos (consistent.running pager open_).2
  rw [← consistent.pages, same]

/-- Files whose log is empty, or that were left alone. -/
theorem Consistent.logDropped (consistent : Consistent initial history) {pager : Pager}
    (open_ : history.process = some pager) {disk : Disk}
    (dropped : disk = history.disk ∨ disk = ⟨history.disk.db, []⟩) :
    disk.Aligned ∧ WholeLog disk.log ∧
      disk.recovered.page = applyWrites initial history.committed ∧
      recoveredRecords disk.log = [] := by
  rcases dropped with rfl | rfl
  · exact ⟨consistent.aligned, consistent.whole, consistent.pages,
      (consistent.running pager open_).2⟩
  · refine ⟨consistent.aligned, wholeLog_nil, ?_, recoveredRecords_nil⟩
    rw [Disk.recovered_of_empty rfl, ← consistent.disk_page open_]
    rfl

theorem machine_state (call : PagerCall) (state : PagerIo) :
    (PagerCall.machine call state).2 = (call.perform state).2 := rfl

theorem commit_state (state : PagerIo) :
    (PagerCall.machine .commit state).2.disk = (Pager.commit state).2.disk := by
  rw [machine_state, PagerCall.perform, Exec.run_bind]
  rcases Pager.commit state with ⟨_ | ⟨⟩, after⟩ <;> rfl

/-- The page map of a finished commit. -/
theorem committed_applyWrites {state : PagerIo} (coherent : state.Coherent) :
    state.view = applyWrites state.disk.page state.commitWrites := by
  have aligned : state.disk.Aligned := coherent.fileAligned
  rw [← coherent.consistent.committed_page]
  exact aligned.page_putAll state.commitWrites

/-- A stopped commit in a history. -/
theorem step_commit_stopped (path : String) (disk : Disk) (pager : Pager)
    (committed : List (Nat × Page)) (calls : Nat) :
    (step path (.call .commit (some calls)) ⟨disk, some pager, committed⟩).2 =
      ⟨PagerIo.crashed ⟨pager, disk, []⟩ calls 0, none, committed ++
        if Sealed (PagerIo.commitWrites ⟨pager, disk, []⟩) calls 0 then
          PagerIo.commitWrites ⟨pager, disk, []⟩ else []⟩ := by
  have reached := (commit_state ⟨pager, disk, crashAt calls 0⟩).trans
    (Pager.commit_crash ⟨pager, disk, []⟩ 0 calls)
  simp only [step, outcomes, reached, sealedWrites, reduceCtorEq, if_false]

theorem Consistent.opening (consistent : Consistent initial history) (path : String)
    (crash : Option Nat) : Consistent initial (step path (.opening crash) history).2 := by
  obtain ⟨disk, process, committed⟩ := history
  cases process with
  | some pager => exact consistent
  | none =>
      cases crash with
      | none =>
          have opened := Pager.open_ok path consistent.aligned
          have next : (step path (.opening none) ⟨disk, none, committed⟩).2 =
              ⟨disk.recovered, some (Pager.fresh disk.recovered.db.length), committed⟩ := by
            simp only [step, outcomes]
            rw [opened]
          obtain ⟨aligned, whole, pages⟩ :=
            Pager.sameRecovery_recovered disk consistent.aligned consistent.whole
          rw [next]
          refine ⟨aligned, whole, pages.trans consistent.pages, ?_⟩
          rintro pager ⟨⟩
          refine ⟨Pager.fresh_coherent aligned [], ?_⟩
          dsimp only
          unfold Disk.recovered
          split
          · assumption
          · exact recoveredRecords_nil
      | some calls =>
          obtain ⟨-, same⟩ := Pager.open_replayable path ⟨disk, crashAt calls 0⟩
            (wholeCalls_crashAt calls)
          obtain ⟨aligned, whole, pages⟩ := same consistent.aligned consistent.whole
          exact ⟨aligned, whole, pages.trans consistent.pages, fun pager impossible => by
            cases impossible⟩

theorem Consistent.call (consistent : Consistent initial history) (path : String)
    (call : PagerCall) (crash : Option Nat) (unused : IdsUnused (.call call crash) history) :
    Consistent initial (step path (.call call crash) history).2 := by
  obtain ⟨disk, process, committed⟩ := history
  cases process with
  | none => exact consistent
  | some pager =>
      obtain ⟨coherent, idle⟩ := consistent.running pager rfl
      have pages := consistent.disk_page rfl
      dsimp only at pages
      by_cases commits : call = .commit
      · subst commits
        cases crash with
        | none =>
            have reached : (PagerCall.machine .commit ⟨pager, disk, []⟩).2 =
                PagerIo.committed ⟨pager, disk, []⟩ := by
              rw [@PagerCall.machine_commit ⟨pager, disk, []⟩ rfl]
            have next : (step path (.call .commit none) ⟨disk, some pager, committed⟩).2 =
                ⟨(PagerIo.committed ⟨pager, disk, []⟩).disk,
                  some (PagerIo.committed ⟨pager, disk, []⟩).pager,
                  committed ++ PagerIo.commitWrites ⟨pager, disk, []⟩⟩ := by
              simp only [step, outcomes, reached, sealedWrites, if_true]
            rw [next]
            refine ⟨coherent.consistent.committed_aligned, wholeLog_nil, ?_, ?_⟩
            · rw [Disk.recovered_of_empty rfl, coherent.consistent.committed_page, applyWrites_append, ← pages]
              exact committed_applyWrites coherent
            · rintro pager ⟨⟩
              exact ⟨coherent.committed_coherent, recoveredRecords_nil⟩
        | some calls =>
            have intact : ¬ TornExtension disk (PagerIo.commitWrites ⟨pager, disk, []⟩) calls 0 := by
              rintro ⟨-, -, -, -, -, positive, -⟩
              exact lt_irrefl _ positive
            obtain ⟨aligned, after⟩ := coherent.crashed_recovered consistent.whole idle unused intact
            rw [step_commit_stopped]
            refine ⟨aligned, ?_, ?_, fun pager impossible => by cases impossible⟩
            · unfold PagerIo.crashed
              dsimp only
              split
              · exact wholeLog_stopped consistent.whole _ _ _
              · exact wholeLog_nil
            · rw [after, applyWrites_append, ← pages]
              split
              · exact committed_applyWrites coherent
              · rfl
      · have reached (crash : Option Nat) : (step path (.call call crash)
            ⟨disk, some pager, committed⟩).2 =
            ⟨(PagerCall.machine call ⟨pager, disk, outcomes crash⟩).2.disk,
              if crash = none then
                some (PagerCall.machine call ⟨pager, disk, outcomes crash⟩).2.pager else none,
              committed⟩ := by
          have none_ : sealedWrites call crash ⟨pager, disk, []⟩ = [] := by
            unfold sealedWrites
            split
            · exact absurd rfl commits
            · exact absurd rfl commits
            · rfl
          simp only [step, none_, List.append_nil]
        have dropped := PagerIo.perform_logDropped call commits ⟨pager, disk, outcomes crash⟩
        obtain ⟨aligned, whole, after, idle⟩ := consistent.logDropped rfl dropped
        rw [reached]
        refine ⟨aligned, whole, after, ?_⟩
        cases crash with
        | some calls => exact fun pager impossible => by cases impossible
        | none =>
            rintro pager ⟨⟩
            exact ⟨{ (call.machine_coherent coherent rfl).1 with }, idle⟩

/-- Every step keeps the history consistent. -/
theorem Consistent.step (consistent : Consistent initial history) (path : String)
    (event : TableEvent) (unused : IdsUnused event history) :
    Consistent initial (TableHistory.step path event history).2 := by
  cases event with
  | opening crash => exact consistent.opening path crash
  | call call crash => exact consistent.call path call crash unused
  | exit =>
      exact ⟨consistent.aligned, consistent.whole, consistent.pages, fun pager impossible => by
        cases impossible⟩

/-- In every history that starts with files that were closed cleanly and meets the
condition on ids, an opening reads exactly the writes whose commit record was
completely appended, in order. -/
theorem opensTo_committed {path : String} {disk : Disk} (aligned : disk.Aligned)
    (closed : disk.log = []) (events : List TableEvent)
    (unused : Machine.Along (TableHistory.step path) IdsUnused events (start disk)) :
    OpensTo path (Machine.run (TableHistory.step path) events (start disk)).2.disk
      (applyWrites disk.page
        (Machine.run (TableHistory.step path) events (start disk)).2.committed) := by
  have initial : Consistent disk.page (start disk) := by
    refine ⟨aligned, ?_, ?_, fun pager impossible => by cases impossible⟩
    · unfold start
      rw [closed]
      exact wholeLog_nil
    · unfold start
      rw [Disk.recovered_of_empty closed]
      rfl
  have consistent := Machine.run_invariant
    (fun event _ consistent unused => consistent.step path event unused) initial unused
  rw [← consistent.pages]
  exact opensTo_recovered path consistent.aligned

/-- The process stops after the commit record of one new page and before the page
itself: the next opening reads the page. -/
theorem opensTo_committed_sealed :
    OpensTo "t.db" (Machine.run (TableHistory.step "t.db")
        [.opening none, .call .allocatePage none, .call .commit (some 4)] (start ⟨[], []⟩)).2.disk
      (applyWrites (Disk.page ⟨[], []⟩) (Machine.run (TableHistory.step "t.db")
        [.opening none, .call .allocatePage none, .call .commit (some 4)]
        (start ⟨[], []⟩)).2.committed) := by
  have aligned : Disk.Aligned ⟨[], []⟩ := rfl
  exact opensTo_committed aligned rfl _
    ⟨trivial, trivial, PagerIo.idUnused_of_empty rfl 4 0, trivial⟩

/-! ### A transaction that comes back -/

/-- A page whose first byte is one. -/
def markedPage : Page :=
  ⟨1 :: List.replicate 4095 0, by rw [List.length_cons, List.length_replicate]; rfl⟩

/-- The log that a process leaves when it stops before the commit record of a
transaction on pages 0 and 1. -/
def leftoverLog : Bytes := [Wal.pageRecord 0 0 Page.zero, Wal.pageRecord 0 1 markedPage].flatten

/-- A pager whose commit would write the given pages under transaction id 0. -/
structure Pending (pager : Pager) (disk : Disk) (writes : List (Nat × Page)) : Prop where
  id : pager.wal.txnId = 0
  writes : PagerIo.commitWrites ⟨pager, disk, []⟩ = writes

theorem Pending.stopped {pager : Pager} {disk : Disk} {writes : List (Nat × Page)}
    (pending : Pending pager disk writes) (path : String) {calls : Nat}
    (early : calls ≤ 2 * writes.length + 3) :
    (step path (.call .commit (some calls)) ⟨disk, some pager, []⟩).2 =
      ⟨⟨disk.db, disk.log ++ stoppedAppends (txnRecords 0 writes) calls 0⟩, none,
        if Sealed writes calls 0 then writes else []⟩ := by
  obtain ⟨id, rfl⟩ := pending
  rw [step_commit_stopped, PagerIo.crashed, id, if_pos (by omega), Nat.sub_eq_zero_of_le early,
    stoppedWrites_none, List.nil_append]

theorem leftover_history :
    (Machine.run (TableHistory.step "t.db") [.opening none, .call .allocatePage none,
      .call .allocatePage none, .call (.getPageMut 1 fun _ => markedPage) none,
      .call .commit (some 4)] (start ⟨[], []⟩)).2 = ⟨⟨[], leftoverLog⟩, none, []⟩ := by
  obtain ⟨pager, before, pending⟩ : ∃ pager, (Machine.run (TableHistory.step "t.db")
      [.opening none, .call .allocatePage none, .call .allocatePage none,
        .call (.getPageMut 1 fun _ => markedPage) none] (start ⟨[], []⟩)).2 =
        ⟨⟨[], []⟩, some pager, []⟩ ∧
      Pending pager ⟨[], []⟩ [(0, Page.zero), (1, markedPage)] := by
    refine ⟨_, rfl, rfl, ?_⟩
    refine PagerIo.commitWrites_eq (show 2 ≤ maxPages by decide) fun index above => ?_
    have first : index ≠ 0 := by omega
    have second : index ≠ 1 := by omega
    exact (Function.update_of_ne second _ _).trans
      ((Function.update_of_ne second _ _).trans (Function.update_of_ne first _ _))
  have last := Machine.run_concat (TableHistory.step "t.db") [.opening none,
    .call .allocatePage none, .call .allocatePage none,
    .call (.getPageMut 1 fun _ => markedPage) none] (.call .commit (some 4)) (start ⟨[], []⟩)
  rw [before] at last
  refine last.trans ((pending.stopped "t.db" (show 4 ≤ 2 * 2 + 3 by decide)).trans ?_)
  have unsealed : ¬ Sealed [(0, Page.zero), (1, markedPage)] 4 0 := by
    simp [Sealed]
  have log : stoppedAppends (txnRecords 0 [(0, Page.zero), (1, markedPage)]) 4 0 = leftoverLog := by
    have parts := stoppedAppends_append_add
      [Wal.pageRecord 0 0 Page.zero, Wal.pageRecord 0 1 markedPage] [Wal.commitRecord 0] 0 0
    rw [stoppedAppends, List.append_nil] at parts
    rw [txnRecords, List.map_cons, List.map_cons, List.map_nil]
    exact parts
  rw [if_neg unsealed, log, List.nil_append]

/-- What recovery finds in page records of transaction 0 that its commit record follows. -/
theorem scan_records (writes : List (Nat × Page)) (txnId : Nat) :
    scanLog ((writes.map fun write => Wal.pageRecord txnId write.1 write.2).flatten) =
      ⟨[], writes.map (loggedRecord txnId)⟩ := by
  have sizes : ∀ record ∈ writes.map (fun write => Wal.pageRecord txnId write.1 write.2),
      record.length = recordSize := by
    intro record member
    obtain ⟨write, -, rfl⟩ := List.mem_map.mp member
    exact pageRecord_length _ _ _
  have whole := wholeRecords_flatten sizes (show ([] : Bytes).length < recordSize by decide)
  rw [List.append_nil] at whole
  unfold scanLog
  rw [whole, foldl_add_pageRecords, List.nil_append]

/-- The next process finds nothing to recover, and stops between the commit record of
a transaction on page 0 and the end of its commit. -/
theorem leftover_commit :
    (Machine.run (TableHistory.step "t.db") [.opening none, .call .allocatePage none,
      .call .commit (some 4)] ⟨⟨[], leftoverLog⟩, none, []⟩).2 =
      ⟨⟨[], leftoverLog ++ stoppedAppends (txnRecords 0 [(0, Page.zero)]) 4 0⟩, none,
        [(0, Page.zero)]⟩ := by
  have nothing : recoveredRecords leftoverLog = [] := by
    have scan := scan_records [(0, Page.zero), (1, markedPage)] 0
    unfold recoveredRecords leftoverLog
    exact (congrArg Wal.Scan.records scan).trans rfl
  have aligned : Disk.Aligned ⟨[], leftoverLog⟩ := rfl
  have opened := Pager.open_ok "t.db" aligned
  rw [show Disk.recovered ⟨[], leftoverLog⟩ = ⟨[], leftoverLog⟩ from if_pos nothing] at opened
  have first : (step "t.db" (.opening none) ⟨⟨[], leftoverLog⟩, none, []⟩).2 =
      ⟨⟨[], leftoverLog⟩, some (Pager.fresh 0), []⟩ := by
    simp only [step, outcomes]
    rw [opened]
    rfl
  obtain ⟨pager, before, pending⟩ : ∃ pager, (step "t.db" (.call .allocatePage none)
      ⟨⟨[], leftoverLog⟩, some (Pager.fresh 0), []⟩).2 = ⟨⟨[], leftoverLog⟩, some pager, []⟩ ∧
      Pending pager ⟨[], leftoverLog⟩ [(0, Page.zero)] := by
    refine ⟨_, rfl, rfl, ?_⟩
    refine PagerIo.commitWrites_eq (show 1 ≤ maxPages by decide) fun index above => ?_
    exact Function.update_of_ne (show index ≠ 0 by omega) _ _
  have opening := Machine.run_concat (TableHistory.step "t.db") [] (.opening none)
    ⟨⟨[], leftoverLog⟩, none, []⟩
  have allocation := Machine.run_concat (TableHistory.step "t.db") [.opening none]
    (.call .allocatePage none) ⟨⟨[], leftoverLog⟩, none, []⟩
  have last := Machine.run_concat (TableHistory.step "t.db")
    [.opening none, .call .allocatePage none] (.call .commit (some 4))
    ⟨⟨[], leftoverLog⟩, none, []⟩
  rw [Machine.run, first, List.nil_append] at opening
  rw [opening, before, List.singleton_append] at allocation
  rw [allocation] at last
  refine last.trans ((pending.stopped "t.db" (show 4 ≤ 2 * 1 + 3 by decide)).trans ?_)
  rw [if_pos (show Sealed [(0, Page.zero)] 4 0 from Or.inl (by decide))]

/-- Recovery returns the leftover records together with those of the sealed transaction. -/
theorem leftover_recovered :
    (Disk.recovered ⟨[], leftoverLog ++
      stoppedAppends (txnRecords 0 [(0, Page.zero)]) 4 0⟩).page 1 = markedPage := by
  have leftover := scan_records [(0, Page.zero), (1, markedPage)] 0
  have whole : WholeLog leftoverLog := wholeLog_flatten fun record member => by
    rcases List.mem_pair.mp member with rfl | rfl <;> exact pageRecord_length _ _ _
  have late : Sealed [(0, Page.zero)] 4 0 := Or.inl (by simp)
  have scan := scanLog_sealed whole 0 late
  rw [show scanLog leftoverLog = _ from leftover] at scan
  have aligned : Disk.Aligned ⟨[], leftoverLog ++
      stoppedAppends (txnRecords 0 [(0, Page.zero)]) 4 0⟩ := rfl
  have records : (recoveredRecords (leftoverLog ++
      stoppedAppends (txnRecords 0 [(0, Page.zero)]) 4 0)).map WalRecord.write =
      [(0, Page.zero), (1, markedPage), (0, Page.zero)] := by
    unfold recoveredRecords
    rw [scan]
    simp [Wal.Scan.records, loggedRecord, WalRecord.write]
  rw [Disk.recovered_page, records, aligned.page_putAll]
  simp [Function.update]

theorem markedPage_ne_zero : markedPage ≠ Page.zero := by
  intro same
  have first : markedPage.byte 0 = Page.zero.byte 0 := congrArg (fun page => page.byte 0) same
  exact absurd first (by decide)

/-- The page of the first transaction, whose commit record was never appended, is
read after the second process stopped. -/
theorem leftover_replayed :
    ¬ OpensTo "t.db" (Machine.run (TableHistory.step "t.db")
        ([.opening none, .call .allocatePage none, .call .allocatePage none,
          .call (.getPageMut 1 fun _ => markedPage) none, .call .commit (some 4)] ++
          [.opening none, .call .allocatePage none, .call .commit (some 4)])
        (start ⟨[], []⟩)).2.disk
      (applyWrites (Disk.page ⟨[], []⟩) (Machine.run (TableHistory.step "t.db")
        ([.opening none, .call .allocatePage none, .call .allocatePage none,
          .call (.getPageMut 1 fun _ => markedPage) none, .call .commit (some 4)] ++
          [.opening none, .call .allocatePage none, .call .commit (some 4)])
        (start ⟨[], []⟩)).2.committed) := by
  rw [Machine.run_append, leftover_history, leftover_commit]
  intro opens
  have aligned : Disk.Aligned ⟨[], leftoverLog ++
      stoppedAppends (txnRecords 0 [(0, Page.zero)]) 4 0⟩ := rfl
  have same := opens.unique (opensTo_recovered "t.db" aligned) (show 1 < maxPages by decide)
  have past : Disk.pageCount ⟨[], []⟩ ≤ 1 := Nat.zero_le 1
  rw [leftover_recovered] at same
  change Function.update (Disk.page ⟨[], []⟩) 0 Page.zero 1 = markedPage at same
  rw [Function.update_of_ne (by decide), Disk.page_of_le past] at same
  exact markedPage_ne_zero same.symm

end TableHistory

end MukhiDb.Model
