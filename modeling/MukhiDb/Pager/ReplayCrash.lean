import MukhiDb.Pager.CrashedFiles

/-!
Contract: the files that are left when the process stops inside an opening.

Owns: schedules whose calls take effect whole or not at all; the fact that what
recovery returns does not depend on the schedule it ran under; and the fact that
an opening that is stopped anywhere, any number of times, leaves files that a later
recovery turns into the same files.

Does not own: commits, and histories of several processes.
-/

namespace MukhiDb.Model

open MukhiDb.Foundation

/-! ### Schedules of whole calls -/

/-- No call takes effect in part. -/
def WholeCalls (schedule : List IoOutcome) : Prop :=
  ∀ outcome ∈ schedule, outcome = .done ∨ outcome = .stopped 0

theorem wholeCalls_crashAt (calls : Nat) : WholeCalls (crashAt calls 0) := by
  intro outcome member
  rcases List.mem_append.mp member with before | last
  · exact Or.inl (List.eq_of_mem_replicate before)
  · exact Or.inr (List.mem_singleton.mp last)

theorem WholeCalls.tail {outcome : IoOutcome} {rest : List IoOutcome}
    (whole : WholeCalls (outcome :: rest)) : WholeCalls rest :=
  fun other member => whole other (List.mem_cons_of_mem _ member)

/-! ### Recovery under any schedule -/

/-- A value that was returned does not depend on the schedule. -/
def Insensitive {α : Type} (program : Exec WalIo α) : Prop :=
  ∀ state after value, program state = (.ok value, after) →
    program ⟨state.wal, state.log, []⟩ = (.ok value, ⟨after.wal, after.log, []⟩)

namespace Insensitive

variable {α β : Type}

theorem pure (value : α) : Insensitive (Pure.pure value : Exec WalIo α) := by
  intro state after found run
  cases run
  rfl

theorem throw (fault : Fault) : Insensitive (Exec.throw fault : Exec WalIo α) := by
  intro state after value run
  cases run

theorem bind {first : Exec WalIo α} {next : α → Exec WalIo β} (head : Insensitive first)
    (tail : ∀ value, Insensitive (next value)) : Insensitive (first >>= next) := by
  intro state after value run
  obtain ⟨middle, between, ran, last⟩ := Exec.bind_eq_ok.mp run
  rw [Exec.bind_ok (head _ _ _ ran)]
  exact tail middle between after value last

/-- One call on the log. -/
theorem perform (describe : String → String) (partway : Nat → Bytes → Bytes)
    (whole : Bytes → Bytes) : Insensitive (Wal.onLog (Medium.perform describe partway whole)) := by
  rintro ⟨wal, log, schedule⟩ after value run
  match schedule with
  | [] | .done :: _ =>
      cases run
      rfl
  | .failed _ _ :: _ | .stopped _ :: _ => cases run

theorem length : Insensitive (Wal.onLog Medium.length) := by
  rintro ⟨wal, log, schedule⟩ after value run
  match schedule with
  | [] | .done :: _ =>
      cases run
      rfl
  | .failed _ _ :: _ | .stopped _ :: _ => cases run

theorem readAt (offset width : Nat) : Insensitive (Wal.onLog (Medium.readAt offset width)) := by
  rintro ⟨wal, log, schedule⟩ after value run
  match schedule with
  | [] | .done :: _ =>
      cases run
      rfl
  | .failed _ _ :: _ | .stopped _ :: _ => cases run

theorem recoverLoop (fuel offset : Nat) (found : Wal.Scan) :
    Insensitive (Wal.recoverLoop fuel offset found) := by
  induction fuel generalizing offset found with
  | zero => exact throw _
  | succ fuel inductionHypothesis =>
      refine bind (readAt _ _) fun value => ?_
      cases value with
      | none => exact pure _
      | some record => exact inductionHypothesis _ _

theorem recover : Insensitive Wal.recover := by
  unfold Wal.recover
  refine bind length fun len => ?_
  split
  · exact pure _
  · refine bind (perform _ _ _) fun _ => bind (recoverLoop _ _ _) fun _ => pure _

end Insensitive

/-! ### What an opening leaves -/

/-- A later recovery reads the same pages. -/
def SameRecovery (before after : Disk) : Prop :=
  before.Aligned → WholeLog before.log →
    after.Aligned ∧ WholeLog after.log ∧ after.recovered.page = before.recovered.page

/-- Whole calls, after which a later recovery reads the same pages. -/
def Replayable (before after : DiskIo) : Prop :=
  WholeCalls before.schedule → WholeCalls after.schedule ∧ SameRecovery before.disk after.disk

/-- A later recovery leaves the same files. The log is kept until it is emptied. -/
structure Resumes (before after : Disk) : Prop where
  aligned : after.Aligned
  recovered : after.recovered = before.recovered
  log : after.log = before.log ∨ after.log = []

/-- Whole calls, after which a later recovery leaves the same files. -/
def Resumable (before after : DiskIo) : Prop :=
  WholeCalls before.schedule →
    WholeCalls after.schedule ∧ (before.disk.Aligned → Resumes before.disk after.disk)

theorem Resumes.refl {disk : Disk} (aligned : disk.Aligned) : Resumes disk disk :=
  ⟨aligned, rfl, Or.inl rfl⟩

theorem Resumes.trans {first second third : Disk} (left : Resumes first second)
    (right : Resumes second third) : Resumes first third where
  aligned := right.aligned
  recovered := right.recovered.trans left.recovered
  log := by
    rcases right.log with kept | emptied
    · rw [kept]
      exact left.log
    · exact Or.inr emptied

theorem Resumes.sameRecovery {before after : Disk} (resumes : before.Aligned → Resumes before after) :
    SameRecovery before after := by
  intro aligned whole
  obtain ⟨alignedAfter, recovered, log⟩ := resumes aligned
  refine ⟨alignedAfter, ?_, by rw [recovered]⟩
  rcases log with kept | emptied
  · rw [kept]
    exact whole
  · rw [emptied]
    exact wholeLog_nil

namespace Resumable

theorem refl (state : DiskIo) : Resumable state state :=
  fun calls => ⟨calls, Resumes.refl⟩

theorem trans {first second third : DiskIo} (left : Resumable first second)
    (right : Resumable second third) : Resumable first third := by
  intro calls
  obtain ⟨calls, same⟩ := left calls
  obtain ⟨calls, same'⟩ := right calls
  exact ⟨calls, fun aligned => (same aligned).trans (same' (same aligned).aligned)⟩

theorem bind {α β : Type} {first : Exec DiskIo α} {next : α → Exec DiskIo β}
    (head : Exec.Preserves Resumable first) (tail : ∀ value, Exec.Preserves Resumable (next value)) :
    Exec.Preserves Resumable (first >>= next) :=
  Exec.Preserves.bind (fun left right => left.trans right) head tail

theorem pure {α : Type} (value : α) : Exec.Preserves Resumable (Pure.pure value : Exec DiskIo α) :=
  Exec.Preserves.of_unchanged refl fun _ => rfl

/-- A program that leaves the files alone. -/
theorem of_untouched {α : Type} {program : Exec DiskIo α}
    (untouched : ∀ state, (program state).2.disk = state.disk ∧
      (WholeCalls state.schedule → WholeCalls (program state).2.schedule)) :
    Exec.Preserves Resumable program := by
  intro state calls
  obtain ⟨disk, later⟩ := untouched state
  rw [disk]
  exact ⟨later calls, Resumes.refl⟩

end Resumable

/-- A call that changes no byte. -/
theorem untouched_touch (describe : String → String) (medium : Medium) :
    (Medium.perform describe (fun _ bytes => bytes) id medium).2.bytes = medium.bytes ∧
      (WholeCalls medium.schedule →
        WholeCalls (Medium.perform describe (fun _ bytes => bytes) id medium).2.schedule) := by
  obtain ⟨bytes, schedule⟩ := medium
  match schedule with
  | [] => exact ⟨rfl, id⟩
  | .done :: _ | .failed _ _ :: _ | .stopped _ :: _ => exact ⟨rfl, WholeCalls.tail⟩

theorem untouched_length (medium : Medium) :
    (Medium.length medium).2.bytes = medium.bytes ∧
      (WholeCalls medium.schedule → WholeCalls (Medium.length medium).2.schedule) := by
  obtain ⟨bytes, schedule⟩ := medium
  match schedule with
  | [] => exact ⟨rfl, id⟩
  | .done :: _ | .failed _ _ :: _ | .stopped _ :: _ => exact ⟨rfl, WholeCalls.tail⟩

theorem untouched_readAt (offset width : Nat) (medium : Medium) :
    (Medium.readAt offset width medium).2.bytes = medium.bytes ∧
      (WholeCalls medium.schedule → WholeCalls (Medium.readAt offset width medium).2.schedule) := by
  obtain ⟨bytes, schedule⟩ := medium
  match schedule with
  | [] => exact ⟨rfl, id⟩
  | .done :: _ | .failed _ _ :: _ | .stopped _ :: _ => exact ⟨rfl, WholeCalls.tail⟩

/-- The log is only read. -/
def LogRead (before after : WalIo) : Prop :=
  after.log = before.log ∧ (WholeCalls before.schedule → WholeCalls after.schedule)

theorem LogRead.refl (state : WalIo) : LogRead state state := ⟨rfl, id⟩

theorem LogRead.trans {first second third : WalIo} (left : LogRead first second)
    (right : LogRead second third) : LogRead first third :=
  ⟨right.1.trans left.1, right.2 ∘ left.2⟩

theorem LogRead.bind {α β : Type} {first : Exec WalIo α} {next : α → Exec WalIo β}
    (head : Exec.Preserves LogRead first) (tail : ∀ value, Exec.Preserves LogRead (next value)) :
    Exec.Preserves LogRead (first >>= next) :=
  Exec.Preserves.bind (fun left right => left.trans right) head tail

theorem recoverLoop_logRead (fuel offset : Nat) (found : Wal.Scan) :
    Exec.Preserves LogRead (Wal.recoverLoop fuel offset found) := by
  induction fuel generalizing offset found with
  | zero => exact Exec.Preserves.of_unchanged LogRead.refl fun _ => rfl
  | succ fuel inductionHypothesis =>
      refine LogRead.bind (fun state => untouched_readAt _ _ ⟨state.log, state.schedule⟩)
        fun value => ?_
      cases value with
      | none => exact Exec.Preserves.of_unchanged LogRead.refl fun _ => rfl
      | some record => exact inductionHypothesis _ _

theorem recover_logRead : Exec.Preserves LogRead Wal.recover := by
  unfold Wal.recover
  refine LogRead.bind (fun state => untouched_length ⟨state.log, state.schedule⟩) fun len => ?_
  split
  · exact Exec.Preserves.of_unchanged LogRead.refl fun _ => rfl
  · refine LogRead.bind (fun state => untouched_touch id ⟨state.log, state.schedule⟩) fun _ => ?_
    exact LogRead.bind (recoverLoop_logRead _ _ _) fun _ =>
      Exec.Preserves.of_unchanged LogRead.refl fun _ => rfl

namespace Pager

/-- Replay under whole calls: some of the records are in the file, all of them when
it returned. -/
theorem replay_whole (records : List WalRecord) (disk : Disk) {schedule : List IoOutcome}
    (calls : WholeCalls schedule) :
    ∃ count rest, (replay records ⟨disk, schedule⟩).2 =
        ⟨disk.putAll ((records.take count).map WalRecord.write), rest⟩ ∧ WholeCalls rest ∧
      ((replay records ⟨disk, schedule⟩).1 = .ok () → records.take count = records) := by
  induction records generalizing disk schedule with
  | nil => exact ⟨0, schedule, rfl, calls, fun _ => rfl⟩
  | cons record rest inductionHypothesis =>
      have go {later : List IoOutcome} (calls : WholeCalls later)
          (step : replay (record :: rest) ⟨disk, schedule⟩ =
            replay rest ⟨disk.put record.pageNum record.data, later⟩) :
          ∃ count left, (replay (record :: rest) ⟨disk, schedule⟩).2 =
              ⟨disk.putAll (((record :: rest).take count).map WalRecord.write), left⟩ ∧
            WholeCalls left ∧ ((replay (record :: rest) ⟨disk, schedule⟩).1 = .ok () →
              (record :: rest).take count = record :: rest) := by
        obtain ⟨count, left, reached, whole, all⟩ :=
          inductionHypothesis (disk.put record.pageNum record.data) calls
        rw [step]
        exact ⟨count + 1, left, reached, whole, fun ran => congrArg (record :: ·) (all ran)⟩
      match schedule with
      | [] => exact go calls rfl
      | [.done] => exact go calls.tail rfl
      | .done :: .done :: later => exact go calls.tail.tail rfl
      | .done :: .stopped bytes :: later =>
          obtain rfl : bytes = 0 := by simpa using calls (.stopped bytes) (by simp)
          refine ⟨0, later, ?_, calls.tail.tail, fun ran => by cases ran⟩
          exact congrArg (DiskIo.mk · later) (disk.tear_none record.pageNum record.data)
      | .stopped bytes :: later => exact ⟨0, later, rfl, calls.tail, fun ran => by cases ran⟩
      | .done :: .failed message bytes :: later =>
          exact absurd (calls (.failed message bytes) (by simp)) (by simp)
      | .failed message bytes :: later =>
          exact absurd (calls (.failed message bytes) (by simp)) (by simp)

/-- Replaying a part of the recovered records changes nothing for a later recovery. -/
theorem resumes_partly {disk : Disk} (aligned : disk.Aligned) (count : Nat) :
    Resumes disk
      (disk.putAll (((recoveredRecords disk.log).take count).map WalRecord.write)) where
  aligned := aligned.putAll _
  log := Or.inl (Disk.putAll_log _ _)
  recovered := by
    unfold Disk.recovered
    rw [Disk.putAll_log]
    by_cases none : recoveredRecords disk.log = []
    · rw [if_pos none, if_pos none, none, List.take_nil]
      rfl
    · rw [if_neg none, if_neg none, aligned.putAll_again]
      rw [List.map_take]
      exact fun write member => List.mem_of_mem_take member

/-- The files after recovery recover to themselves. -/
theorem resumes_recovered {disk : Disk} (aligned : disk.Aligned) : Resumes disk disk.recovered := by
  by_cases none : recoveredRecords disk.log = []
  · rw [show disk.recovered = disk from if_pos none]
    exact Resumes.refl aligned
  · have emptied : disk.recovered.log = [] := by
      unfold Disk.recovered
      rw [if_neg none]
    exact ⟨aligned.recovered, Disk.recovered_of_empty emptied, Or.inr emptied⟩

theorem sameRecovery_recovered (disk : Disk) : SameRecovery disk disk.recovered :=
  Resumes.sameRecovery resumes_recovered

/-- A call on the `.db` file that changes no byte. -/
theorem onFile_touch_untouched (describe : String → String) (state : DiskIo) :
    (DiskIo.onFile (Medium.perform describe (fun _ bytes => bytes) id) state).2.disk = state.disk ∧
      (WholeCalls state.schedule → WholeCalls
        (DiskIo.onFile (Medium.perform describe (fun _ bytes => bytes) id) state).2.schedule) := by
  obtain ⟨bytes, later⟩ := untouched_touch describe ⟨state.disk.db, state.schedule⟩
  exact ⟨congrArg (Disk.mk · state.disk.log) bytes, later⟩

theorem truncate_whole (disk : Disk) {schedule : List IoOutcome} (calls : WholeCalls schedule) :
    WholeCalls (DiskIo.onWal Wal.truncate ⟨disk, schedule⟩).2.schedule ∧
      ((DiskIo.onWal Wal.truncate ⟨disk, schedule⟩).2.disk = disk ∨
        (DiskIo.onWal Wal.truncate ⟨disk, schedule⟩).2.disk = ⟨disk.db, []⟩) := by
  match schedule with
  | [] | [.done] => exact ⟨fun _ impossible => absurd impossible List.not_mem_nil, Or.inr rfl⟩
  | .done :: .done :: later | .done :: .stopped _ :: later | .done :: .failed _ _ :: later =>
      exact ⟨calls.tail.tail, Or.inr rfl⟩
  | .stopped _ :: later | .failed _ _ :: later => exact ⟨calls.tail, Or.inl rfl⟩

theorem syncTruncate_whole (disk : Disk) {schedule : List IoOutcome}
    (calls : WholeCalls schedule) :
    WholeCalls ((DiskIo.onFile Medium.touch >>= fun _ => DiskIo.onWal Wal.truncate)
        ⟨disk, schedule⟩).2.schedule ∧
      (((DiskIo.onFile Medium.touch >>= fun _ => DiskIo.onWal Wal.truncate)
          ⟨disk, schedule⟩).2.disk = disk ∨
        ((DiskIo.onFile Medium.touch >>= fun _ => DiskIo.onWal Wal.truncate)
          ⟨disk, schedule⟩).2.disk = ⟨disk.db, []⟩) := by
  match schedule with
  | [] => exact truncate_whole disk calls
  | .done :: later => exact truncate_whole disk calls.tail
  | .stopped _ :: later | .failed _ _ :: later => exact ⟨calls.tail, Or.inl rfl⟩

/-- Replay, sync and truncation, stopped anywhere. -/
theorem replayAll_resumable (disk : Disk) (some : recoveredRecords disk.log ≠ [])
    (schedule : List IoOutcome) :
    Resumable ⟨disk, schedule⟩ ((replay (recoveredRecords disk.log) >>= fun _ =>
      DiskIo.onFile Medium.touch >>= fun _ => DiskIo.onWal Wal.truncate) ⟨disk, schedule⟩).2 := by
  intro calls
  obtain ⟨count, rest, reached, whole, all⟩ := replay_whole (recoveredRecords disk.log) disk calls
  have partly (aligned : disk.Aligned) := resumes_partly aligned count
  rw [Exec.run_bind]
  rcases ran : replay (recoveredRecords disk.log) ⟨disk, schedule⟩ with ⟨fault | ⟨⟩, replayed⟩
  · rw [ran] at reached
    obtain rfl : replayed = _ := reached
    exact ⟨whole, partly⟩
  · rw [ran] at reached all
    obtain rfl : replayed = _ := reached
    rw [all rfl] at partly ⊢
    obtain ⟨calls, same | truncated⟩ := syncTruncate_whole
      (disk.putAll ((recoveredRecords disk.log).map WalRecord.write)) whole
    · refine ⟨calls, ?_⟩
      dsimp only
      rw [same]
      exact partly
    · refine ⟨calls, ?_⟩
      have recovered : disk.recovered =
          ⟨(disk.putAll ((recoveredRecords disk.log).map WalRecord.write)).db, []⟩ := if_neg some
      dsimp only
      rw [truncated, ← recovered]
      exact resumes_recovered

/-- What recovery returned, under any schedule. -/
theorem recover_found {disk : Disk} {schedule : List IoOutcome} {records : List WalRecord}
    {after : DiskIo} (ran : DiskIo.onWal Wal.recover ⟨disk, schedule⟩ = (.ok records, after)) :
    records = recoveredRecords disk.log := by
  have value : (Wal.recover ⟨Wal.opened, disk.log, schedule⟩).1 = .ok records :=
    congrArg Prod.fst ran
  rcases inner : Wal.recover ⟨Wal.opened, disk.log, schedule⟩ with ⟨fault | found, reached⟩
  · rw [inner] at value
    contradiction
  · rw [inner] at value
    have same := Insensitive.recover _ _ _ inner
    rw [recover_ok rfl] at same
    exact (Except.ok.inj value).symm.trans (Except.ok.inj (congrArg Prod.fst same)).symm

theorem onWal_recover_untouched (state : DiskIo) :
    (DiskIo.onWal Wal.recover state).2.disk = state.disk ∧
      (WholeCalls state.schedule → WholeCalls (DiskIo.onWal Wal.recover state).2.schedule) := by
  obtain ⟨log, later⟩ := recover_logRead ⟨Wal.opened, state.disk.log, state.schedule⟩
  exact ⟨congrArg (Disk.mk state.disk.db) log, later⟩

theorem recoverFile_resumable : Exec.Preserves Resumable recoverFile := by
  intro state
  have first := Resumable.of_untouched onWal_recover_untouched state
  have kept := (onWal_recover_untouched state).1
  unfold recoverFile
  rw [Exec.run_bind]
  rcases ran : DiskIo.onWal Wal.recover state with ⟨fault | records, found⟩
  · rw [ran] at first
    exact first
  · rw [ran] at first kept
    have records_eq : records = recoveredRecords found.disk.log := by
      have same := recover_found ran
      rwa [← kept] at same
    subst records_eq
    refine first.trans ?_
    dsimp only
    split
    · exact Resumable.refl _
    · next some =>
        have second := Resumable.of_untouched (onFile_touch_untouched id) found
        have keptOpen := (onFile_touch_untouched id found).1
        rw [Exec.run_bind]
        rcases opened : DiskIo.onFile (Medium.openFile id) found with ⟨fault | ⟨⟩, reopened⟩
        · have same : (DiskIo.onFile (Medium.perform id (fun _ bytes => bytes) id) found).2 =
              reopened := congrArg Prod.snd opened
          rw [same] at second
          exact second
        · have same : (DiskIo.onFile (Medium.perform id (fun _ bytes => bytes) id) found).2 =
              reopened := congrArg Prod.snd opened
          rw [same] at second keptOpen
          refine second.trans ?_
          rw [← keptOpen] at some ⊢
          exact replayAll_resumable reopened.disk some reopened.schedule

/-- An opening that is stopped anywhere leaves files that recover to the same files. -/
theorem open_resumable (path : String) : Exec.Preserves Resumable (Pager.open path) := by
  have onFile_length : Exec.Preserves Resumable (DiskIo.onFile Medium.length) :=
    Resumable.of_untouched fun state => by
      obtain ⟨bytes, later⟩ := untouched_length ⟨state.disk.db, state.schedule⟩
      exact ⟨congrArg (Disk.mk · state.disk.log) bytes, later⟩
  have onWal_open (describe : String → String) : Exec.Preserves Resumable
      (DiskIo.onWal (Wal.onLog (Medium.openFile describe))) :=
    Resumable.of_untouched fun state => by
      obtain ⟨bytes, later⟩ := untouched_touch describe ⟨state.disk.log, state.schedule⟩
      exact ⟨congrArg (Disk.mk state.disk.db) bytes, later⟩
  unfold Pager.open
  refine Resumable.bind (Resumable.of_untouched (onFile_touch_untouched _)) fun _ => ?_
  refine Resumable.bind onFile_length fun fileLength => ?_
  split
  · refine Resumable.bind (onWal_open _) fun _ => ?_
    refine Resumable.bind recoverFile_resumable fun _ => ?_
    exact Resumable.bind onFile_length fun _ => Resumable.pure _
  · exact Exec.Preserves.of_unchanged Resumable.refl fun _ => rfl

/-- An opening that is stopped anywhere leaves files that recover to the same pages. -/
theorem open_replayable (path : String) : Exec.Preserves Replayable (Pager.open path) := by
  intro state calls
  obtain ⟨calls, resumes⟩ := open_resumable path state calls
  exact ⟨calls, Resumes.sameRecovery resumes⟩

/-! ### Openings that are stopped again and again -/

/-- The files after openings that are stopped, each before one of its calls. -/
def stoppedOpenings (path : String) (stops : List Nat) (disk : Disk) : Disk :=
  stops.foldl (fun disk calls => (Pager.open path ⟨disk, crashAt calls 0⟩).2.disk) disk

theorem stoppedOpenings_resumes (path : String) (stops : List Nat) {disk : Disk}
    (aligned : disk.Aligned) : Resumes disk (stoppedOpenings path stops disk) := by
  induction stops generalizing disk with
  | nil => exact Resumes.refl aligned
  | cons calls rest inductionHypothesis =>
      obtain ⟨-, resumes⟩ := open_resumable path ⟨disk, crashAt calls 0⟩ (wholeCalls_crashAt calls)
      have first := resumes aligned
      exact first.trans (inductionHypothesis first.aligned)

/-- Recovery is idempotent: however often it was stopped, running it to its end leaves the
files of one run, and after that nothing is recovered and nothing changes. -/
theorem recovery_idempotent (path : String) {disk : Disk} (aligned : disk.Aligned)
    (stops : List Nat) :
    (Pager.open path ⟨stoppedOpenings path stops disk, []⟩).2.disk =
        (Pager.open path ⟨disk, []⟩).2.disk ∧
      (Wal.recover ⟨Wal.opened, (Pager.open path ⟨disk, []⟩).2.disk.log, []⟩).1 = .ok [] ∧
      (Pager.open path ⟨(Pager.open path ⟨disk, []⟩).2.disk, []⟩).2.disk =
        (Pager.open path ⟨disk, []⟩).2.disk := by
  have resumes := stoppedOpenings_resumes path stops aligned
  have recovered := resumes_recovered aligned
  rw [open_ok path aligned, open_ok path resumes.aligned]
  refine ⟨resumes.recovered, ?_, ?_⟩
  · rw [@recover_ok ⟨Wal.opened, disk.recovered.log, []⟩ rfl]
    by_cases none : recoveredRecords disk.log = []
    · rw [show disk.recovered = disk from if_pos none]
      exact congrArg Except.ok none
    · have emptied : disk.recovered.log = [] := by
        unfold Disk.recovered
        rw [if_neg none]
      rw [emptied]
      rfl
  · dsimp only
    rw [open_ok path recovered.aligned]
    exact recovered.recovered

/-- A log with a page past the end of the file, stopped twice in its replay. -/
theorem recovery_idempotent_grown :
    (Pager.open "t.db" ⟨stoppedOpenings "t.db" [8, 11]
        ⟨[], Wal.pageRecord 0 1 Page.zero ++ Wal.commitRecord 0⟩, []⟩).2.disk =
      (Pager.open "t.db" ⟨⟨[], Wal.pageRecord 0 1 Page.zero ++ Wal.commitRecord 0⟩, []⟩).2.disk :=
  (@recovery_idempotent "t.db" ⟨[], Wal.pageRecord 0 1 Page.zero ++ Wal.commitRecord 0⟩ rfl
    [8, 11]).1

end Pager

end MukhiDb.Model
