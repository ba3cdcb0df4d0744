import MukhiDb.Pager.Reading
import MukhiDb.Pager.ReplayCrash

/-!
Contract: calls of a pager whatever happens to its I/O.

Owns: the fact that a value returned under some pattern of I/O outcomes is the one
that is returned when all I/O succeeds, with the same cache and the same files; and
the fact that opening, loading and committing fail only with an error value or
because the process was stopped.

Does not own: what is left after a failure.
-/

namespace MukhiDb.Model

open MukhiDb.Foundation

/-! ### Returned values -/

/-- A file whose coming calls all take effect. -/
def Medium.quieted (medium : Medium) : Medium := { medium with schedule := [] }

/-- A log whose coming calls all take effect. -/
def WalIo.quieted (state : WalIo) : WalIo := { state with schedule := [] }

/-- Files whose coming calls all take effect. -/
def DiskIo.quieted (state : DiskIo) : DiskIo := { state with schedule := [] }

/-- A pager whose coming calls all take effect. -/
def PagerIo.quieted (state : PagerIo) : PagerIo := { state with schedule := [] }

theorem PagerIo.quieted_quiet (state : PagerIo) : state.quieted.Quiet := rfl

theorem oblivious_perform (describe : String → String) (partway : Nat → Bytes → Bytes)
    (whole : Bytes → Bytes) :
    Exec.Oblivious Medium.quieted (Medium.perform describe partway whole) := by
  rintro ⟨bytes, schedule⟩ after value ran
  match schedule with
  | [] | .done :: _ =>
      cases ran
      rfl
  | .failed _ _ :: _ | .stopped _ :: _ => cases ran

theorem oblivious_length : Exec.Oblivious Medium.quieted Medium.length :=
  (oblivious_perform _ _ _).bind fun _ =>
    Exec.Oblivious.getBind (by intro _; rfl) fun _ => Exec.Oblivious.pure _

theorem oblivious_readAt (offset count : Nat) :
    Exec.Oblivious Medium.quieted (Medium.readAt offset count) :=
  (oblivious_perform _ _ _).bind fun _ =>
    Exec.Oblivious.getBind (by intro _; rfl) fun _ => Exec.Oblivious.pure _

section Parts

variable {α : Type}

theorem oblivious_onLog {call : Exec Medium α} (oblivious : Exec.Oblivious Medium.quieted call) :
    Exec.Oblivious WalIo.quieted (Wal.onLog call) :=
  Exec.Oblivious.zoom (fun _ => rfl) (fun _ _ => rfl) oblivious

theorem DiskIo.oblivious_onFile {call : Exec Medium α}
    (oblivious : Exec.Oblivious Medium.quieted call) :
    Exec.Oblivious DiskIo.quieted (DiskIo.onFile call) :=
  Exec.Oblivious.zoom (fun _ => rfl) (fun _ _ => rfl) oblivious

theorem DiskIo.oblivious_onWal {call : Exec WalIo α}
    (oblivious : Exec.Oblivious WalIo.quieted call) :
    Exec.Oblivious DiskIo.quieted (DiskIo.onWal call) :=
  Exec.Oblivious.zoom (fun _ => rfl) (fun _ _ => rfl) oblivious

theorem PagerIo.oblivious_onFile {call : Exec Medium α}
    (oblivious : Exec.Oblivious Medium.quieted call) :
    Exec.Oblivious PagerIo.quieted (PagerIo.onFile call) :=
  Exec.Oblivious.zoom (fun _ => rfl) (fun _ _ => rfl) oblivious

theorem PagerIo.oblivious_onWal {call : Exec WalIo α}
    (oblivious : Exec.Oblivious WalIo.quieted call) :
    Exec.Oblivious PagerIo.quieted (PagerIo.onWal call) :=
  Exec.Oblivious.zoom (fun _ => rfl) (fun _ _ => rfl) oblivious

end Parts

theorem oblivious_appendPage (pageNum : Nat) (data : Page) :
    Exec.Oblivious WalIo.quieted (Wal.appendPage pageNum data) :=
  Exec.Oblivious.getBind (by intro _; rfl) fun _ =>
    (oblivious_onLog (oblivious_perform _ _ _)).bind fun _ =>
      oblivious_onLog (oblivious_perform _ _ _)

theorem oblivious_appendCommit : Exec.Oblivious WalIo.quieted Wal.appendCommit :=
  Exec.Oblivious.getBind (by intro _; rfl) fun _ =>
    (oblivious_onLog (oblivious_perform _ _ _)).bind fun _ =>
      (oblivious_onLog (oblivious_perform _ _ _)).bind fun _ =>
        (oblivious_onLog (oblivious_perform _ _ _)).bind fun _ =>
          Exec.Oblivious.modify (by intro _; rfl)

theorem oblivious_truncate : Exec.Oblivious WalIo.quieted Wal.truncate :=
  (oblivious_onLog (oblivious_perform _ _ _)).bind fun _ =>
    oblivious_onLog (oblivious_perform _ _ _)

namespace Pager

theorem oblivious_replay (records : List WalRecord) :
    Exec.Oblivious DiskIo.quieted (replay records) := by
  induction records with
  | nil => exact Exec.Oblivious.pure ()
  | cons record rest inductionHypothesis =>
      exact (DiskIo.oblivious_onFile (oblivious_perform _ _ _)).bind fun _ =>
        (DiskIo.oblivious_onFile (oblivious_perform _ _ _)).bind fun _ => inductionHypothesis

theorem oblivious_recoverFile : Exec.Oblivious DiskIo.quieted recoverFile := by
  apply (DiskIo.oblivious_onWal Insensitive.recover).bind
  intro records
  split
  · exact Exec.Oblivious.pure ()
  · exact (DiskIo.oblivious_onFile (oblivious_perform _ _ _)).bind fun _ =>
      (oblivious_replay records).bind fun _ =>
        (DiskIo.oblivious_onFile (oblivious_perform _ _ _)).bind fun _ =>
          DiskIo.oblivious_onWal oblivious_truncate

theorem oblivious_open (path : String) : Exec.Oblivious DiskIo.quieted (Pager.open path) := by
  apply (DiskIo.oblivious_onFile (oblivious_perform _ _ _)).bind
  intro _
  apply (DiskIo.oblivious_onFile oblivious_length).bind
  intro fileLength
  split
  · exact (DiskIo.oblivious_onWal (oblivious_onLog (oblivious_perform _ _ _))).bind fun _ =>
      oblivious_recoverFile.bind fun _ =>
        (DiskIo.oblivious_onFile oblivious_length).bind fun _ => Exec.Oblivious.pure _
  · exact Exec.Oblivious.throw _

/-- What an opening returned is what the files read as. -/
theorem open_returned {path : String} {disk : Disk} {schedule : List IoOutcome} {pager : Pager}
    {after : DiskIo} (ran : Pager.open path ⟨disk, schedule⟩ = (.ok pager, after)) :
    disk.Aligned ∧ pager = fresh disk.recovered.db.length ∧ after.disk = disk.recovered := by
  have quiet := oblivious_open path ⟨disk, schedule⟩ after pager ran
  obtain ⟨aligned, rfl, same⟩ := open_eq_ok quiet
  exact ⟨aligned, rfl, congrArg DiskIo.disk same⟩

theorem oblivious_fetch (index : Nat) : Exec.Oblivious PagerIo.quieted (fetch index) := by
  apply Exec.Oblivious.getBind (by intro _; rfl)
  intro state
  split
  · apply (PagerIo.oblivious_onFile (oblivious_perform _ _ _)).bind
    intro _
    apply (PagerIo.oblivious_onFile (oblivious_readAt _ _)).bind
    intro found
    cases found with
    | none => exact Exec.Oblivious.throw _
    | some bytes =>
        dsimp only
        split
        · exact Exec.Oblivious.pure _
        · exact Exec.Oblivious.throw _
  · exact Exec.Oblivious.pure _

theorem oblivious_loadPage (index : Nat) : Exec.Oblivious PagerIo.quieted (loadPage index) := by
  unfold loadPage
  split
  · exact Exec.Oblivious.throw _
  · apply Exec.Oblivious.getBind (by intro _; rfl)
    intro state
    rcases state.pager.pages index with _ | page
    · exact (oblivious_fetch index).bind fun page =>
        (Exec.Oblivious.modify (by intro _; rfl)).bind fun _ => Exec.Oblivious.pure _
    · exact Exec.Oblivious.pure _

theorem oblivious_getPageMut (index : Nat) : Exec.Oblivious PagerIo.quieted (getPageMut index) :=
  (oblivious_loadPage index).bind fun _ =>
    (Exec.Oblivious.modify (by intro _; rfl)).bind fun _ => Exec.Oblivious.pure _

theorem oblivious_modifyPage (index : Nat) (change : Page → Except Fault Page) :
    Exec.Oblivious PagerIo.quieted (modifyPage index change) :=
  (oblivious_getPageMut index).bind fun _ =>
    (Exec.Oblivious.ofExcept _).bind fun _ => Exec.Oblivious.modify (by intro _; rfl)

theorem oblivious_allocatePage : Exec.Oblivious PagerIo.quieted allocatePage :=
  Exec.Oblivious.getBind (by intro _; rfl) fun _ =>
    (oblivious_getPageMut _).bind fun _ => Exec.Oblivious.pure _

theorem oblivious_pages {α : Type} (program : PageProgram α) :
    Exec.Oblivious PagerIo.quieted (Pager.perform program) :=
  Program.oblivious oblivious_loadPage oblivious_modifyPage oblivious_allocatePage program

theorem oblivious_logDirty (indices : List Nat) :
    Exec.Oblivious PagerIo.quieted (logDirty indices) := by
  induction indices with
  | nil => exact Exec.Oblivious.pure ()
  | cons index rest inductionHypothesis =>
      apply Exec.Oblivious.getBind (by intro _; rfl)
      intro state
      split
      · rcases state.pager.pages index with _ | page
        · exact inductionHypothesis
        · exact (PagerIo.oblivious_onWal (oblivious_appendPage index page)).bind fun _ =>
            inductionHypothesis
      · exact inductionHypothesis

theorem oblivious_applyDirty (indices : List Nat) :
    Exec.Oblivious PagerIo.quieted (applyDirty indices) := by
  induction indices with
  | nil => exact Exec.Oblivious.pure ()
  | cons index rest inductionHypothesis =>
      apply Exec.Oblivious.getBind (by intro _; rfl)
      intro state
      split
      · rcases state.pager.pages index with _ | page
        · exact inductionHypothesis
        · exact (PagerIo.oblivious_onFile (oblivious_perform _ _ _)).bind fun _ =>
            (PagerIo.oblivious_onFile (oblivious_perform _ _ _)).bind fun _ =>
              (Exec.Oblivious.modify (by intro _; rfl)).bind fun _ => inductionHypothesis
      · exact inductionHypothesis

theorem oblivious_commit : Exec.Oblivious PagerIo.quieted commit :=
  (oblivious_logDirty _).bind fun _ =>
    (PagerIo.oblivious_onWal oblivious_appendCommit).bind fun _ =>
      (oblivious_applyDirty _).bind fun _ =>
        (PagerIo.oblivious_onFile (oblivious_perform _ _ _)).bind fun _ =>
          (PagerIo.oblivious_onFile (oblivious_perform _ _ _)).bind fun _ =>
            (PagerIo.oblivious_onWal oblivious_truncate).bind fun _ =>
              Exec.Oblivious.modify (by intro _; rfl)

end Pager

/-! ### Reported faults -/

theorem reports_perform (describe : String → String) (partway : Nat → Bytes → Bytes)
    (whole : Bytes → Bytes) : Exec.Reports (Medium.perform describe partway whole) := by
  rintro ⟨bytes, schedule⟩ after fault ran
  match schedule with
  | [] | .done :: _ => cases ran
  | .failed _ _ :: _ | .stopped _ :: _ =>
      cases ran
      exact ⟨nofun, nofun⟩

theorem reports_length : Exec.Reports Medium.length :=
  (reports_perform _ _ _).bind fun _ => Exec.Reports.get.bind fun _ => Exec.Reports.pure _

theorem reports_readAt (offset count : Nat) : Exec.Reports (Medium.readAt offset count) :=
  (reports_perform _ _ _).bind fun _ => Exec.Reports.get.bind fun _ => Exec.Reports.pure _

theorem reports_truncate : Exec.Reports Wal.truncate :=
  (reports_perform _ _ _).zoom.bind fun _ => (reports_perform _ _ _).zoom

theorem reports_appendPage (pageNum : Nat) (data : Page) :
    Exec.Reports (Wal.appendPage pageNum data) :=
  Exec.Reports.get.bind fun _ => (reports_perform _ _ _).zoom.bind fun _ =>
    (reports_perform _ _ _).zoom

theorem reports_appendCommit : Exec.Reports Wal.appendCommit :=
  Exec.Reports.get.bind fun _ => (reports_perform _ _ _).zoom.bind fun _ =>
    (reports_perform _ _ _).zoom.bind fun _ => (reports_perform _ _ _).zoom.bind fun _ =>
      Exec.Reports.modify _

theorem onLog_readAt_some {offset : Nat} {state after : WalIo} {record : Bytes}
    (ran : Wal.onLog (Medium.readAt offset recordSize) state = (.ok (some record), after)) :
    offset + recordSize ≤ state.log.length := by
  have quiet : (Medium.readAt offset recordSize ⟨state.log, []⟩).1 = .ok (some record) :=
    congrArg Prod.fst (oblivious_onLog (oblivious_readAt offset recordSize) state after _ ran)
  rw [@Medium.readAt_ok ⟨state.log, []⟩ rfl] at quiet
  by_contra beyond
  rw [if_neg beyond] at quiet
  cases quiet

/-- The loop of recovery ends: it has a unit of fuel for each record of the log, and one
more. -/
theorem recoverLoop_reported {fuel offset : Nat} {found : Wal.Scan} {state after : WalIo}
    {fault : Fault} (inside : offset ≤ state.log.length)
    (enough : state.log.length < offset + fuel * recordSize)
    (ran : Wal.recoverLoop fuel offset found state = (.error fault, after)) :
    fault ≠ .panic ∧ fault ≠ .diverge := by
  induction fuel generalizing offset found state with
  | zero => omega
  | succ fuel inductionHypothesis =>
      unfold Wal.recoverLoop at ran
      rcases Exec.bind_eq_error.mp ran with stopped | ⟨value, between, read, ran⟩
      · exact (reports_readAt offset recordSize).zoom _ _ _ stopped
      · cases value with
        | none => cases ran
        | some record =>
            have within := onLog_readAt_some read
            have same : between.log = state.log := by
              rw [show between = (Wal.onLog (Medium.readAt offset recordSize) state).2 by rw [read]]
              exact (untouched_readAt offset recordSize ⟨state.log, state.schedule⟩).1
            rw [Nat.succ_mul] at enough
            exact inductionHypothesis (by rw [same]; exact within) (by rw [same]; omega) ran

theorem reports_recover : Exec.Reports Wal.recover := by
  intro state after fault ran
  have size := recordSize_pos
  unfold Wal.recover at ran
  rcases Exec.bind_eq_error.mp ran with stopped | ⟨len, measured, length, ran⟩
  · exact reports_length.zoom _ _ _ stopped
  · have same : measured.log = state.log := by
      rw [show measured = (Wal.onLog Medium.length state).2 by rw [length]]
      exact (untouched_length ⟨state.log, state.schedule⟩).1
    have whole : len = state.log.length := by
      have quiet : (Medium.length ⟨state.log, []⟩).1 = .ok len :=
        congrArg Prod.fst (oblivious_onLog oblivious_length state measured _ length)
      rw [@Medium.length_ok ⟨state.log, []⟩ rfl] at quiet
      exact (Except.ok.inj quiet).symm
    by_cases empty : len = 0
    · rw [if_pos empty] at ran
      cases ran
    · rw [if_neg empty] at ran
      rcases Exec.bind_eq_error.mp ran with stopped | ⟨_, sought, seek, ran⟩
      · exact (reports_perform _ _ _).zoom _ _ _ stopped
      · have still : sought.log = measured.log := by
          rw [show sought = (Wal.onLog Medium.touch measured).2 by rw [seek]]
          exact (untouched_touch id ⟨measured.log, measured.schedule⟩).1
        rcases Exec.bind_eq_error.mp ran with stopped | ⟨found, last, looped, ran⟩
        · refine recoverLoop_reported (Nat.zero_le _) ?_ stopped
          rw [still, same, ← whole, Nat.zero_add]
          exact Nat.lt_of_lt_of_le (Nat.lt_succ_self _) (Nat.le_mul_of_pos_right _ size)
        · cases ran

namespace Pager

theorem reports_replay (records : List WalRecord) : Exec.Reports (replay records) := by
  induction records with
  | nil => exact Exec.Reports.pure ()
  | cons record rest inductionHypothesis =>
      exact (reports_perform _ _ _).zoom.bind fun _ => (reports_perform _ _ _).zoom.bind fun _ =>
        inductionHypothesis

theorem reports_recoverFile : Exec.Reports recoverFile := by
  apply reports_recover.zoom.bind
  intro records
  split
  · exact Exec.Reports.pure ()
  · exact (reports_perform _ _ _).zoom.bind fun _ => (reports_replay records).bind fun _ =>
      (reports_perform _ _ _).zoom.bind fun _ => reports_truncate.zoom

/-- Opening reports what goes wrong. -/
theorem reports_open (path : String) : Exec.Reports (Pager.open path) := by
  apply (reports_perform _ _ _).zoom.bind
  intro _
  apply reports_length.zoom.bind
  intro fileLength
  split
  · exact (reports_perform _ _ _).zoom.zoom.bind fun _ => reports_recoverFile.bind fun _ =>
      reports_length.zoom.bind fun _ => Exec.Reports.pure _
  · exact Exec.Reports.throw ⟨nofun, nofun⟩

theorem reports_fetch (index : Nat) : Exec.Reports (fetch index) := by
  apply Exec.Reports.get.bind
  intro state
  split
  · apply (reports_perform _ _ _).zoom.bind
    intro _
    refine @Exec.Reports.bindOf _ _ _ _ _
      (fun found => ∀ bytes, found = some bytes → bytes.length = pageSize)
      (reports_readAt _ _).zoom ?_ ?_
    · intro before after found ran bytes held
      have value := PagerIo.onFile_readAt_ok ran
      rw [held] at value
      split at value
      · next fits =>
          rw [Option.some.inj value]
          exact slice_length fits
      · cases value
    · intro found size
      cases found with
      | none =>
          refine Exec.Reports.throw ⟨fun same => ?_, fun same => ?_⟩
          · cases same
          · cases same
      | some bytes =>
          dsimp only
          rw [dif_pos (size bytes rfl)]
          exact Exec.Reports.pure _
  · exact Exec.Reports.pure _

/-- Loading a page reports what goes wrong. -/
theorem reports_loadPage (index : Nat) : Exec.Reports (loadPage index) := by
  unfold loadPage
  split
  · exact Exec.Reports.throw ⟨nofun, nofun⟩
  · apply Exec.Reports.get.bind
    intro state
    rcases state.pager.pages index with _ | page
    · exact (reports_fetch index).bind fun page => (Exec.Reports.modify _).bind fun _ =>
        Exec.Reports.pure _
    · exact Exec.Reports.pure _

theorem reports_getPageMut (index : Nat) : Exec.Reports (getPageMut index) :=
  (reports_loadPage index).bind fun _ => (Exec.Reports.modify _).bind fun _ => Exec.Reports.pure _

theorem reports_modifyPage (index : Nat) {change : Page → Except Fault Page}
    (changes : ∀ page, ∃ after, change page = .ok after) :
    Exec.Reports (modifyPage index change) := by
  apply (reports_getPageMut index).bind
  intro page
  obtain ⟨after, changed⟩ := changes page
  rw [changed]
  exact (Exec.Reports.of_returns fun _ => ⟨after, rfl⟩).bind fun _ => Exec.Reports.modify _

theorem reports_allocatePage : Exec.Reports allocatePage :=
  Exec.Reports.get.bind fun _ => (reports_getPageMut _).bind fun _ => Exec.Reports.pure _

theorem reports_logDirty (indices : List Nat) : Exec.Reports (logDirty indices) := by
  induction indices with
  | nil => exact Exec.Reports.pure ()
  | cons index rest inductionHypothesis =>
      apply Exec.Reports.get.bind
      intro state
      split
      · rcases state.pager.pages index with _ | page
        · exact inductionHypothesis
        · exact (reports_appendPage index page).zoom.bind fun _ => inductionHypothesis
      · exact inductionHypothesis

theorem reports_applyDirty (indices : List Nat) : Exec.Reports (applyDirty indices) := by
  induction indices with
  | nil => exact Exec.Reports.pure ()
  | cons index rest inductionHypothesis =>
      apply Exec.Reports.get.bind
      intro state
      split
      · rcases state.pager.pages index with _ | page
        · exact inductionHypothesis
        · exact (reports_perform _ _ _).zoom.bind fun _ => (reports_perform _ _ _).zoom.bind fun _ =>
            (Exec.Reports.modify _).bind fun _ => inductionHypothesis
      · exact inductionHypothesis

/-- Committing reports what goes wrong. -/
theorem reports_commit : Exec.Reports commit :=
  (reports_logDirty _).bind fun _ => reports_appendCommit.zoom.bind fun _ =>
    (reports_applyDirty _).bind fun _ => (reports_perform _ _ _).zoom.bind fun _ =>
      (reports_perform _ _ _).zoom.bind fun _ => reports_truncate.zoom.bind fun _ =>
        Exec.Reports.modify _

end Pager

end MukhiDb.Model
