import MukhiDb.Pager.DiskPages
import MukhiDb.Wal.Recovery

/-!
Contract: opening a table file when every I/O call succeeds.

Owns: the file that opening leaves, which is the old one with the recovered page
writes applied in log order; the outcome of `Pager::open` for every file and log;
and the freshly opened pager, which reads as its file.

Does not own: how the log came about.
-/

namespace MukhiDb.Model

open MukhiDb.Foundation

/-- The page writes of recovered records. -/
def WalRecord.write (record : WalRecord) : Nat × Page := (record.pageNum, record.data)

/-- The files after recovery: a log without committed records is left alone. -/
def Disk.recovered (disk : Disk) : Disk :=
  if recoveredRecords disk.log = [] then disk
  else ⟨(disk.putAll ((recoveredRecords disk.log).map WalRecord.write)).db, []⟩

namespace Pager

/-- A freshly opened pager: nothing is cached. -/
def fresh (fileLength : Nat) : Pager :=
  ⟨fileLength, fun _ => none, fun _ => false, Wal.opened, false⟩

theorem replay_ok (disk : Disk) (records : List WalRecord) :
    replay records ⟨disk, []⟩ = (.ok (), ⟨disk.putAll (records.map WalRecord.write), []⟩) := by
  induction records generalizing disk with
  | nil => rfl
  | cons record rest inductionHypothesis =>
      unfold replay
      have touched : DiskIo.onFile Medium.touch ⟨disk, []⟩ = (.ok (), ⟨disk, []⟩) := rfl
      have written : DiskIo.onFile
          (Medium.writeAt (record.pageNum * pageSize) record.data.bytes) ⟨disk, []⟩ =
          (.ok (), ⟨disk.put record.pageNum record.data, []⟩) := rfl
      rw [Exec.bind_ok touched, Exec.bind_ok written, inductionHypothesis]
      rfl

theorem recoverFile_ok (disk : Disk) :
    recoverFile ⟨disk, []⟩ = (.ok (), ⟨disk.recovered, []⟩) := by
  have recovered : DiskIo.onWal Wal.recover ⟨disk, []⟩ =
      (.ok (recoveredRecords disk.log), ⟨disk, []⟩) := by
    unfold DiskIo.onWal
    rw [Exec.run_zoom, @recover_ok ⟨Wal.opened, disk.log, []⟩ rfl]
  unfold recoverFile Disk.recovered
  rw [Exec.bind_ok recovered]
  split
  · rfl
  · have opened (disk : Disk) :
        DiskIo.onFile (Medium.openFile id) ⟨disk, []⟩ = (.ok (), ⟨disk, []⟩) := rfl
    have touched (disk : Disk) :
        DiskIo.onFile Medium.touch ⟨disk, []⟩ = (.ok (), ⟨disk, []⟩) := rfl
    rw [Exec.bind_ok (opened disk), Exec.bind_ok (replay_ok disk _), Exec.bind_ok (touched _)]
    rfl

/-- Opening a file of whole pages succeeds. -/
theorem open_ok (path : String) {disk : Disk} (aligned : disk.Aligned) :
    Pager.open path ⟨disk, []⟩ =
      (.ok (fresh disk.recovered.db.length), ⟨disk.recovered, []⟩) := by
  have opened (describe : String → String) :
      DiskIo.onFile (Medium.openFile describe) ⟨disk, []⟩ = (.ok (), ⟨disk, []⟩) := rfl
  have lengths (disk : Disk) :
      DiskIo.onFile Medium.length ⟨disk, []⟩ = (.ok disk.db.length, ⟨disk, []⟩) := rfl
  have openedLog (describe : String → String) :
      DiskIo.onWal (Wal.onLog (Medium.openFile describe)) ⟨disk, []⟩ = (.ok (), ⟨disk, []⟩) := rfl
  unfold Pager.open
  rw [Exec.bind_ok (opened _), Exec.bind_ok (lengths disk),
    if_pos (show disk.db.length % pageSize = 0 from aligned), Exec.bind_ok (openedLog _),
    Exec.bind_ok (recoverFile_ok disk), Exec.bind_ok (lengths _)]
  rfl

/-- Opening a file that ends inside a page is refused, before the log is looked at. -/
theorem open_misaligned (path : String) {disk : Disk} (misaligned : ¬ disk.Aligned) :
    Pager.open path ⟨disk, []⟩ =
      (.error (.error
        s!"Corrupt file '{path}': length {disk.db.length} not a multiple of {pageSize}"),
        ⟨disk, []⟩) := by
  have opened (describe : String → String) :
      DiskIo.onFile (Medium.openFile describe) ⟨disk, []⟩ = (.ok (), ⟨disk, []⟩) := rfl
  have lengths : DiskIo.onFile Medium.length ⟨disk, []⟩ = (.ok disk.db.length, ⟨disk, []⟩) := rfl
  unfold Pager.open
  rw [Exec.bind_ok (opened _), Exec.bind_ok lengths,
    if_neg (show ¬ disk.db.length % pageSize = 0 from misaligned)]
  rfl

/-- What a successful opening means. -/
theorem open_eq_ok {path : String} {disk : Disk} {pager : Pager} {after : DiskIo}
    (opened : Pager.open path ⟨disk, []⟩ = (.ok pager, after)) :
    disk.Aligned ∧ pager = fresh disk.recovered.db.length ∧ after = ⟨disk.recovered, []⟩ := by
  by_cases aligned : disk.Aligned
  · rw [open_ok path aligned] at opened
    simp only [Prod.mk.injEq, Except.ok.injEq] at opened
    exact ⟨aligned, opened.1.symm, opened.2.symm⟩
  · rw [open_misaligned path aligned] at opened
    simp at opened

end Pager

theorem Disk.Aligned.recovered {disk : Disk} (aligned : disk.Aligned) :
    disk.recovered.Aligned := by
  unfold Disk.recovered
  split
  · exact aligned
  · exact aligned.putAll _

/-- Nothing is recovered from an empty log. -/
theorem Disk.recovered_of_empty {disk : Disk} (empty : disk.log = []) : disk.recovered = disk := by
  unfold Disk.recovered
  rw [empty]
  exact if_pos rfl

/-- Nothing is recovered twice. -/
theorem Disk.recovered_recovered (disk : Disk) : disk.recovered.recovered = disk.recovered := by
  by_cases none : recoveredRecords disk.log = []
  · have same : disk.recovered = disk := if_pos none
    rw [same, same]
  · apply Disk.recovered_of_empty
    unfold Disk.recovered
    rw [if_neg none]

/-- A fresh pager reads as its file. -/
theorem Pager.fresh_view (disk : Disk) (schedule : List IoOutcome) :
    (PagerIo.mk (Pager.fresh disk.db.length) disk schedule).view = disk.page := rfl

theorem Pager.fresh_coherent {disk : Disk} (aligned : disk.Aligned) (schedule : List IoOutcome) :
    (PagerIo.mk (Pager.fresh disk.db.length) disk schedule).Coherent where
  fileAligned := aligned
  lengthAligned := aligned
  longer := le_rfl
  clean := by
    intro index page cached
    exact absurd cached (by simp [Pager.fresh])
  dirtyCached := by
    intro index dirty
    exact absurd dirty (by simp [Pager.fresh])
  dirtyBelow := by
    intro index dirty
    exact absurd dirty (by simp [Pager.fresh])
  lastDirty := by
    intro grown
    exact absurd grown (lt_irrefl _)

end MukhiDb.Model
