import MukhiDb.Foundation.Stopping
import MukhiDb.Pager.Failures
import MukhiDb.Pager.History
import MukhiDb.Pager.Outcomes

/-!
Contract: calls of a pager in a process that is stopped.

Owns: that the calls which do not commit, and a rollback, leave the files alone or empty the log,
wherever they are cut off; that a commit which is cut off leaves files that recovery makes into
the old ones or into the committed ones; and that it is one of the two, byte for byte.

Does not own: writes that take effect in part.
-/

namespace MukhiDb.Model

open MukhiDb.Foundation

/-! ### Calls that do not commit -/

/-- The stops of a process that works on a log. -/
def WalIo.stopping : Stopping WalIo where
  quiet state := state.schedule = []
  after calls state := { state with schedule := crashAt calls 0 }

/-- The stops of a process that works on the files of a table. -/
def PagerIo.stopping : Stopping PagerIo where
  quiet := PagerIo.Quiet
  after calls state := { state with schedule := crashAt calls 0 }

/-- The file has the same bytes. -/
def Medium.Same (before after : Medium) : Prop := after.bytes = before.bytes

theorem Medium.Same.refl (medium : Medium) : Medium.Same medium medium := rfl

theorem Medium.Same.trans (first second third : Medium) (left : Medium.Same first second)
    (right : Medium.Same second third) : Medium.Same first third := Eq.trans right left

theorem spares_touch : Exec.Spares Medium.stopping Medium.Same Medium.touch :=
  Medium.spares_perform (fun _ _ => rfl) fun _ _ => rfl

theorem spares_readAt (offset count : Nat) :
    Exec.Spares Medium.stopping Medium.Same (Medium.readAt offset count) :=
  Exec.Spares.bind Medium.Same.trans spares_touch fun _ =>
    Exec.Spares.getBind (fun _ _ => rfl) fun _ => Exec.Spares.pure Medium.Same.refl _

theorem spares_length : Exec.Spares Medium.stopping Medium.Same Medium.length :=
  Exec.Spares.bind Medium.Same.trans spares_touch fun _ =>
    Exec.Spares.getBind (fun _ _ => rfl) fun _ => Exec.Spares.pure Medium.Same.refl _

/-- The log is the same or empty. -/
def WalIo.Dropped (before after : WalIo) : Prop := after.log = before.log ∨ after.log = []

theorem spares_onLog {call : Exec Medium Unit} {keeps : Medium → Medium → Prop}
    (spares : Exec.Spares Medium.stopping keeps call)
    (implies : ∀ before after, keeps before after → after.bytes = before.bytes ∨ after.bytes = []) :
    Exec.Spares WalIo.stopping WalIo.Dropped (Wal.onLog call) :=
  Exec.Spares.zoom (fun _ quiet => quiet) (fun _ _ quiet => quiet) (fun _ _ => rfl)
    (fun _ _ _ _ => rfl) (fun _ _ same => implies _ _ same) (fun _ _ _ kept => kept) spares

theorem spares_clear :
    Exec.Spares Medium.stopping (fun before after => after.bytes = before.bytes ∨ after.bytes = [])
      Medium.clear :=
  Medium.spares_perform (fun _ _ => Or.inr rfl) fun _ _ => Or.inl rfl

theorem spares_truncate : Exec.Spares WalIo.stopping WalIo.Dropped Wal.truncate := by
  refine Exec.Spares.bind ?_ (spares_onLog spares_clear fun _ _ => id) fun _ =>
    spares_onLog spares_touch fun _ _ => Or.inl
  intro first second third left right
  rcases right with same | none
  · exact left.imp same.trans same.trans
  · exact Or.inr none

namespace PagerIo

theorem LogDropped.refl (state : PagerIo) : LogDropped state state := Or.inl rfl

theorem LogDropped.transitive (first second third : PagerIo) (left : LogDropped first second)
    (right : LogDropped second third) : LogDropped first third := left.trans right

/-- A call on the `.db` file that changes no byte. -/
theorem spares_onFile {α : Type} {call : Exec Medium α}
    (spares : Exec.Spares Medium.stopping Medium.Same call) :
    Exec.Spares stopping LogDropped (onFile call) := by
  refine Exec.Spares.zoom (fun _ quiet => quiet) (fun _ _ quiet => quiet) (fun _ _ => rfl)
    (fun _ _ _ _ => rfl) (fun part state same => Or.inl ?_) (fun _ _ _ kept => kept) spares
  exact congrArg (Disk.mk · state.disk.log) same

/-- A call on the log that leaves it alone or empties it. -/
theorem spares_onWal {α : Type} {call : Exec WalIo α}
    (spares : Exec.Spares WalIo.stopping WalIo.Dropped call) :
    Exec.Spares stopping LogDropped (onWal call) := by
  refine Exec.Spares.zoom (fun _ quiet => quiet) (fun _ _ quiet => quiet) (fun _ _ => rfl)
    (fun _ _ _ _ => rfl) (fun part state same => ?_) (fun _ _ _ kept => kept) spares
  exact same.imp (congrArg (Disk.mk state.disk.db)) (congrArg (Disk.mk state.disk.db))

/-- A step without I/O that leaves the files alone. -/
theorem spares_modify {change : PagerIo → PagerIo} (disk : ∀ state, (change state).disk = state.disk)
    (commutes : ∀ calls state, change (stopping.after calls state) = stopping.after calls (change state))
    (quiet : ∀ state, state.Quiet → (change state).Quiet) :
    Exec.Spares stopping LogDropped (Exec.modify change) :=
  Exec.Spares.modify quiet (fun state => Or.inl (disk state)) commutes

theorem spares_fetch (index : Nat) : Exec.Spares stopping LogDropped (Pager.fetch index) := by
  refine Exec.Spares.getBind (fun _ _ => rfl) fun state => ?_
  split
  · refine Exec.Spares.bind LogDropped.transitive (spares_onFile spares_touch) fun _ => ?_
    refine Exec.Spares.bind LogDropped.transitive (spares_onFile (spares_readAt _ _)) fun found => ?_
    cases found with
    | none => exact Exec.Spares.throw LogDropped.refl _
    | some bytes =>
        dsimp only
        split
        · exact Exec.Spares.pure LogDropped.refl _
        · exact Exec.Spares.throw LogDropped.refl _
  · exact Exec.Spares.pure LogDropped.refl _

theorem spares_loadPage (index : Nat) : Exec.Spares stopping LogDropped (Pager.loadPage index) := by
  unfold Pager.loadPage
  split
  · exact Exec.Spares.throw LogDropped.refl _
  · refine Exec.Spares.getBind (fun _ _ => rfl) fun state => ?_
    rcases state.pager.pages index with _ | page
    · refine Exec.Spares.bind LogDropped.transitive (spares_fetch index) fun page => ?_
      refine Exec.Spares.bind LogDropped.transitive ?_ fun _ => Exec.Spares.pure LogDropped.refl _
      exact spares_modify (fun _ => rfl) (fun _ _ => rfl) fun _ quiet => quiet
    · exact Exec.Spares.pure LogDropped.refl _

theorem spares_getPageMut (index : Nat) : Exec.Spares stopping LogDropped (Pager.getPageMut index) := by
  refine Exec.Spares.bind LogDropped.transitive (spares_loadPage index) fun page => ?_
  refine Exec.Spares.bind LogDropped.transitive ?_ fun _ => Exec.Spares.pure LogDropped.refl _
  exact spares_modify (fun _ => rfl) (fun _ _ => rfl) fun _ quiet => quiet

theorem spares_modifyPage (index : Nat) (change : Page → Except Fault Page) :
    Exec.Spares stopping LogDropped (Pager.modifyPage index change) := by
  refine Exec.Spares.bind LogDropped.transitive (spares_getPageMut index) fun page => ?_
  refine Exec.Spares.bind LogDropped.transitive (Exec.Spares.ofExcept LogDropped.refl _) fun _ => ?_
  exact spares_modify (fun _ => rfl) (fun _ _ => rfl) fun _ quiet => quiet

theorem spares_allocatePage : Exec.Spares stopping LogDropped Pager.allocatePage :=
  Exec.Spares.getBind (fun _ _ => rfl) fun _ =>
    Exec.Spares.bind LogDropped.transitive (spares_getPageMut _) fun _ =>
      Exec.Spares.pure LogDropped.refl _

/-- Page programs leave the files alone, wherever they are cut off. -/
theorem spares_perform {α : Type} (program : PageProgram α) :
    Exec.Spares stopping LogDropped (Pager.perform program) :=
  Program.spares LogDropped.refl LogDropped.transitive spares_loadPage spares_modifyPage
    spares_allocatePage program

/-- A rollback empties the log at most. -/
theorem spares_rollback : Exec.Spares stopping LogDropped Pager.rollback := by
  unfold Pager.rollback
  refine Exec.Spares.bind LogDropped.transitive ?_ fun _ => ?_
  · exact spares_modify (fun _ => rfl) (fun _ _ => rfl) fun _ quiet => quiet
  refine Exec.Spares.bind LogDropped.transitive (spares_onFile spares_length) fun length => ?_
  refine Exec.Spares.bind LogDropped.transitive ?_ fun _ => ?_
  · exact spares_modify (fun _ => rfl) (fun _ _ => rfl) fun _ quiet => quiet
  refine Exec.Spares.bind LogDropped.transitive (spares_onWal spares_truncate) fun _ => ?_
  exact spares_modify (fun _ => rfl) (fun _ _ => rfl) fun _ quiet => quiet

theorem spares_begin : Exec.Spares stopping LogDropped Pager.begin := by
  refine Exec.Spares.getBind (fun _ _ => rfl) fun state => ?_
  split
  · exact Exec.Spares.throw LogDropped.refl _
  · exact spares_modify (fun _ => rfl) (fun _ _ => rfl) fun _ quiet => quiet

end PagerIo

/-! ### Commits -/

/-- A log that ends with a whole record and holds nothing to recover. -/
def IdleLog (log : Bytes) : Prop := WholeLog log ∧ recoveredRecords log = []

theorem idleLog_nil : IdleLog [] := ⟨wholeLog_nil, by decide⟩

/-- Recovery leaves nothing to recover. -/
theorem idleLog_recovered {disk : Disk} (whole : WholeLog disk.log) : IdleLog disk.recovered.log := by
  unfold Disk.recovered
  split
  · next none => exact ⟨whole, none⟩
  · exact idleLog_nil

/-- What recovery leaves in the file. -/
theorem Disk.recovered_db (disk : Disk) :
    disk.recovered.db = (disk.putAll ((recoveredRecords disk.log).map WalRecord.write)).db := by
  unfold Disk.recovered
  split
  · next none =>
      rw [none]
      rfl
  · rfl

namespace PagerIo

variable {state : PagerIo}

/-- Without torn writes, a number of pages were written whole. -/
theorem stoppedWrites_take (disk : Disk) (writes : List (Nat × Page)) (calls : Nat) :
    ∃ count, stoppedWrites disk writes calls 0 = (disk.putAll (writes.take count)).db := by
  rcases stoppedWrites_cases disk writes calls 0 with ⟨count, whole, -⟩ | ⟨position, write, -, -, torn⟩
  · exact ⟨count, whole⟩
  · rw [Disk.tear_none] at torn
    exact ⟨position, torn⟩

/-- After a commit on an empty log was cut off, recovery gives the old file or the committed one. -/
theorem Coherent.crashed_file (coherent : state.Coherent) (empty : state.disk.log = []) (calls : Nat) :
    (state.crashed calls 0).Aligned ∧ WholeLog (state.crashed calls 0).log ∧
      (state.crashed calls 0).recovered.db =
        if Sealed state.commitWrites calls 0 then state.committed.disk.db else state.disk.db := by
  have aligned : state.disk.Aligned := coherent.fileAligned
  obtain ⟨count, written⟩ := stoppedWrites_take state.disk state.commitWrites
    (calls - (2 * state.commitWrites.length + 3))
  have whole := wholeLog_stopped wholeLog_nil state.pager.wal.txnId state.commitWrites calls
  have kept (early : calls ≤ 4 * state.commitWrites.length + 5) : state.crashed calls 0 =
      ⟨(state.disk.putAll (state.commitWrites.take count)).db,
        [] ++ stoppedAppends (txnRecords state.pager.wal.txnId state.commitWrites) calls 0⟩ := by
    unfold crashed
    rw [if_pos early, written, empty]
  have emptied (late : ¬ calls ≤ 4 * state.commitWrites.length + 5) :
      state.crashed calls 0 = state.committed.disk := by
    unfold crashed
    rw [if_neg late, stoppedWrites_all _ _ _ (by omega)]
    rfl
  have idle : recoveredRecords [] = [] := idleLog_nil.2
  by_cases early : calls ≤ 4 * state.commitWrites.length + 5
  · rw [kept early]
    refine ⟨aligned.putAll _, whole, ?_⟩
    by_cases late : Sealed state.commitWrites calls 0
    · rw [if_pos late]
      have small : ∀ write ∈ state.commitWrites, write.1 < 2 ^ 32 := fun write member =>
        (mem_commitWrites.mp member).1.trans (by decide)
      have fresh : ∀ page ∈ (scanLog []).pages, page.1 ≠ state.pager.wal.txnId % 2 ^ 64 :=
        fun page member => absurd member List.not_mem_nil
      have again := aligned.putAll_again fun write (member : write ∈ state.commitWrites.take count) =>
        List.mem_of_mem_take member
      rw [Disk.recovered_db, recoveredRecords_sealed wholeLog_nil idle late fresh small,
        Disk.putAll_db _ _ (state.disk.putAll (state.commitWrites.take count)).log]
      exact (congrArg Disk.db again).trans rfl
    · rw [if_neg late]
      have before : ¬ 2 * state.commitWrites.length + 2 ≤ calls := fun past => late (Or.inl past)
      have untouched : (state.disk.putAll (state.commitWrites.take count)).db = state.disk.db := by
        rw [← written, show calls - (2 * state.commitWrites.length + 3) = 0 by omega]
        exact stoppedWrites_none _ _ _
      have unsealed := recoveredRecords_unsealed wholeLog_nil idle late
        (show state.pager.wal.txnId % 2 ^ 64 ∉ (scanLog []).committed from List.not_mem_nil)
      rw [Disk.recovered_db, unsealed]
      exact untouched
  · rw [emptied early]
    have late : Sealed state.commitWrites calls 0 := Or.inl (by omega)
    refine ⟨aligned.putAll _, wholeLog_nil, ?_⟩
    rw [if_pos late]
    exact congrArg Disk.db (Disk.recovered_of_empty rfl)

/-- A commit goes as it goes without a stop, or it is cut off. -/
theorem commit_stopped (quiet : state.Quiet) (calls : Nat) :
    (∃ rest, Pager.commit (stopping.after calls state) = (.ok (), stopping.after rest state.committed)) ∨
      ∃ fault cut, Pager.commit (stopping.after calls state) = (.error fault, cut) ∧
        cut.disk = state.crashed calls 0 := by
  have spends := spends_commit (stopping.after calls state)
  by_cases clear : Clear (stopping.after calls state).commitCalls (crashAt calls 0)
  · obtain ⟨⟨⟩, after, ran, schedule, -⟩ := spends.clear clear
    have ended := Pager.oblivious_commit _ _ _ ran
    have still : (stopping.after calls state).quieted = state := congrArg (PagerIo.mk _ _) quiet.symm
    rw [still, commit_ok quiet] at ended
    obtain ⟨-, ended⟩ := Prod.mk.inj ended
    have rest : after.schedule = crashAt (calls - (stopping.after calls state).commitCalls) 0 :=
      schedule.trans (crashAt_drop clear)
    refine Or.inl ⟨calls - (stopping.after calls state).commitCalls, ?_⟩
    have same : after = stopping.after (calls - (stopping.after calls state).commitCalls) after.quieted :=
      congrArg (PagerIo.mk after.pager after.disk) rest
    rw [ran, ended]
    exact congrArg (Prod.mk (Except.ok ())) same
  · obtain ⟨fault, cut, ran, -⟩ := spends.failed clear
    refine Or.inr ⟨fault, cut, ran, ?_⟩
    have files := Pager.commit_crash state 0 calls
    change (Pager.commit (stopping.after calls state)).2.disk = _ at files
    rwa [ran] at files

end PagerIo

end MukhiDb.Model
