import MukhiDb.Storage.AtRest

/-!
Contract: when a rollback undoes a transaction of inserts and scans.

Owns: the property, for a storage at rest and everything that such statements can lead to;
the condition on page 0 of the files under which it holds, as long as no file is opened
twice; and two tables over one file, for which it fails.

Does not own: tables that are created in the transaction, and failed I/O.
-/

namespace MukhiDb.Model.Storage

open MukhiDb.Foundation

variable {state : Storage}

/-- Begin, any inserts and scans, whatever they return, and rollback: both ends succeed, and
every table has the root page and the answers that it had. -/
def RollbackUndoes (state : Storage) : Prop :=
  ∀ statements working, (∀ call ∈ statements, call.Queries) →
    Reaches Step (Storage.begin state).2 statements working →
      (Storage.begin state).1 = .ok () ∧ (Storage.rollback working).1 = .ok () ∧
        Undone state (Storage.rollback working).2

/-- In every storage at rest that calls lead to which open no file twice, a rollback undoes
inserts and scans exactly if page 0 of every file gives the root page of its table. -/
theorem rollback_undoes_iff {host : Host} {dir : String → Option Disk}
    {calls : List StorageCall} (reached : Reaches StepApart (new host dir []) calls state)
    (rest : state.AtRest) : state.RollbackUndoes ↔ state.Rooted := by
  constructor
  · intro undoes
    obtain ⟨-, ended, undone⟩ := undoes [] _ (by simp) Reaches.refl
    exact rooted_of_undone (reaches_kept reached) rest ended undone
  · intro rooted statements working queries ran
    exact rollback_undoes reached rest rooted queries ran

/-- A storage over an empty directory that visits `a` first. -/
def emptyStorage : Storage := new (Host.startingWith "a") (fun _ => none) []

/-- A table with one row. -/
theorem rollback_undoes_iff_row :
    ∃ state, (selectAll "a" state).1 = .ok (["id"], [⟨[.integer 7]⟩]) ∧
      (state.RollbackUndoes ↔ state.Rooted) := by
  have answers : (performAll [.createTable "a" [⟨"id", .integer⟩], .insert "a" [.integer 7]]
        emptyStorage).1 = .ok () ∧
      (selectAll "a" (performAll [.createTable "a" [⟨"id", .integer⟩], .insert "a" [.integer 7]]
        emptyStorage).2).1 = .ok (["id"], [⟨[.integer 7]⟩]) := by
    decide +kernel
  obtain ⟨succeeds, row⟩ := answers
  generalize reached : (performAll [.createTable "a" [⟨"id", .integer⟩], .insert "a" [.integer 7]]
    emptyStorage).2 = state at row
  have ran : performAll _ emptyStorage = (.ok (), state) := Prod.ext succeeds reached
  obtain ⟨rest, -⟩ := (atRest_new _ _).performAll rfl (by simp [StorageCall.IsStatement]) ran
  obtain ⟨⟨⟩, middle, created, later⟩ := Exec.bind_eq_ok.mp ran
  obtain ⟨⟨⟩, last, inserted, ended⟩ := Exec.bind_eq_ok.mp later
  obtain ⟨-, rfl⟩ := Prod.mk.inj ended
  have closed : emptyStorage.Closed (pathOf "a") := by
    intro name table found
    cases found
  have first : StepApart emptyStorage (.createTable "a" [⟨"id", .integer⟩]) middle :=
    ⟨Or.inr closed, step_ok created⟩
  have second : StepApart middle (.insert "a" [.integer 7]) last := ⟨trivial, step_ok inserted⟩
  exact ⟨last, row, rollback_undoes_iff ((Reaches.refl.next first).next second) rest⟩

/-- Two tables on the same file. The second one has read its root page when a row is inserted
in the first one. -/
def sharingCalls : List StorageCall :=
  [.createTable "a" [⟨"id", .integer⟩], .openTable "b" (pathOf "a"), .selectAll "b",
    .insert "a" [.integer 7]]

/-- The table that has no row at begin has one after the rollback. -/
theorem rollback_changes_shared :
    ∃ state, Reaches Step emptyStorage sharingCalls state ∧ state.AtRest ∧
      ¬ state.RollbackUndoes := by
  have answers : (performAll sharingCalls emptyStorage).1 = .ok () ∧
      (selectAll "b" (performAll sharingCalls emptyStorage).2).1 = .ok (["id"], []) ∧
      (performAll [.begin, .insert "b" [.integer 5]] (performAll sharingCalls emptyStorage).2).1 =
        .ok () ∧
      (selectAll "b" (rollback (performAll [.begin, .insert "b" [.integer 5]]
        (performAll sharingCalls emptyStorage).2).2).2).1 = .ok (["id"], [⟨[.integer 7]⟩]) := by
    decide +kernel
  obtain ⟨succeeds, before, succeeds', after⟩ := answers
  generalize reached : (performAll sharingCalls emptyStorage).2 = state at before succeeds' after
  have ran : performAll sharingCalls emptyStorage = (.ok (), state) := Prod.ext succeeds reached
  obtain ⟨rest, -⟩ := (atRest_new _ _).performAll rfl
    (by simp [sharingCalls, StorageCall.IsStatement]) ran
  refine ⟨state, reaches_performAll ran fun _ _ _ => step_ok, rest, fun undoes => ?_⟩
  have ran' : performAll [.begin, .insert "b" [.integer 5]] state = (.ok (), _) :=
    Prod.ext succeeds' rfl
  obtain ⟨⟨⟩, begun, started, later⟩ := Exec.bind_eq_ok.mp ran'
  have working := reaches_performAll later fun _ _ _ => step_ok
  change Storage.begin state = _ at started
  obtain ⟨-, -, undone⟩ := undoes [.insert "b" [.integer 5]] _ (by simp [StorageCall.Queries])
    (by rw [started]; exact working)
  rcases found : state.tableAt "b" with _ | table
  · rw [selectAll, onTable_missing found] at before
    cases before
  · obtain ⟨-, same, -⟩ := undone.tables "b" table found
    rw [after, before] at same
    simp at same

end MukhiDb.Model.Storage
