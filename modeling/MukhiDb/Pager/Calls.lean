import MukhiDb.Foundation.Runs
import MukhiDb.Pager.Transactions

/-!
Contract: the calls on an open pager as one machine.

Owns: the calls and their answers; and the state after any call on a coherent
pager whose I/O succeeds, whatever the call returns.

Does not own: what the answers mean, and crashes.
-/

namespace MukhiDb.Model

open MukhiDb.Foundation

/-! ### Calls -/

/-- A call on an open pager. -/
inductive PagerCall where
  | readPage (pageNum : Nat)
  | getPage (pageNum : Nat)
  /-- `get_page_mut` followed by writes to the page it returned. -/
  | getPageMut (pageNum : Nat) (change : Page → Page)
  | allocatePage
  | begin
  | commit
  | rollback

/-- What a call returns. -/
inductive PagerAnswer where
  | page (contents : Page)
  | allocated (pageNum : Nat)
  | done
deriving DecidableEq

namespace PagerCall

/-- Run a call. -/
def perform : PagerCall → Exec PagerIo PagerAnswer
  | readPage pageNum => do pure (.page (← Pager.readPage pageNum))
  | getPage pageNum => do pure (.page (← Pager.getPage pageNum))
  | getPageMut pageNum change => do
      Pager.modifyPage pageNum fun page => .ok (change page)
      pure .done
  | allocatePage => do pure (.allocated (← Pager.allocatePage))
  | begin => do
      Pager.begin
      pure .done
  | commit => do
      Pager.commit
      pure .done
  | rollback => do
      Pager.rollback
      pure .done

/-- The calls as a machine that answers with a value or a fault. -/
def machine : Machine PagerIo PagerCall (Except Fault PagerAnswer) := perform

end PagerCall

/-! ### The state after a call -/

section After

open PagerIo

variable {state : PagerIo}

/-- The state after a call: commit and rollback reach their states, every other call
leaves the files and the log handle alone. -/
theorem PagerCall.machine_after (call : PagerCall) (coherent : state.Coherent)
    (quiet : state.Quiet) :
    (call = commit ∧ (machine call state).2 = state.committed) ∨
      (call = rollback ∧ (machine call state).2 = state.rolledBack) ∨
      (call ≠ commit ∧ call ≠ rollback ∧ (machine call state).2.Coherent ∧
        (machine call state).2.Quiet ∧ (machine call state).2.disk = state.disk ∧
        (machine call state).2.pager.wal = state.pager.wal) := by
  have settled {program : Exec PagerIo PagerAnswer} (loose : Exec.Preserves Loose program) :
      (program state).2.Coherent ∧ (program state).2.Quiet ∧ (program state).2.disk = state.disk ∧
        (program state).2.pager.wal = state.pager.wal := by
    obtain ⟨coherent, frame⟩ := loose state coherent quiet
    exact ⟨coherent, frame.quiet quiet, frame.disk, frame.wal⟩
  have answered {α : Type} (answer : α → PagerAnswer) (value : α) :
      Exec.Preserves Loose (pure (answer value) : Exec PagerIo PagerAnswer) :=
    Loose.of_unchanged fun _ => rfl
  cases call with
  | readPage pageNum =>
      exact Or.inr (Or.inr ⟨by simp, by simp,
        settled (Loose.bind (loadPage_loose pageNum) (answered .page))⟩)
  | getPage pageNum =>
      exact Or.inr (Or.inr ⟨by simp, by simp,
        settled (Loose.bind (loadPage_loose pageNum) (answered .page))⟩)
  | getPageMut pageNum change =>
      exact Or.inr (Or.inr ⟨by simp, by simp,
        settled (Loose.bind (modifyPage_loose pageNum _) (answered fun _ => .done))⟩)
  | allocatePage =>
      exact Or.inr (Or.inr ⟨by simp, by simp,
        settled (Loose.bind allocatePage_loose (answered .allocated))⟩)
  | begin =>
      refine Or.inr (Or.inr ⟨by simp, by simp, ?_⟩)
      cases busy : state.pager.inTransaction with
      | true =>
          rw [machine, perform, Exec.bind_error (begin_busy busy)]
          exact ⟨coherent, quiet, rfl, rfl⟩
      | false =>
          rw [machine, perform, Exec.bind_ok (begin_ok busy)]
          exact ⟨{ coherent with }, quiet, rfl, rfl⟩
  | commit =>
      refine Or.inl ⟨rfl, ?_⟩
      rw [machine, perform, Exec.bind_ok (commit_ok quiet)]
      rfl
  | rollback =>
      refine Or.inr (Or.inl ⟨rfl, ?_⟩)
      rw [machine, perform, Exec.bind_ok (rollback_ok quiet)]
      rfl

theorem PagerCall.machine_coherent (call : PagerCall) (coherent : state.Coherent)
    (quiet : state.Quiet) :
    (machine call state).2.Coherent ∧ (machine call state).2.Quiet := by
  rcases call.machine_after coherent quiet with
    ⟨-, after⟩ | ⟨-, after⟩ | ⟨-, -, coherentAfter, quietAfter, -, -⟩
  · rw [after]
    exact ⟨coherent.committed_coherent, quiet⟩
  · rw [after]
    exact ⟨coherent.consistent.rolledBack_coherent, quiet⟩
  · exact ⟨coherentAfter, quietAfter⟩

end After

end MukhiDb.Model
