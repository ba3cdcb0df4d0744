import MukhiDb.Storage.Reachable

/-!
Contract: invariants of tables, in storages whose I/O succeeds.

Owns: storages whose tables all keep to a rule that may depend on the name; the fact that
a call that keeps one table to the rule keeps all of them; and what loops over the tables
keep; and the fact that no call changes the host.

Does not own: any particular rule.
-/

namespace MukhiDb.Model.Storage

open MukhiDb.Foundation

/-- I/O succeeds, no two tables have a file in common, and every table keeps to a rule. -/
structure Each (rule : String → TableIo → Prop) (state : Storage) : Prop where
  quiet : state.schedule = []
  apart : state.Apart
  tables : ∀ name table, state.tableAt name = some table → rule name table

section Each

variable {rule : String → TableIo → Prop} {state : Storage} {name path : String} {table : TableIo}

/-- A table that keeps to the rule, with a file that no other table has open, can be put in. -/
theorem Each.put (each : Each rule state) (kept : rule name table) (quiet : table.io.Quiet)
    (unused : state.Unused name table.store.path) : Each rule (state.put name table) := by
  have still : table.schedule = state.schedule := Eq.trans quiet each.quiet.symm
  refine ⟨quiet, each.apart.put unused still, fun other there found => ?_⟩
  rw [tableAt_put unused still] at found
  by_cases same : other = name
  · subst same
    rw [Function.update_self] at found
    obtain rfl := Option.some.inj found
    exact kept
  · rw [Function.update_of_ne same] at found
    exact each.tables other there found

/-- What a call does to a table under the rule. -/
def Keeps {α : Type} (rule : String → TableIo → Prop) (name : String) (call : Exec TableIo α) : Prop :=
  ∀ table, rule name table → table.io.Quiet →
    rule name (call table).2 ∧ (call table).2.io.Quiet

/-- A call on one table, whatever it returns. -/
theorem Each.onTable {α : Type} {call : Exec TableIo α} (each : Each rule state)
    (samePath : Exec.Preserves TableIo.SamePath call) (keeps : Keeps rule name call)
    (missing : Fault) : Each rule (onTable name missing call state).2 := by
  rcases found : state.tableAt name with _ | table
  · rw [onTable_missing found]
    exact each
  · obtain ⟨kept, quiet⟩ :=
      keeps table (each.tables name table found) ((tableAt_schedule found).trans each.quiet)
    rw [onTable_found found samePath]
    exact each.put kept quiet (each.apart.unused found (samePath table))

/-- What a call on any one table keeps, a loop over tables keeps. -/
theorem forEach_keeps {invariant : Storage → Prop} {call : Exec TableIo Unit} {names : List String}
    (kept : ∀ name state, invariant state → invariant (onTable name .panic call state).2)
    (start : invariant state) : invariant (forEach call names state).2 := by
  induction names generalizing state with
  | nil => exact start
  | cons name rest inductionHypothesis =>
      have next := kept name state start
      unfold forEach
      rcases ran : onTable name .panic call state with ⟨_ | _, middle⟩
      · rw [ran] at next
        rw [Exec.bind_error ran]
        exact next
      · rw [ran] at next
        rw [Exec.bind_ok ran]
        exact inductionHypothesis next

theorem forAll_keeps {invariant : Storage → Prop} {call : Exec TableIo Unit}
    (kept : ∀ name state, invariant state → invariant (onTable name .panic call state).2)
    (start : invariant state) : invariant (forAll call state).2 := by
  unfold forAll
  rw [Exec.bind_ok (Exec.run_get state)]
  exact forEach_keeps kept start

theorem Each.withFiles (each : Each rule state) (closed : state.Closed path) (disk : Disk) :
    Each rule (state.withFiles path disk) := by
  have tables := tableAt_withFiles closed disk
  refine ⟨each.quiet, ?_, ?_⟩
  · unfold Apart
    rw [tables]
    exact each.apart
  · rw [tables]
    exact each.tables

end Each

/-! ### The host -/

/-- The host stays. -/
def SameHost (before after : Storage) : Prop := after.host = before.host

section SameHost

/-- A call goes on after another one. -/
theorem SameHost.bind {α β : Type} {first : Exec Storage α} {next : α → Exec Storage β}
    (head : Exec.Preserves SameHost first) (tail : ∀ value, Exec.Preserves SameHost (next value)) :
    Exec.Preserves SameHost (first >>= next) :=
  @Exec.Preserves.bind _ _ _ SameHost (fun left right => Eq.trans right left) _ _ head tail

theorem sameHost_onTable {α : Type} (name : String) (missing : Fault) (call : Exec TableIo α) :
    Exec.Preserves SameHost (onTable name missing call) := by
  intro state
  unfold onTable
  split <;> rfl

theorem sameHost_forAll (call : Exec TableIo Unit) : Exec.Preserves SameHost (forAll call) :=
  fun start => forAll_keeps (fun name state same =>
    Eq.trans (sameHost_onTable name .panic call state) same) (show SameHost start start from rfl)

theorem sameHost_addTable (name path : String) (pager : Pager) (setUp : Exec TableIo Unit) :
    Exec.Preserves SameHost (addTable name path pager setUp) := by
  intro state
  unfold addTable
  dsimp only
  split <;> rfl

theorem sameHost_createTable (name : String) (columns : List Column) :
    Exec.Preserves SameHost (createTable name columns) := by
  refine SameHost.bind (fun state => rfl) fun state => ?_
  split
  · exact fun state => rfl
  · exact SameHost.bind (fun state => rfl) fun pager => sameHost_addTable _ _ _ _

end SameHost

end MukhiDb.Model.Storage
