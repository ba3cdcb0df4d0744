import MukhiDb.Session.Gate
import MukhiDb.Storage.Flags

/-!
Contract: the transaction flags of sessions and of tables under every interleaving.

Owns: what the closures of the operations do to the flags of the tables; the fact that
only the owner of the gate has tables in a transaction, as long as every rollback ends
the transactions of all tables; and the exact condition under which a commit or a
rollback leaves no table in a transaction, whatever its I/O calls do.

Does not own: rows.
-/

namespace MukhiDb.Model

open MukhiDb.Foundation

namespace Storage

variable {state : Storage}

/-! ### Closures -/

theorem forEach_quiet {call : Exec TableIo Unit}
    (samePath : Exec.Preserves TableIo.SamePath call)
    (keeps : ∀ table, table.schedule = [] → (call table).2.schedule = [])
    (names : List String) (quiet : state.schedule = []) :
    (forEach call names state).2.schedule = [] := by
  induction names generalizing state with
  | nil => exact quiet
  | cons first rest inductionHypothesis =>
      have next : (onTable first .panic call state).2.schedule = [] := by
        rcases found : state.tableAt first with _ | table
        · rw [onTable_missing found]
          exact quiet
        · rw [onTable_found found samePath]
          exact keeps table ((tableAt_schedule found).trans quiet)
      unfold forEach
      rcases ran : onTable first .panic call state with ⟨fault | ⟨⟩, middle⟩
      · rw [ran] at next
        rw [Exec.bind_error ran]
        exact next
      · rw [ran] at next
        rw [Exec.bind_ok ran]
        exact inductionHypothesis next

theorem begin_quiet (quiet : state.schedule = []) : (Storage.begin state).2.schedule = [] := by
  unfold Storage.begin forAll
  rw [Exec.bind_ok (Exec.run_get state)]
  apply forEach_quiet (TableIo.Safe.samePath TableIo.begin_safe) _ _ quiet
  intro table still
  unfold TableIo.begin
  rw [TableIo.run_onPager]
  rcases busy : table.io.pager.inTransaction with _ | _
  · rw [PagerIo.begin_ok busy]
    exact still
  · rw [PagerIo.begin_busy busy]
    exact still

theorem commit_quiet (quiet : state.schedule = []) : (Storage.commit state).2.schedule = [] := by
  unfold Storage.commit forAll
  rw [Exec.bind_ok (Exec.run_get state)]
  apply forEach_quiet (TableIo.Safe.samePath TableIo.commit_safe) _ _ quiet
  intro table still
  unfold TableIo.commit
  rw [TableIo.run_onPager, @PagerIo.commit_ok table.io still]
  exact still

theorem rollback_quiet (quiet : state.schedule = []) :
    (Storage.rollback state).2.schedule = [] := by
  unfold Storage.rollback forAll
  rw [Exec.bind_ok (Exec.run_get state)]
  apply forEach_quiet (TableIo.Safe.samePath TableIo.rollback_safe) _ _ quiet
  intro table still
  have left : table.afterRollback.Quiet := by
    change table.schedule.drop 3 = []
    rw [still, List.drop_nil]
  have last := (PagerIo.perform_calm readMetadata table.afterRollback).quiet left
  rw [TableIo.rollback_clear (still ▸ clear_nil 3)]
  rcases ran : Pager.perform readMetadata table.afterRollback with ⟨_ | ⟨root, columns⟩, after⟩
  · rw [ran] at last
    exact last
  · rw [ran] at last
    exact last

end Storage

namespace Operation

/-- A closure that changes no transaction flag: a statement. -/
def IsStatement : Operation → Prop
  | createTable _ _ | insert _ _ | selectAll _ | dumpBtree _ => True
  | begin | commit | rollback | drop => False

/-- The closure ends the transactions of all tables. -/
def EndsTransactions (storage : Storage) : Operation → Prop
  | commit => Storage.EndsAll (fun table => table.io.commitCalls)
      (fun table => table.io.commitCalls) (fun _ => True) storage.visited storage
  | rollback | drop => Storage.EndsAll (fun _ => 3) TableIo.rollbackCalls TableIo.MetadataReads
      storage.visited storage
  | _ => True

/-- What a closure leaves is what the storage call leaves. -/
theorem after_done {call : Exec Storage Unit} (storage : Storage) :
    ((do call; pure Answer.done : Exec Storage Answer) storage).2 = (call storage).2 := by
  rw [Exec.run_bind]
  rcases call storage with ⟨_ | ⟨⟩, after⟩ <;> rfl

/-- Statements leave the transaction flags of all tables alone. -/
theorem closure_calm {operation : Operation} (statement : operation.IsStatement) :
    Exec.Preserves Storage.Calm operation.closure := by
  have thenPure {α : Type} {call : Exec Storage α} {answer : α → Answer}
      (calm : Exec.Preserves Storage.Calm call) :
      Exec.Preserves Storage.Calm (do let value ← call; pure (answer value)) :=
    Exec.Preserves.bind (fun left right => left.trans right) calm fun value storage =>
      Storage.Calm.refl storage
  cases operation with
  | createTable name columns => exact thenPure (Storage.createTable_calm name columns)
  | insert table values =>
      exact thenPure (Storage.onTable_calm (TableIo.insert_calm values) table _)
  | selectAll table => exact thenPure (Storage.onTable_calm TableIo.selectAll_calm table _)
  | dumpBtree table => exact thenPure (Storage.onTable_calm TableIo.dumpBtree_calm table _)
  | _ => exact statement.elim

/-- Successful I/O stays so. -/
theorem closure_quiet (operation : Operation) {storage : Storage} (quiet : storage.schedule = []) :
    (operation.closure storage).2.schedule = [] := by
  cases operation with
  | begin =>
      exact (congrArg Storage.schedule (after_done storage)).trans (Storage.begin_quiet quiet)
  | commit =>
      exact (congrArg Storage.schedule (after_done storage)).trans (Storage.commit_quiet quiet)
  | rollback =>
      exact (congrArg Storage.schedule (after_done storage)).trans (Storage.rollback_quiet quiet)
  | drop =>
      exact (congrArg Storage.schedule (after_done storage)).trans (Storage.rollback_quiet quiet)
  | createTable name columns =>
      exact (@closure_calm (.createTable name columns) trivial storage).quiet quiet
  | insert table values => exact (@closure_calm (.insert table values) trivial storage).quiet quiet
  | selectAll table => exact (@closure_calm (.selectAll table) trivial storage).quiet quiet
  | dumpBtree table => exact (@closure_calm (.dumpBtree table) trivial storage).quiet quiet

/-- A commit or a rollback leaves no table in a transaction exactly if it ends all. -/
theorem closure_ends_iff {operation : Operation} {storage : Storage}
    (ends : operation = .commit ∨ operation = .rollback ∨ operation = .drop) :
    (∀ name, ¬ (operation.closure storage).2.InTransaction name) ↔
      operation.EndsTransactions storage := by
  rcases ends with rfl | rfl | rfl
  · rw [closure, after_done]
    exact Storage.commit_ends_iff
  · rw [closure, after_done]
    exact Storage.rollback_ends_iff
  · rw [closure, after_done]
    exact Storage.rollback_ends_iff

theorem begin_answers {storage : Storage} (idle : ∀ name, ¬ storage.InTransaction name) :
    (begin.closure storage).1 = .ok .done := by
  have ran := Storage.begin_succeeds idle
  change ((do Storage.begin; pure Answer.done : Exec Storage Answer) storage).1 = _
  rw [Exec.run_bind]
  rcases done : Storage.begin storage with ⟨result, after⟩
  rw [done] at ran
  obtain rfl : result = .ok () := ran
  rfl

end Operation

namespace System

variable {system after : System} {id other : Nat} {operation : Operation}

/-! ### Flags of sessions -/

theorem start_flag (session : Session) (operation : Operation) :
    (session.start operation).inTransaction = session.inTransaction := by
  rcases flag : session.inTransaction with _ | _ <;> cases operation <;>
    simp [Session.start, flag, Session.returns, Session.at_]

theorem notified_flag (session : Session) :
    session.notified.inTransaction = session.inTransaction := by
  unfold Session.notified
  split <;> rfl

/-! ### The invariant -/

/-- A table in a transaction is in one of the session that owns the gate. -/
structure Owned (system : System) : Prop where
  gated : system.Gated
  quiet : system.storage.schedule = []
  tables : ∀ name, system.storage.InTransaction name →
    ∃ id, system.txnOwner = some id ∧ (system.sessions id).inTransaction = true

/-- The section is the end of a closure that ends the transactions of all tables, or
another one. -/
def EndsTransactions (system : System) (label : Nat × Action) : Prop :=
  label.2 = .leave → ∀ operation, (system.sessions label.1).phase = .inside operation →
    operation.EndsTransactions system.storage

/-- Nothing but sessions moved, and no flag changed. -/
theorem Owned.keep (owned : system.Owned) (gated : after.Gated)
    (storage : after.storage = system.storage) (owner : after.txnOwner = system.txnOwner)
    (flags : ∀ id, (after.sessions id).inTransaction = (system.sessions id).inTransaction) :
    after.Owned where
  gated := gated
  quiet := by
    rw [storage]
    exact owned.quiet
  tables := by
    intro name busy
    rw [storage] at busy
    obtain ⟨id, owns, flag⟩ := owned.tables name busy
    exact ⟨id, owner.trans owns, (flags id).trans flag⟩

theorem set_flags {next : Session}
    (same : next.inTransaction = (system.sessions id).inTransaction) (other : Nat) :
    ((system.set id next).sessions other).inTransaction =
      (system.sessions other).inTransaction := by
  by_cases here : other = id
  · subst here
    rw [set_self, same]
  · rw [set_other here]

theorem Owned.check (owned : system.Owned) (ran : system.check id = some after) :
    after.Owned := by
  have gated := owned.gated.check ran
  rcases check_eq_some ran with ⟨claims, clear, rfl⟩ | ⟨operation, passes, notBegin, clear, rfl⟩ |
    ⟨operation, waits, owner, apart, rfl⟩
  · refine ⟨gated, owned.quiet, fun name busy => ?_⟩
    obtain ⟨holder, owns, -⟩ := owned.tables name busy
    rw [clear] at owns
    contradiction
  · exact owned.keep gated rfl rfl (set_flags rfl)
  · exact owned.keep gated rfl rfl (set_flags rfl)

/-- The closure of a session that holds the gate: nobody else has a transaction. -/
theorem Owned.holder (owned : system.Owned) (holding : (system.sessions id).Holding) {name : String}
    (busy : system.storage.InTransaction name) : (system.sessions id).inTransaction = true := by
  obtain ⟨owner, owns, flag⟩ := owned.tables name busy
  rw [(owned.gated.owner id).mpr holding] at owns
  obtain rfl := Option.some.inj owns
  exact flag

theorem Owned.leave (owned : system.Owned) (ran : system.leave id = some after)
    (ends : system.EndsTransactions (id, .leave)) : after.Owned := by
  have gated := owned.gated.leave ran
  obtain ⟨operation, inside, -, rfl⟩ := leave_eq_some ran
  have allowed := owned.gated.allowed (Or.inr (Or.inr (Or.inr inside)))
  have ended := ends rfl operation inside
  refine ⟨gated, operation.closure_quiet owned.quiet, fun name busy => ?_⟩
  change (operation.closure system.storage).2.InTransaction name at busy
  by_cases statement : operation.IsStatement
  · have before := ((Operation.closure_calm statement system.storage).inTransaction name).mp busy
    obtain ⟨owner, owns, flag⟩ := owned.tables name before
    refine ⟨owner, owns, (set_flags ?_ owner).trans flag⟩
    cases operation <;> first | rfl | exact statement.elim
  · cases operation with
    | begin =>
        have outside : (system.sessions id).inTransaction = false := allowed
        have holding : (system.sessions id).Holding := Or.inr (Or.inr (Or.inl inside))
        have idle : ∀ name, ¬ system.storage.InTransaction name := by
          intro name busy
          rw [owned.holder holding busy] at outside
          contradiction
        refine ⟨id, (owned.gated.owner id).mpr holding, ?_⟩
        change ((system.set id _).sessions id).inTransaction = true
        rw [set_self, Operation.begin_answers idle]
        rfl
    | commit => exact absurd busy ((Operation.closure_ends_iff (Or.inl rfl)).mpr ended name)
    | rollback =>
        exact absurd busy ((Operation.closure_ends_iff (Or.inr (Or.inl rfl))).mpr ended name)
    | drop =>
        exact absurd busy ((Operation.closure_ends_iff (Or.inr (Or.inr rfl))).mpr ended name)
    | _ => exact absurd trivial statement

theorem Owned.release (owned : system.Owned) (ran : system.release id = some after) :
    after.Owned := by
  have gated := owned.gated.release ran
  obtain ⟨operation, answer, releasing, rfl⟩ := release_eq_some ran
  refine ⟨gated, owned.quiet, fun name busy => ?_⟩
  have flag := owned.holder (Or.inr (Or.inr (Or.inr ⟨operation, answer, releasing⟩))) busy
  have sensible := owned.gated.sensible id
  unfold Session.Sensible at sensible
  rw [releasing] at sensible
  rw [sensible] at flag
  contradiction

/-- Every section keeps the flags in order if it leaves no transaction behind. -/
theorem Owned.step {label : Nat × Action} (owned : system.Owned)
    (ends : system.EndsTransactions label) (taken : Step system label after) : after.Owned := by
  have gated := owned.gated.step taken
  obtain ⟨id, action⟩ := label
  cases action with
  | start operation =>
      obtain ⟨-, rfl⟩ := start_eq_some taken
      exact owned.keep gated rfl rfl (set_flags (start_flag _ _))
  | check => exact owned.check taken
  | wake =>
      obtain ⟨operation, -, rfl⟩ := wake_eq_some taken
      exact owned.keep gated rfl rfl (set_flags rfl)
  | enter =>
      obtain ⟨operation, lock, -, -, rfl⟩ := enter_eq_some taken
      exact owned.keep gated rfl rfl (set_flags rfl)
  | leave => exact owned.leave taken ends
  | release => exact owned.release taken

/-- A section that leaves no transaction behind. -/
def StepEnding (system : System) (label : Nat × Action) (after : System) : Prop :=
  system.EndsTransactions label ∧ Step system label after

/-- One transaction at a time, in every run whose I/O succeeds and whose rollbacks each end the
transactions of all tables: a session in a transaction is the owner of the gate; the owner
is between its claim and its release; no release takes the gate from another session; and
without an owner no table is in a transaction. -/
theorem one_transaction {storage : Storage} {labels : List (Nat × Action)}
    (quiet : storage.schedule = []) (idle : ∀ name, ¬ storage.InTransaction name)
    (reaches : Reaches StepEnding (new storage) labels system) :
    (∀ id, (system.sessions id).inTransaction = true → system.txnOwner = some id) ∧
    (∀ id other, (system.sessions id).inTransaction = true →
      (system.sessions other).inTransaction = true → id = other) ∧
    (∀ id, system.txnOwner = some id → (system.sessions id).Holding) ∧
    (∀ id other after, system.release id = some after → other ≠ id →
      system.txnOwner = some other → after.txnOwner = some other) ∧
    (system.txnOwner = none → ∀ name, ¬ system.storage.InTransaction name) := by
  have owned : system.Owned := by
    apply reaches.invariant
    · exact ⟨gated_new storage, quiet, fun name busy => absurd busy (idle name)⟩
    · rintro before label after owned ⟨ends, taken⟩
      exact owned.step ends taken
  have owner : ∀ id, (system.sessions id).inTransaction = true → system.txnOwner = some id :=
    fun id flag => (owned.gated.owner id).mpr (Or.inl flag)
  refine ⟨owner, ?_, fun id owns => (owned.gated.owner id).mp owns, ?_, ?_⟩
  · intro id other flag flagOther
    exact Option.some.inj ((owner id flag).symm.trans (owner other flagOther))
  · intro id other after ran different owns
    obtain ⟨operation, answer, -, rfl⟩ := release_eq_some ran
    have apart : system.txnOwner ≠ some id := by
      rw [owns]
      exact fun same => different (Option.some.inj same)
    exact (if_neg apart).trans owns
  · intro clear name busy
    obtain ⟨id, owns, -⟩ := owned.tables name busy
    rw [clear] at owns
    contradiction

/-! ### The end of a transaction, whatever its I/O does -/

/-- While a session is about to release the gate, the sections of the others leave the
transaction flags of all tables alone. -/
theorem Gated.step_aside {label : Nat × Action} {answer : Except Fault Answer}
    (gated : system.Gated) (releasing : (system.sessions id).phase = .releasing operation answer)
    (apart : label.1 ≠ id) (taken : Step system label after) :
    (after.sessions id).phase = .releasing operation answer ∧
      ∀ name, after.storage.InTransaction name ↔ system.storage.InTransaction name := by
  have owner : system.txnOwner = some id :=
    (gated.owner id).mpr (Or.inr (Or.inr (Or.inr ⟨operation, answer, releasing⟩)))
  have outside : ¬ (system.sessions label.1).Holding := by
    rw [← gated.owner, owner]
    exact fun same => apart (Option.some.inj same).symm
  obtain ⟨mover, action⟩ := label
  have still (next : Session) : ((system.set mover next).sessions id).phase =
      .releasing operation answer := by
    rw [set_other (Ne.symm apart)]
    exact releasing
  cases action with
  | start _ =>
      obtain ⟨-, rfl⟩ := start_eq_some taken
      exact ⟨still _, fun _ => Iff.rfl⟩
  | check =>
      rcases check_eq_some taken with ⟨-, -, rfl⟩ | ⟨_, -, -, -, rfl⟩ | ⟨_, -, -, -, rfl⟩
      · exact ⟨still _, fun _ => Iff.rfl⟩
      · exact ⟨still _, fun _ => Iff.rfl⟩
      · exact ⟨still _, fun _ => Iff.rfl⟩
  | wake =>
      obtain ⟨_, -, rfl⟩ := wake_eq_some taken
      exact ⟨still _, fun _ => Iff.rfl⟩
  | enter =>
      obtain ⟨_, _, -, -, rfl⟩ := enter_eq_some taken
      exact ⟨still _, fun _ => Iff.rfl⟩
  | leave =>
      obtain ⟨other, inside, -, rfl⟩ := leave_eq_some taken
      refine ⟨still _, ?_⟩
      have allowed := gated.allowed (Or.inr (Or.inr (Or.inr inside)))
      have statement : other.IsStatement := by
        cases other with
        | begin => exact absurd (Or.inr (Or.inr (Or.inl inside))) outside
        | commit => exact absurd (Or.inl allowed) outside
        | rollback => exact absurd (Or.inl allowed) outside
        | drop => exact absurd (Or.inl allowed) outside
        | _ => trivial
      exact (Operation.closure_calm statement system.storage).inTransaction
  | release =>
      obtain ⟨other, result, releasing', -⟩ := release_eq_some taken
      exact absurd (Or.inr (Or.inr (Or.inr ⟨other, result, releasing'⟩))) outside

theorem Gated.steps_aside {labels : List (Nat × Action)} {answer : Except Fault Answer}
    (gated : system.Gated) (releasing : (system.sessions id).phase = .releasing operation answer)
    (apart : ∀ label ∈ labels, label.1 ≠ id) (reaches : Reaches Step system labels after) :
    ∀ name, after.storage.InTransaction name ↔ system.storage.InTransaction name := by
  have all : after.Gated ∧ (after.sessions id).phase = .releasing operation answer ∧
      ∀ name, after.storage.InTransaction name ↔ system.storage.InTransaction name := by
    induction reaches with
    | refl => exact ⟨gated, releasing, fun _ => Iff.rfl⟩
    | next _ taken inductionHypothesis =>
        obtain ⟨gatedThere, there, same⟩ := inductionHypothesis fun label member =>
          apart label (List.mem_append_left _ member)
        obtain ⟨phase, flags⟩ := gatedThere.step_aside there
          (apart _ (List.mem_append_right _ List.mem_cons_self)) taken
        exact ⟨gatedThere.step taken, phase, fun name => (flags name).trans (same name)⟩
  exact all.2.2

/-- No table is left in a transaction, so that the next `begin` is not refused and inserts
outside of transactions are flushed. -/
def NoneLeft (storage : Storage) : Prop :=
  (∀ name, ¬ storage.InTransaction name) ∧ (Storage.begin storage).1 = .ok () ∧
    ∀ name table, storage.tableAt name = some table →
      TableIo.flushOutside table = TableIo.onPager Pager.flush table

theorem noneLeft_iff {storage : Storage} :
    NoneLeft storage ↔ ∀ name, ¬ storage.InTransaction name := by
  constructor
  · exact And.left
  · intro idle
    refine ⟨idle, Storage.begin_succeeds idle, fun name table found => ?_⟩
    have outside := idle name
    rw [Storage.inTransaction_iff found] at outside
    unfold TableIo.flushOutside
    rw [Exec.bind_ok (Exec.run_get table), if_neg outside]

/-- After the closure of a commit or a rollback the session is about to release the gate. -/
theorem leave_releases (ends : operation = .commit ∨ operation = .rollback)
    (inside : (system.sessions id).phase = .inside operation)
    (left : system.leave id = some after) :
    (∃ answer, (after.sessions id).phase = .releasing operation answer) ∧
      after.storage = (operation.closure system.storage).2 := by
  obtain ⟨same, inside', -, rfl⟩ := leave_eq_some left
  obtain rfl : operation = same := Phase.inside.inj (inside.symm.trans inside')
  refine ⟨⟨(operation.closure system.storage).1, ?_⟩, rfl⟩
  change ((system.set id _).sessions id).phase = _
  rw [set_self]
  rcases ends with rfl | rfl <;> rfl

/-- For every storage and every pattern of I/O outcomes: after a commit or a rollback of a
session returned and the gate is released, no table is left in a transaction exactly if
its I/O calls take effect up to the end of the last table's transaction. -/
theorem noneLeft_iff_ends {storage : Storage} {labels later : List (Nat × Action)}
    {middle between : System} (reaches : Reaches Step (new storage) labels system)
    (ends : operation = .commit ∨ operation = .rollback)
    (inside : (system.sessions id).phase = .inside operation)
    (left : system.leave id = some middle) (aside : Reaches Step middle later between)
    (apart : ∀ label ∈ later, label.1 ≠ id) (released : between.release id = some after) :
    NoneLeft after.storage ↔ operation.EndsTransactions system.storage := by
  have gated := (reaches_gated reaches).leave left
  obtain ⟨⟨answer, releasing⟩, storage⟩ := leave_releases ends inside left
  have flags := gated.steps_aside releasing apart aside
  have unchanged : after.storage = between.storage := by
    obtain ⟨_, _, -, rfl⟩ := release_eq_some released
    rfl
  rw [storage] at flags
  rw [noneLeft_iff, unchanged, ← Operation.closure_ends_iff (Or.imp_right Or.inl ends)]
  exact forall_congr' fun name => not_congr (flags name)

/-- The sections of an operation that passes the gate. -/
def passing (id : Nat) (operation : Operation) : List (Nat × Action) :=
  [(id, .start operation), (id, .check), (id, .enter), (id, .leave)]

/-- Two tables are created, a transaction is begun, and its commit is about to run. -/
def commitLabels : List (Nat × Action) :=
  passing 0 (.createTable "a" []) ++ passing 0 (.createTable "b" []) ++ passing 0 .begin ++
    [(0, .start .commit), (0, .enter)]

/-- The session is inside the closure of a commit. -/
def AtCommit (session : Session) : Prop :=
  match session.phase with
  | .inside .commit => True
  | _ => False

instance decidableAtCommit : DecidablePred AtCommit := fun session => by
  unfold AtCommit
  split
  · exact isTrue trivial
  · exact isFalse not_false

theorem AtCommit.phase {session : Session} (there : AtCommit session) :
    session.phase = .inside .commit := by
  unfold AtCommit at there
  split at there
  · assumption
  · exact there.elim

/-- A commit of two tables whose I/O succeeds. -/
theorem noneLeft_iff_ends_committed :
    ∃ system after : System, (system.sessions 0).phase = .inside .commit ∧
      after.storage.tables.keys.card = 2 ∧
      (NoneLeft after.storage ↔ Operation.commit.EndsTransactions system.storage) := by
  have ran : (run commitLabels (new (Storage.new (.startingWith "a") (fun _ => none) []))).any
      (fun system => decide (AtCommit (system.sessions 0) ∧
        ((system.leave 0).bind (release 0)).any (fun after =>
          decide (after.storage.tables.keys.card = 2)) = true)) = true := by
    decide +kernel
  obtain ⟨system, reaches, there, ended⟩ := exists_run ran
  obtain ⟨after, both, two⟩ := (Option.any_eq_true _ _).mp ended
  obtain ⟨middle, left, released⟩ := Option.bind_eq_some_iff.mp both
  exact ⟨system, after, there.phase, of_decide_eq_true two,
    noneLeft_iff_ends reaches (Or.inl rfl) there.phase left Reaches.refl (by simp) released⟩

/-- The first I/O call of the commit fails: it is the first write to the log of table `a`. -/
def commitOutage : List IoOutcome := List.replicate 40 .done ++ [.failed "disk full" 0]

/-- The commit fails at table `a` and leaves both tables in the transaction, while the
session has left it and the gate has no owner. The next `begin` is refused. -/
theorem commit_leaves_transaction :
    ∃ after, Reaches Step (new (Storage.new (.startingWith "a") (fun _ => none) commitOutage))
        (commitLabels ++ [(0, .leave), (0, .release)]) after ∧
      (after.sessions 0).inTransaction = false ∧ after.txnOwner = none ∧
      after.storage.InTransaction "a" ∧ after.storage.InTransaction "b" ∧
      (Storage.begin after.storage).1 = .error (.error "Already in a transaction.") := by
  apply exists_run
  decide +kernel

end System

end MukhiDb.Model
