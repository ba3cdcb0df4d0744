import MukhiDb.Session.Transactions
import MukhiDb.Storage.Receipts

/-!
Contract: what sessions that share a storage see of each other.

Owns: the database with one transaction at a time; and that every run of the sections of any number
of sessions, in which no session claims the gate while an operation of another one is past it, is a
run of that database, with the closures in the order in which they ran.

Does not own: runs in which an operation is past the gate when another session begins a transaction.
-/

namespace MukhiDb.Model

open MukhiDb.Foundation

/-! ### One transaction at a time -/

/-- An operation of a session took effect. -/
structure Entry where
  session : Nat
  operation : Operation
  answer : Except Fault Answer

/-- While a session is in a transaction, only its own operations take effect. -/
inductive Turn (owner : Option Nat) (entry : Entry) : Option Nat → Prop where
  | statement (statement : entry.operation.IsStatement)
      (turn : owner = none ∨ owner = some entry.session) : Turn owner entry owner
  | begun (free : owner = none) (begins : entry.operation = .begin)
      (answered : entry.answer = .ok .done) : Turn owner entry (some entry.session)
  | ended (ends : entry.operation = .commit ∨ entry.operation = .rollback ∨ entry.operation = .drop)
      (own : owner = some entry.session) : Turn owner entry none

/-- A step of the database with the session that is in a transaction. -/
def Serial (state : Database × Option Nat) (entry : Entry) (after : Database × Option Nat) : Prop :=
  Database.Step state.1 entry.operation entry.answer after.1 ∧ Turn state.2 entry after.2

/-! ### What a run shows -/

namespace Session

/-- An operation of the session is past the gate. -/
def Past (session : Session) : Prop :=
  ∃ operation, session.phase = .locking operation ∨ session.phase = .inside operation

theorem start_past {session : Session} {operation : Operation}
    (past : (session.start operation).Past) : session.inTransaction = true := by
  unfold Past at past
  cases flag : session.inTransaction <;> cases operation <;>
    simp_all [Session.start, Session.at_, Session.returns]

theorem afterClosure_not_past (session : Session) (answer : Except Fault Answer) (operation : Operation) :
    ¬ (session.afterClosure answer operation).Past := by
  unfold Past
  cases operation <;> cases answer <;> simp [Session.afterClosure, Session.at_, Session.returns]

end Session

namespace System

variable {sizes : String → Nat → Prop} {system after : System} {id other : Nat}

/-- The operations that take effect in a section. -/
def shows (system : System) (label : Nat × Action) : List Entry :=
  match label.2, (system.sessions label.1).phase with
  | .leave, .inside operation => [⟨label.1, operation, (operation.closure system.storage).1⟩]
  | _, _ => []

/-- A session claims the gate only when no operation of another one is past it. -/
def ClaimsClear (system : System) (label : Nat × Action) : Prop :=
  label.2 = .check → (system.sessions label.1).phase = .gate .begin → system.txnOwner = none →
    ∀ other, other ≠ label.1 → ¬ (system.sessions other).Past

/-- Rows have the sizes of their tables. -/
def Fitting (sizes : String → Nat → Prop) (system : System) (label : Nat × Action) : Prop :=
  label.2 = .leave → ∀ operation, (system.sessions label.1).phase = .inside operation →
    Storage.Sized sizes system.storage operation

/-- A section, with what it shows. -/
def StepClear (sizes : String → Nat → Prop) (system : System) (shown : List Entry) (after : System) :
    Prop :=
  ∃ label, system.ClaimsClear label ∧ system.Fitting sizes label ∧ shown = system.shows label ∧
    Step system label after

/-! ### The invariant -/

/-- The storage represents the database, and the session in a transaction holds the gate, past which
is no operation of another one. -/
structure InTurn (sizes : String → Nat → Prop) (system : System) (db : Database) (owner : Option Nat) :
    Prop where
  gated : system.Gated
  represents : Storage.Represents sizes system.storage db
  flags : ∀ id, (system.sessions id).inTransaction = true ↔ owner = some id
  aside : ∀ id other, system.txnOwner = some id → other ≠ id → ¬ (system.sessions other).Past
  idle : owner = none → ∀ name view, db name = some view → view.inTransaction = false

section InTurn

variable {db : Database} {owner : Option Nat} {operation : Operation}

theorem inTurn_new (sizes : String → Nat → Prop) (host : Host) :
    InTurn sizes (new (Storage.new host (fun _ => none) [])) .empty none where
  gated := gated_new _
  represents := Storage.represents_new sizes host
  flags := fun id => by simp [new, Session.new]
  aside := fun id other owned => by cases owned
  idle := fun _ name view present => by cases present

/-- The session in a transaction owns the gate. -/
theorem InTurn.owns (inTurn : InTurn sizes system db owner) (own : owner = some id) :
    system.txnOwner = some id :=
  (inTurn.gated.owner id).mpr (Or.inl ((inTurn.flags id).mpr own))

/-- A session that is past the gate owns it, if there is an owner. -/
theorem InTurn.past_owner (inTurn : InTurn sizes system db owner) (past : (system.sessions id).Past) :
    system.txnOwner = none ∨ system.txnOwner = some id := by
  cases owned : system.txnOwner with
  | none => exact Or.inl rfl
  | some holder =>
      right
      by_contra different
      exact inTurn.aside holder id owned (fun same => different (congrArg some same.symm)) past

/-- A session that is past the gate is in the transaction, if there is one. -/
theorem InTurn.past_turn (inTurn : InTurn sizes system db owner) (past : (system.sessions id).Past) :
    owner = none ∨ owner = some id := by
  cases own : owner with
  | none => exact Or.inl rfl
  | some holder =>
      have owned := inTurn.owns own
      rcases inTurn.past_owner past with none | same
      · rw [none] at owned
        cases owned
      · rw [same] at owned
        exact Or.inr owned.symm

/-- Nothing but the places of sessions changed, and the owner of the gate. -/
theorem InTurn.moved (inTurn : InTurn sizes system db owner) (gated : after.Gated)
    (storage : after.storage = system.storage)
    (flags : ∀ id, (after.sessions id).inTransaction = (system.sessions id).inTransaction)
    (aside : ∀ id other, after.txnOwner = some id → other ≠ id → ¬ (after.sessions other).Past) :
    InTurn sizes after db owner where
  gated := gated
  represents := by
    rw [storage]
    exact inTurn.represents
  flags := fun id => by rw [flags, inTurn.flags]
  aside := aside
  idle := inTurn.idle

/-- One session moved, to a place that is past the gate only if it owns the gate or nobody does. -/
theorem InTurn.aside_set (inTurn : InTurn sizes system db owner) {next : Session}
    (past : next.Past → system.txnOwner = none ∨ system.txnOwner = some id) :
    ∀ holder other, system.txnOwner = some holder → other ≠ holder →
      ¬ ((system.set id next).sessions other).Past := by
  intro holder other owned apart
  by_cases same : other = id
  · subst same
    rw [set_self]
    intro there
    rcases past there with none | own
    · rw [none] at owned
      cases owned
    · rw [own] at owned
      exact apart (Option.some.inj owned)
  · rw [set_other same]
    exact inTurn.aside holder other owned apart

theorem InTurn.start (inTurn : InTurn sizes system db owner)
    (ran : system.start id operation = some after) : InTurn sizes after db owner := by
  have gated := inTurn.gated.start ran
  obtain ⟨idle, rfl⟩ := start_eq_some ran
  refine inTurn.moved gated rfl (set_flags (start_flag _ _)) (inTurn.aside_set fun past => Or.inr ?_)
  exact (inTurn.gated.owner id).mpr (Or.inl (Session.start_past past))

theorem InTurn.check (inTurn : InTurn sizes system db owner) (clear : system.ClaimsClear (id, .check))
    (ran : system.check id = some after) : InTurn sizes after db owner := by
  have gated := inTurn.gated.check ran
  rcases check_eq_some ran with ⟨claims, free, rfl⟩ | ⟨operation, passes, notBegin, turn, rfl⟩ |
    ⟨operation, waits, owned, apart, rfl⟩
  · refine inTurn.moved gated rfl (set_flags rfl) fun holder other owned apart => ?_
    obtain rfl := Option.some.inj owned
    change ¬ ((system.set id _).sessions other).Past
    rw [set_other apart]
    exact clear rfl claims free other apart
  · exact inTurn.moved gated rfl (set_flags rfl) (inTurn.aside_set fun _ => turn)
  · refine inTurn.moved gated rfl (set_flags rfl) (inTurn.aside_set fun past => ?_)
    simp [Session.Past, Session.at_] at past

theorem InTurn.wake (inTurn : InTurn sizes system db owner) (ran : system.wake id = some after) :
    InTurn sizes after db owner := by
  have gated := inTurn.gated.wake ran
  obtain ⟨operation, parked, rfl⟩ := wake_eq_some ran
  refine inTurn.moved gated rfl (set_flags rfl) (inTurn.aside_set fun past => ?_)
  simp [Session.Past, Session.at_] at past

theorem InTurn.enter (inTurn : InTurn sizes system db owner) (ran : system.enter id = some after) :
    InTurn sizes after db owner := by
  have gated := inTurn.gated.enter ran
  obtain ⟨operation, lock, locking, -, rfl⟩ := enter_eq_some ran
  exact inTurn.moved gated rfl (set_flags rfl)
    (inTurn.aside_set fun _ => inTurn.past_owner ⟨operation, Or.inl locking⟩)

theorem InTurn.release (inTurn : InTurn sizes system db owner) (ran : system.release id = some after) :
    InTurn sizes after db owner := by
  have gated := inTurn.gated.release ran
  obtain ⟨operation, answer, releasing, rfl⟩ := release_eq_some ran
  have holding : (system.sessions id).Holding := Or.inr (Or.inr (Or.inr ⟨operation, answer, releasing⟩))
  have owned := (inTurn.gated.owner id).mpr holding
  refine inTurn.moved gated rfl (fun other => ?_) fun holder other owns => ?_
  · by_cases same : other = id
    · subst same
      simp [(Session.afterRelease_phase _ answer operation).1]
    · simp [same, notified_flag]
  · rw [if_pos owned] at owns
    cases owns

/-! ### Closures -/

/-- Statements leave it open which tables are in a transaction. -/
theorem idle_statement {answer : Except Fault Answer} {left : Database} (statement : operation.IsStatement)
    (step : Database.Step db operation answer left)
    (idle : ∀ name view, db name = some view → view.inTransaction = false) :
    ∀ name view, left name = some view → view.inTransaction = false := by
  have put {table : String} {changed : TableView} (closed : changed.inTransaction = false) :
      ∀ name view, db.put table changed name = some view → view.inTransaction = false := by
    intro name view present
    by_cases own : name = table
    · subst own
      rw [Database.put, Function.update_self, Option.some.injEq] at present
      rwa [← present]
    · rw [Database.put, Function.update_of_ne own] at present
      exact idle name view present
  cases step with
  | created => exact put rfl
  | @inserted _ view _ present =>
      refine put ?_
      rw [TableView.inTransaction_insert]
      exact idle _ view present
  | full present _ _ ways =>
      refine put ?_
      have closed := idle _ _ present
      rcases ways with rfl | rfl
      · exact closed
      · exact closed
  | taken | missing | refused | selected | dumped => exact idle
  | begun | busy | committed | rolledBack | dropped => exact statement.elim

theorem idle_map {change : TableView → TableView} (closed : ∀ view, (change view).inTransaction = false) :
    ∀ name view, db.map change name = some view → view.inTransaction = false := by
  intro name view present
  obtain ⟨before, -, rfl⟩ := Option.map_eq_some_iff.mp present
  exact closed before

theorem InTurn.leave (inTurn : InTurn sizes system db owner) (steady : ∀ name, BTree.Steady (sizes name))
    (fitting : system.Fitting sizes (id, .leave)) (ran : system.leave id = some after) :
    ∃ left next, InTurn sizes after left next ∧ ∃ entry, system.shows (id, .leave) = [entry] ∧
      Serial (db, owner) entry (left, next) := by
  have gated := inTurn.gated.leave ran
  obtain ⟨operation, inside, -, rfl⟩ := leave_eq_some ran
  have allowed := inTurn.gated.allowed (Or.inr (Or.inr (Or.inr inside)))
  have sized := fitting rfl operation inside
  obtain ⟨answer, storage, left, closure, step, represents⟩ := inTurn.represents.step steady sized
  rw [closure] at gated ⊢
  have shown : system.shows (id, .leave) = [⟨id, operation, answer⟩] := by
    unfold shows
    simp only [inside, closure]
  have turn := inTurn.past_turn ⟨operation, Or.inr inside⟩
  -- the invariant after the closure, when the flags fit the next owner
  have reached (next : Option Nat)
      (own : ((system.sessions id).afterClosure answer operation).inTransaction = true ↔ next = some id)
      (others : ∀ other, other ≠ id → (owner = some other ↔ next = some other))
      (idle : next = none → ∀ name view, left name = some view → view.inTransaction = false) :
      InTurn sizes { system.set id ((system.sessions id).afterClosure answer operation) with
        storage, lock := system.lock.drop id } left next := by
    refine ⟨gated, represents, fun other => ?_, ?_, idle⟩
    · change ((system.set id _).sessions other).inTransaction = true ↔ _
      by_cases same : other = id
      · subst same
        rw [set_self]
        exact own
      · rw [set_other same, inTurn.flags]
        exact others other same
    · exact inTurn.aside_set fun past => absurd past (Session.afterClosure_not_past _ _ _)
  have ended (ends : operation = .commit ∨ operation = .rollback ∨ operation = .drop)
      (closed : ((system.sessions id).afterClosure answer operation).inTransaction = false)
      (busy : (system.sessions id).inTransaction = true)
      (idle : ∀ name view, left name = some view → view.inTransaction = false)
      (step : Database.Step db operation answer left) :
      ∃ left next, InTurn sizes { system.set id ((system.sessions id).afterClosure answer operation) with
        storage, lock := system.lock.drop id } left next ∧ ∃ entry,
        system.shows (id, .leave) = [entry] ∧ Serial (db, owner) entry (left, next) := by
    have own := (inTurn.flags id).mp busy
    refine ⟨left, none, reached none (by simp [closed]) (fun other apart => ?_) (fun _ => idle), _, shown,
      step, .ended ends own⟩
    simp [own, Ne.symm apart]
  by_cases statement : operation.IsStatement
  · refine ⟨left, owner, reached owner ?_ (fun _ _ => Iff.rfl) (fun free => ?_), _, shown, step,
      .statement statement turn⟩
    · rw [← inTurn.flags id]
      cases operation <;> first | rfl | exact statement.elim
    · exact idle_statement statement step (inTurn.idle free)
  · cases operation with
    | begin =>
        have free : owner = none := by
          rcases turn with none | own
          · exact none
          · rw [(inTurn.flags id).mpr own] at allowed
            cases allowed
        cases step with
        | missing about => cases about
        | begun =>
            refine ⟨_, some id, reached (some id) (by simp [Session.afterClosure]) (fun other apart => ?_)
              (fun none => by cases none), _, shown, .begun (inTurn.idle free), .begun free rfl rfl⟩
            simp [free, Ne.symm apart]
        | busy present open_ =>
            rw [inTurn.idle free _ _ present] at open_
            cases open_
    | commit =>
        cases step with
        | missing about => cases about
        | committed =>
            exact ended (Or.inl rfl) rfl allowed (idle_map fun _ => rfl) .committed
    | rollback =>
        cases step with
        | missing about => cases about
        | rolledBack =>
            exact ended (Or.inr (Or.inl rfl)) rfl allowed (idle_map fun _ => rfl) .rolledBack
    | drop =>
        cases step with
        | missing about => cases about
        | dropped =>
            exact ended (Or.inr (Or.inr rfl)) rfl allowed (idle_map fun _ => rfl) .dropped
    | _ => exact absurd trivial statement

/-- Every section. -/
theorem InTurn.step {shown : List Entry} (inTurn : InTurn sizes system db owner)
    (steady : ∀ name, BTree.Steady (sizes name)) (taken : StepClear sizes system shown after) :
    ∃ left next, Reaches Serial (db, owner) shown (left, next) ∧ InTurn sizes after left next := by
  obtain ⟨⟨id, action⟩, clear, fitting, rfl, ran⟩ := taken
  cases action with
  | start operation => exact ⟨db, owner, .refl, inTurn.start ran⟩
  | check => exact ⟨db, owner, .refl, inTurn.check clear ran⟩
  | wake => exact ⟨db, owner, .refl, inTurn.wake ran⟩
  | enter => exact ⟨db, owner, .refl, inTurn.enter ran⟩
  | leave =>
      obtain ⟨left, next, reached, entry, shown, serial⟩ := inTurn.leave steady fitting ran
      rw [shown]
      exact ⟨left, next, Reaches.refl.next serial, reached⟩
  | release => exact ⟨db, owner, .refl, inTurn.release ran⟩

end InTurn

/-! ### Runs -/

section Runs

variable {host : Host} {logs : List (List Entry)}

theorem reaches_inTurn (steady : ∀ name, BTree.Steady (sizes name))
    (reaches : Reaches (StepClear sizes) (new (Storage.new host (fun _ => none) [])) logs system) :
    ∃ db owner, Reaches Serial (.empty, none) logs.flatten (db, owner) ∧ InTurn sizes system db owner := by
  obtain ⟨⟨db, owner⟩, ran, inTurn⟩ := @Reaches.observation _ _ _ (StepClear sizes) Serial
    (fun system shown => InTurn sizes system shown.1 shown.2) _ (Database.empty, none)
    (inTurn_new sizes host) (fun system shown after view inTurn taken => by
      obtain ⟨left, next, ran, reached⟩ := inTurn.step steady taken
      exact ⟨(left, next), ran, reached⟩) _ _ reaches
  exact ⟨db, owner, ran, inTurn⟩

/-- What happened to the server. -/
def history (logs : List (List Entry)) : List Event :=
  logs.flatten.map fun entry => .ran entry.operation entry.answer

theorem lives_history {db : Database} {owner : Option Nat} {entries : List Entry}
    (ran : Reaches Serial (.empty, none) entries (db, owner)) :
    Reaches Database.Lives .empty (entries.map fun entry => .ran entry.operation entry.answer) db :=
  ran.image Prod.fst _ fun _ _ _ serial => .ran serial.1

/-- In such a run a scan returns every row of an insert of any session that was acknowledged outside a
transaction, or in one that was committed or is still open, and no row that was not sent. -/
theorem sessions_keep (steady : ∀ name, BTree.Steady (sizes name))
    (reaches : Reaches (StepClear sizes) (new (Storage.new host (fun _ => none) [])) logs system)
    {name : String} {headers : List String} {rows : List Row} {storage : Storage}
    (scanned : (Operation.selectAll name).closure system.storage = (.ok (.rows headers rows), storage)) :
    (Receipts.of name (history logs)).kept + (Receipts.of name (history logs)).pending ≤ rows ∧
      (rows : Multiset Row) ≤ (Receipts.of name (history logs)).sent := by
  obtain ⟨db, owner, ran, inTurn⟩ := reaches_inTurn steady reaches
  have agrees : Receipts.Agrees name (Receipts.of name (history logs)) db := by
    refine Reaches.recorded (Receipts.agrees_empty name) ?_ (lives_history ran)
    exact fun _ _ _ _ agrees lives => agrees.lives lives
  obtain ⟨view, present, scan⟩ := inTurn.represents.scanned steady scanned
  rw [scan.1]
  exact ⟨(agrees.covers view present).promised, (agrees.covers view present).liveSent⟩

/-- A session that is in no transaction reads exactly the rows that are committed, and a session in a
transaction also those that it inserted itself. -/
theorem reads_committed (steady : ∀ name, BTree.Steady (sizes name))
    (reaches : Reaches (StepClear sizes) (new (Storage.new host (fun _ => none) [])) logs system)
    {name : String} (plain : Receipts.PlainAll name (history logs)) {id : Nat}
    (inside : (system.sessions id).phase = .inside (.selectAll name))
    {headers : List String} {rows : List Row} {storage : Storage}
    (scanned : (Operation.selectAll name).closure system.storage = (.ok (.rows headers rows), storage)) :
    (rows : Multiset Row) = if (system.sessions id).inTransaction
      then (Receipts.of name (history logs)).kept + (Receipts.of name (history logs)).pending
      else (Receipts.of name (history logs)).kept := by
  obtain ⟨db, owner, ran, inTurn⟩ := reaches_inTurn steady reaches
  have knows : Receipts.Knows name (Receipts.of name (history logs)) db := by
    refine Reaches.recorded_good (Receipts.knows_empty name) ?_ (lives_history ran) plain
    exact fun _ _ _ _ knows good lives => knows.lives good lives
  obtain ⟨view, present, scan⟩ := inTurn.represents.scanned steady scanned
  rw [scan.1, knows.live view present]
  split
  · rfl
  · next outside =>
      have free : owner = none := by
        rcases inTurn.past_turn ⟨_, Or.inr inside⟩ with none | own
        · exact none
        · exact absurd ((inTurn.flags id).mpr own) outside
      have closed := (knows.flags name view present).symm.trans (inTurn.idle free name view present)
      rw [knows.nothing closed, add_zero]

end Runs

/-! ### A table of numbers -/

section Numbers

/-- No session does anything. -/
structure Resting (system : System) : Prop where
  sessions : ∀ id, (system.sessions id).phase = .idle ∧ (system.sessions id).inTransaction = false
  lock : system.lock = .free
  owner : system.txnOwner = none

/-- A session goes through the gate with a statement, while no other one does anything. -/
theorem Resting.enters {operation : Operation} (resting : system.Resting) (statement : operation.IsStatement)
    (id : Nat) :
    ∃ inside, Reaches (StepClear sizes) system [[], [], []] inside ∧
      (inside.sessions id).phase = .inside operation ∧ (inside.sessions id).inTransaction = false ∧
      (∀ other, other ≠ id → inside.sessions other = system.sessions other) ∧
      inside.storage = system.storage ∧ inside.lock.drop id = .free ∧ inside.txnOwner = none := by
  obtain ⟨idle, outside⟩ := resting.sessions id
  have notBegin : operation ≠ .begin := by
    rintro rfl
    exact statement
  have starts : (system.sessions id).start operation = (system.sessions id).at_ (.gate operation) := by
    cases operation <;> first | rfl | exact statement.elim
  let gate := system.set id ((system.sessions id).at_ (.gate operation))
  let locking := gate.set id ((gate.sessions id).at_ (.locking operation))
  have gatePhase : (gate.sessions id).phase = .gate operation := by
    simp [gate, Session.at_]
  have lockingPhase : (locking.sessions id).phase = .locking operation := by
    simp [locking, Session.at_]
  have started : system.start id operation = some gate := by
    unfold System.start
    rw [idle]
    exact congrArg (fun session => some (system.set id session)) starts
  have checked : gate.check id = some locking := by
    have free : gate.txnOwner = none ∨ gate.txnOwner = some id := Or.inl resting.owner
    unfold System.check
    rw [gatePhase]
    cases operation <;> first | exact if_pos free | exact absurd rfl notBegin
  have same : locking.lock = .free := resting.lock
  obtain ⟨lock, acquired, dropped⟩ : ∃ lock, locking.lock.acquire id
      (operation.writes (locking.sessions id).inTransaction) = some lock ∧ lock.drop id = .free := by
    rw [same]
    refine ⟨_, rfl, ?_⟩
    cases operation.writes (locking.sessions id).inTransaction <;> simp [StorageLock.drop]
  have entered : locking.enter id =
      some { locking.set id ((locking.sessions id).at_ (.inside operation)) with lock } := by
    unfold System.enter
    rw [lockingPhase]
    exact congrArg (Option.map _) acquired
  have first : StepClear sizes system [] gate :=
    ⟨(id, .start operation), fun check => (by cases check), fun leave => (by cases leave), rfl, started⟩
  have second : StepClear sizes gate [] locking := by
    refine ⟨(id, .check), fun _ claims => ?_, fun leave => (by cases leave), rfl, checked⟩
    rw [gatePhase] at claims
    exact absurd (Phase.gate.inj claims) notBegin
  have third : StepClear sizes locking [] _ :=
    ⟨(id, .enter), fun check => (by cases check), fun leave => (by cases leave), rfl, entered⟩
  refine ⟨_, ((Reaches.refl.next first).next second).next third, ?_, ?_, fun other apart => ?_, rfl,
    dropped, resting.owner⟩
  · simp [Session.at_]
  · simp [locking, gate, Session.at_, outside]
  · simp [locking, gate, set, Function.update_of_ne apart]

/-- A statement of a session, while no other one does anything. -/
theorem Resting.passes {operation : Operation} {answer : Except Fault Answer} {storage : Storage}
    (resting : system.Resting) (statement : operation.IsStatement)
    (sized : Storage.Sized sizes system.storage operation)
    (closure : operation.closure system.storage = (answer, storage)) (back : cameBack answer = true)
    (id : Nat) :
    ∃ after, Reaches (StepClear sizes) system [[], [], [], [⟨id, operation, answer⟩]] after ∧
      after.Resting ∧ after.storage = storage := by
  obtain ⟨inside, entered, phase, outside, others, same, dropped, owner⟩ :=
    @Resting.enters sizes _ _ resting statement id
  rw [← same] at closure
  let after : System := { inside.set id ((inside.sessions id).afterClosure answer operation) with
    storage, lock := inside.lock.drop id }
  have left : inside.leave id = some after := by
    unfold System.leave
    rw [phase]
    simp only [closure]
    exact if_pos back
  have last : StepClear sizes inside [⟨id, operation, answer⟩] after := by
    refine ⟨(id, .leave), fun check => (by cases check), fun _ other at_ => ?_, ?_, left⟩
    · obtain rfl := Phase.inside.inj (phase.symm.trans at_)
      rwa [same]
    · simp [shows, phase, closure]
  have ended : ((inside.sessions id).afterClosure answer operation) = (inside.sessions id).returns answer := by
    cases operation <;> first | rfl | exact statement.elim
  refine ⟨after, entered.next last, ⟨fun other => ?_, dropped, owner⟩, rfl⟩
  change ((inside.set id _).sessions other).phase = .idle ∧
    ((inside.set id _).sessions other).inTransaction = false
  by_cases here : other = id
  · subst here
    rw [set_self, ended]
    exact ⟨rfl, outside⟩
  · rw [set_other here, others other here]
    exact resting.sessions other

theorem resting_new (storage : Storage) : (new storage).Resting where
  sessions := fun _ => ⟨rfl, rfl⟩
  lock := rfl
  owner := rfl

/-- Session 0 creates a table and inserts a number, and then session 1 is about to scan it. -/
def numberLogs : List (List Entry) :=
  [[], [], [], [⟨0, .createTable "t" [⟨"id", .integer⟩], .ok .done⟩]] ++
    [[], [], [], [⟨0, .insert "t" [.integer 7], .ok .done⟩]] ++ [[], [], []]

theorem sessions_number {host : Host}
    (own : host.resolve (Storage.pathOf "t") = Storage.pathOf "t") :
    ∃ system, Reaches (StepClear Storage.numbers) (new (Storage.new host (fun _ => none) []))
        numberLogs system ∧ (system.sessions 1).phase = .inside (.selectAll "t") ∧
      (system.sessions 1).inTransaction = false ∧ ∃ headers rows storage,
        (Operation.selectAll "t").closure system.storage = (.ok (.rows headers rows), storage) := by
  obtain ⟨middle, after, created, inserted, -, represents⟩ := Storage.represents_number own 7
  obtain ⟨first, ran, resting, rfl⟩ :=
    @Resting.passes _ _ (.createTable "t" _) _ _ (resting_new _) trivial created.1 created.2 rfl 0
  obtain ⟨second, further, resting, rfl⟩ :=
    @Resting.passes _ _ (.insert "t" _) _ _ resting trivial inserted.1 inserted.2 rfl 0
  obtain ⟨third, entered, phase, outside, -, same, -⟩ :=
    @Resting.enters Storage.numbers _ (.selectAll "t") resting trivial 1
  obtain ⟨headers, rows, storage, scanned⟩ := @Storage.Represents.scans _ _ _ "t" represents
    (by simp [Database.put])
  rw [← same] at scanned
  exact ⟨third, (ran.trans further).trans entered, phase, outside, headers, rows, storage, scanned⟩

theorem receipts_number : (Receipts.of "t" (history numberLogs)) =
    ⟨false, 0, {⟨[.integer 7]⟩}, {⟨[.integer 7]⟩}⟩ := by
  simp [Receipts.of, history, numberLogs, Receipts.record, Receipts.insert, Receipts.send, Receipts.blank]

theorem sessions_keep_number :
    ∃ system rows, Reaches (StepClear Storage.numbers)
        (new (Storage.new (Host.startingWith "t") (fun _ => none) [])) numberLogs system ∧
      {⟨[.integer 7]⟩} ≤ (rows : Multiset Row) := by
  obtain ⟨system, reaches, -, -, headers, rows, storage, scanned⟩ :=
    sessions_number Storage.keepsName_number.own
  have kept := (sessions_keep Storage.steady_numbers reaches scanned).1
  rw [receipts_number] at kept
  exact ⟨system, rows, reaches, kept⟩

/-- Session 1 reads the number that session 0 inserted. -/
theorem reads_committed_number :
    ∃ system headers rows storage, Reaches (StepClear Storage.numbers)
        (new (Storage.new (Host.startingWith "t") (fun _ => none) [])) numberLogs system ∧
      (Operation.selectAll "t").closure system.storage = (.ok (.rows headers rows), storage) ∧
      (rows : Multiset Row) = {⟨[.integer 7]⟩} := by
  obtain ⟨system, reaches, inside, outside, headers, rows, storage, scanned⟩ :=
    sessions_number Storage.keepsName_number.own
  have plain : Receipts.PlainAll "t" (history numberLogs) :=
    recordedGood_cons rfl (recordedGood_cons trivial (recordedGood_nil _ _ _))
  have read := reads_committed Storage.steady_numbers reaches plain inside scanned
  rw [outside, receipts_number] at read
  exact ⟨system, headers, rows, storage, reaches, scanned, read⟩

end Numbers

end System

end MukhiDb.Model
