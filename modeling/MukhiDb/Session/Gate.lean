import MukhiDb.Foundation.Runs
import MukhiDb.Model.Session

/-!
Contract: the transaction gate under every interleaving of sessions.

Owns: what each section of a session does; the invariant that ties the owner of the
gate, the waiting sessions and the lock of the storage to the places of the sessions;
and, from it, that no wake-up is lost and that some session can always go on.

Does not own: what the closures do to the storage.
-/

namespace MukhiDb.Model

open MukhiDb.Foundation

/-! ### Places -/

namespace Operation

/-- The operation can have started with this flag. -/
def Allowed (inTransaction : Bool) : Operation → Prop
  | begin => inTransaction = false
  | commit | rollback | drop => inTransaction = true
  | _ => True

end Operation

namespace Session

variable {session : Session} {operation : Operation} {answer : Except Fault Answer}

/-- The session is between claiming the gate in `begin` and its own release. -/
def Holding (session : Session) : Prop :=
  session.inTransaction = true ∨ session.phase = .locking .begin ∨
    session.phase = .inside .begin ∨ ∃ operation answer, session.phase = .releasing operation answer

/-- The session waits on `txn_cv` and is not notified. -/
def Parked (session : Session) : Prop := ∃ operation, session.phase = .parked operation

/-- The session holds the lock of the storage. -/
def Inside (session : Session) : Prop := ∃ operation, session.phase = .inside operation

/-- An operation of the session is in progress. -/
def Working (session : Session) : Prop := session.phase ≠ .idle ∧ session.phase ≠ .gone

/-- The flag fits the place. -/
def Sensible (session : Session) : Prop :=
  match session.phase with
  | .idle => True
  | .gate operation | .parked operation | .locking operation | .inside operation =>
      operation.Allowed session.inTransaction
  | .releasing _ _ | .gone => session.inTransaction = false

-- The lemmas of this section compute the places that a section of an operation leads to.
attribute [local simp] start returns at_ afterClosure afterRelease notified
attribute [local simp] Sensible Holding Parked Inside Operation.Allowed

theorem start_sensible (session : Session) (operation : Operation) :
    (session.start operation).Sensible := by
  rcases flag : session.inTransaction with _ | _ <;> cases operation <;>
    simp [flag]

theorem start_holding (idle : session.phase = .idle) :
    (session.start operation).Holding ↔ session.Holding := by
  rcases flag : session.inTransaction with _ | _ <;> cases operation <;>
    simp [flag, idle]

theorem start_not_parked (session : Session) (operation : Operation) :
    ¬ (session.start operation).Parked := by
  rcases flag : session.inTransaction with _ | _ <;> cases operation <;>
    simp [flag]

theorem start_not_inside (session : Session) (operation : Operation) :
    ¬ (session.start operation).Inside := by
  rcases flag : session.inTransaction with _ | _ <;> cases operation <;>
    simp [flag]

theorem afterClosure_sensible (session : Session) (answer : Except Fault Answer)
    (operation : Operation) (allowed : operation.Allowed session.inTransaction) :
    (session.afterClosure answer operation).Sensible := by
  cases operation <;> rcases answer with _ | _ <;>
    simp_all

/-- A closure leaves the gate with the session that holds it. -/
theorem afterClosure_holding (inside : session.phase = .inside operation)
    (allowed : operation.Allowed session.inTransaction) :
    (session.afterClosure answer operation).Holding ↔ session.Holding := by
  cases operation <;> rcases answer with _ | _ <;>
    simp_all

theorem afterClosure_not_parked (session : Session) (answer : Except Fault Answer)
    (operation : Operation) : ¬ (session.afterClosure answer operation).Parked := by
  cases operation <;> rcases answer with _ | _ <;> simp

theorem afterClosure_not_inside (session : Session) (answer : Except Fault Answer)
    (operation : Operation) : ¬ (session.afterClosure answer operation).Inside := by
  cases operation <;> rcases answer with _ | _ <;> simp

theorem afterRelease_phase (session : Session) (answer : Except Fault Answer)
    (operation : Operation) :
    (session.afterRelease answer operation).inTransaction = session.inTransaction ∧
      ((session.afterRelease answer operation).phase = .idle ∨
        (session.afterRelease answer operation).phase = .gone) := by
  cases operation <;> simp

theorem notified_not_parked (session : Session) : ¬ session.notified.Parked := by
  unfold notified
  rcases phase : session.phase with _ | _ | _ | _ | _ | _ | _ <;> simp [phase]

theorem notified_holding (session : Session) : session.notified.Holding ↔ session.Holding := by
  unfold notified
  rcases phase : session.phase with _ | _ | _ | _ | _ | _ | _ <;> simp [phase]

theorem notified_inside (session : Session) : session.notified.Inside ↔ session.Inside := by
  unfold notified
  rcases phase : session.phase with _ | _ | _ | _ | _ | _ | _ <;> simp [phase]

theorem notified_sensible (sensible : session.Sensible) : session.notified.Sensible := by
  unfold notified
  rcases phase : session.phase with _ | _ | _ | _ | _ | _ | _ <;>
    simp_all

end Session

/-! ### The lock -/

namespace StorageLock

variable {lock after : StorageLock} {id other : Nat} {write : Bool}

/-- The session holds the lock. -/
def Holds (id : Nat) : StorageLock → Prop
  | free => False
  | writing holder => id = holder
  | reading ids => id ∈ ids

/-- Readers are listed once each, and there is one at least. -/
def Listed : StorageLock → Prop
  | reading ids => ids.Nodup ∧ ids ≠ []
  | _ => True

theorem holds_acquire (acquired : lock.acquire id write = some after) :
    after.Holds other ↔ other = id ∨ lock.Holds other := by
  cases lock <;> cases write <;> simp only [acquire, reduceCtorEq, Option.some.injEq, if_true,
    Bool.false_eq_true, if_false] at acquired
  all_goals subst acquired; simp [Holds]

theorem listed_acquire (listed : lock.Listed) (apart : ¬ lock.Holds id)
    (acquired : lock.acquire id write = some after) : after.Listed := by
  cases lock <;> cases write <;> simp only [acquire, reduceCtorEq, Option.some.injEq, if_true,
    Bool.false_eq_true, if_false] at acquired
  all_goals subst acquired; simp_all [Listed, Holds]

theorem holds_drop (listed : lock.Listed) (held : lock.Holds id) :
    (lock.drop id).Holds other ↔ other ≠ id ∧ lock.Holds other := by
  cases lock with
  | free => cases held
  | writing holder =>
      obtain rfl : id = holder := held
      simp [drop, Holds]
  | reading ids =>
      have erased : ∀ other, other ∈ ids.erase id ↔ other ≠ id ∧ other ∈ ids :=
        fun other => listed.1.mem_erase_iff
      by_cases none : ids.erase id = []
      · rw [none] at erased
        rw [drop, if_pos none]
        exact ⟨False.elim, fun there => absurd ((erased other).mpr there) List.not_mem_nil⟩
      · rw [drop, if_neg none]
        exact erased other

theorem listed_drop (listed : lock.Listed) : (lock.drop id).Listed := by
  cases lock with
  | free => trivial
  | writing holder => trivial
  | reading ids =>
      by_cases none : ids.erase id = []
      · rw [drop, if_pos none]
        trivial
      · rw [drop, if_neg none]
        exact ⟨listed.1.erase id, none⟩

/-- A lock that nobody holds is free for everybody. -/
theorem acquire_of_unheld (listed : lock.Listed) (unheld : ∀ other, ¬ lock.Holds other)
    (id : Nat) (write : Bool) : ∃ after, lock.acquire id write = some after := by
  cases lock with
  | free => exact ⟨_, rfl⟩
  | writing holder => exact (unheld holder rfl).elim
  | reading ids =>
      obtain ⟨first, member⟩ := List.exists_mem_of_ne_nil ids listed.2
      exact (unheld first member).elim

end StorageLock

/-! ### What a section does -/

namespace System

variable {system after : System} {id other : Nat} {operation : Operation}

@[simp] theorem set_self (system : System) (id : Nat) (session : Session) :
    (system.set id session).sessions id = session :=
  Function.update_self _ _ _

theorem set_other (different : other ≠ id) (session : Session) :
    (system.set id session).sessions other = system.sessions other :=
  Function.update_of_ne different _ _

theorem start_eq_some (ran : system.start id operation = some after) :
    (system.sessions id).phase = .idle ∧
      after = system.set id ((system.sessions id).start operation) := by
  unfold start at ran
  split at ran
  · next idle => exact ⟨idle, (Option.some.inj ran).symm⟩
  · contradiction

/-- The three ways a look at the owner ends. -/
theorem check_eq_some (ran : system.check id = some after) :
    ((system.sessions id).phase = .gate .begin ∧ system.txnOwner = none ∧
      after =
        { system.set id ((system.sessions id).at_ (.locking .begin)) with txnOwner := some id }) ∨
    (∃ operation, (system.sessions id).phase = .gate operation ∧ operation ≠ .begin ∧
      (system.txnOwner = none ∨ system.txnOwner = some id) ∧
      after = system.set id ((system.sessions id).at_ (.locking operation))) ∨
    ∃ operation, (system.sessions id).phase = .gate operation ∧ system.txnOwner ≠ none ∧
      (operation ≠ .begin → system.txnOwner ≠ some id) ∧
      after = system.set id ((system.sessions id).at_ (.parked operation)) := by
  unfold check at ran
  split at ran
  · next claims =>
      split at ran
      · next clear => exact Or.inl ⟨claims, clear, (Option.some.inj ran).symm⟩
      · next owned =>
          exact Or.inr (Or.inr ⟨.begin, claims, owned, fun other => absurd rfl other,
            (Option.some.inj ran).symm⟩)
  · next operation notBegin passes =>
      split at ran
      · next clear =>
          exact Or.inr (Or.inl ⟨operation, passes, notBegin, clear, (Option.some.inj ran).symm⟩)
      · next owned =>
          rw [not_or] at owned
          exact Or.inr (Or.inr ⟨operation, passes, owned.1, fun _ => owned.2,
            (Option.some.inj ran).symm⟩)
  · contradiction

theorem wake_eq_some (ran : system.wake id = some after) :
    ∃ operation, (system.sessions id).phase = .parked operation ∧
      after = system.set id ((system.sessions id).at_ (.gate operation)) := by
  unfold wake at ran
  split at ran
  · next operation parked => exact ⟨operation, parked, (Option.some.inj ran).symm⟩
  · contradiction

theorem enter_eq_some (ran : system.enter id = some after) :
    ∃ operation lock, (system.sessions id).phase = .locking operation ∧
      system.lock.acquire id (operation.writes (system.sessions id).inTransaction) = some lock ∧
      after = { system.set id ((system.sessions id).at_ (.inside operation)) with lock } := by
  unfold enter at ran
  split at ran
  · next operation locking =>
      obtain ⟨lock, acquired, rfl⟩ := Option.map_eq_some_iff.mp ran
      exact ⟨operation, lock, locking, acquired, rfl⟩
  · contradiction

theorem leave_eq_some (ran : system.leave id = some after) :
    ∃ operation, (system.sessions id).phase = .inside operation ∧
      cameBack (operation.closure system.storage).1 = true ∧
      after =
        { system.set id
            ((system.sessions id).afterClosure (operation.closure system.storage).1 operation) with
          storage := (operation.closure system.storage).2
          lock := system.lock.drop id } := by
  unfold leave at ran
  split at ran
  · next operation inside =>
      dsimp only at ran
      split at ran
      · next returned => exact ⟨operation, inside, returned, (Option.some.inj ran).symm⟩
      · contradiction
  · contradiction

theorem release_eq_some (ran : system.release id = some after) :
    ∃ operation answer, (system.sessions id).phase = .releasing operation answer ∧
      after =
        { system with
          txnOwner := if system.txnOwner = some id then none else system.txnOwner
          sessions := fun other =>
            if other = id then (system.sessions id).afterRelease answer operation
            else (system.sessions other).notified } := by
  unfold release at ran
  split at ran
  · next operation answer releasing =>
      exact ⟨operation, answer, releasing, (Option.some.inj ran).symm⟩
  · contradiction

/-! ### The invariant -/

/-- The owner of the gate is the session that holds it, no session waits for nothing, and
the lock is held by the sessions that are inside. -/
structure Gated (system : System) : Prop where
  sensible : ∀ id, (system.sessions id).Sensible
  owner : ∀ id, system.txnOwner = some id ↔ (system.sessions id).Holding
  waiting : ∀ id, (system.sessions id).Parked →
    system.txnOwner ≠ none ∧ system.txnOwner ≠ some id
  inside : ∀ id, system.lock.Holds id ↔ (system.sessions id).Inside
  listed : system.lock.Listed

theorem gated_new (storage : Storage) : (new storage).Gated where
  sensible := fun _ => trivial
  owner := by simp [new, Session.new, Session.Holding]
  waiting := by simp [new, Session.new, Session.Parked]
  inside := by simp [new, Session.new, Session.Inside, StorageLock.Holds]
  listed := trivial

/-- The operation that a session is at was allowed to start. -/
theorem Gated.allowed (gated : system.Gated)
    (at_ : (system.sessions id).phase = .gate operation ∨
      (system.sessions id).phase = .parked operation ∨
      (system.sessions id).phase = .locking operation ∨
      (system.sessions id).phase = .inside operation) :
    operation.Allowed (system.sessions id).inTransaction := by
  have sensible := gated.sensible id
  unfold Session.Sensible at sensible
  rcases at_ with phase | phase | phase | phase <;> rw [phase] at sensible <;> exact sensible

/-- One session moves, and neither the gate nor the lock changes hands. -/
theorem Gated.set (gated : system.Gated) {next : Session} (sensible : next.Sensible)
    (holding : next.Holding ↔ (system.sessions id).Holding)
    (waiting : next.Parked → system.txnOwner ≠ none ∧ system.txnOwner ≠ some id)
    (inside : next.Inside ↔ (system.sessions id).Inside) : (system.set id next).Gated where
  sensible := by
    intro other
    by_cases same : other = id
    · subst same
      rw [set_self]
      exact sensible
    · rw [set_other same]
      exact gated.sensible other
  owner := by
    intro other
    by_cases same : other = id
    · subst same
      rw [set_self, holding]
      exact gated.owner other
    · rw [set_other same]
      exact gated.owner other
  waiting := by
    intro other
    by_cases same : other = id
    · subst same
      rw [set_self]
      exact waiting
    · rw [set_other same]
      exact gated.waiting other
  inside := by
    intro other
    by_cases same : other = id
    · subst same
      rw [set_self, inside]
      exact gated.inside other
    · rw [set_other same]
      exact gated.inside other
  listed := gated.listed

/-- A session that claims the gate: nobody held it, so nobody waits. -/
theorem Gated.claim (gated : system.Gated) (claims : (system.sessions id).phase = .gate .begin)
    (clear : system.txnOwner = none) :
    ({ system.set id ((system.sessions id).at_ (.locking .begin)) with
        txnOwner := some id } : System).Gated where
  sensible := by
    intro other
    by_cases same : other = id
    · subst same
      change ((system.set other _).sessions other).Sensible
      rw [set_self]
      exact gated.allowed (Or.inl claims)
    · change ((system.set id _).sessions other).Sensible
      rw [set_other same]
      exact gated.sensible other
  owner := by
    intro other
    change some id = some other ↔ ((system.set id _).sessions other).Holding
    by_cases same : other = id
    · subst same
      rw [set_self]
      exact ⟨fun _ => Or.inr (Or.inl rfl), fun _ => rfl⟩
    · rw [set_other same, ← gated.owner other, clear]
      simp [Ne.symm same]
  waiting := by
    intro other
    change ((system.set id _).sessions other).Parked → some id ≠ none ∧ some id ≠ some other
    by_cases same : other = id
    · subst same
      rw [set_self]
      rintro ⟨operation, ⟨⟩⟩
    · rw [set_other same]
      exact fun parked => absurd clear (gated.waiting other parked).1
  inside := by
    intro other
    change system.lock.Holds other ↔ ((system.set id _).sessions other).Inside
    rw [gated.inside]
    by_cases same : other = id
    · subst same
      rw [set_self]
      simp [Session.Inside, Session.at_, claims]
    · rw [set_other same]
  listed := gated.listed

theorem Gated.check (gated : system.Gated) (ran : system.check id = some after) : after.Gated := by
  rcases check_eq_some ran with ⟨claims, clear, rfl⟩ | ⟨operation, passes, other, clear, rfl⟩ |
    ⟨operation, waits, owned, apart, rfl⟩
  · exact gated.claim claims clear
  · have sensible : ((system.sessions id).at_ (.locking operation)).Sensible :=
      gated.allowed (Or.inl passes)
    apply gated.set sensible
    · cases operation <;> simp_all [Session.Holding, Session.at_]
    · rintro ⟨operation, ⟨⟩⟩
    · simp [Session.Inside, Session.at_, passes]
  · have allowed := gated.allowed (Or.inl waits)
    have sensible : ((system.sessions id).at_ (.parked operation)).Sensible := allowed
    apply gated.set sensible
    · simp [Session.Holding, Session.at_, waits]
    · rintro -
      refine ⟨owned, ?_⟩
      by_cases claims : operation = .begin
      · subst claims
        have flag : (system.sessions id).inTransaction = false := allowed
        rw [Ne, gated.owner id]
        simp [Session.Holding, flag, waits]
      · exact apart claims
    · simp [Session.Inside, Session.at_, waits]

theorem Gated.start (gated : system.Gated) (ran : system.start id operation = some after) :
    after.Gated := by
  obtain ⟨idle, rfl⟩ := start_eq_some ran
  apply gated.set (Session.start_sensible _ _) (Session.start_holding idle)
  · exact fun parked => absurd parked (Session.start_not_parked _ _)
  · have outside : ¬ (system.sessions id).Inside := by simp [Session.Inside, idle]
    exact iff_of_false (Session.start_not_inside _ _) outside

theorem Gated.wake (gated : system.Gated) (ran : system.wake id = some after) : after.Gated := by
  obtain ⟨operation, parked, rfl⟩ := wake_eq_some ran
  have sensible : ((system.sessions id).at_ (.gate operation)).Sensible :=
    gated.allowed (Or.inr (Or.inl parked))
  apply gated.set sensible
  · simp [Session.Holding, Session.at_, parked]
  · rintro ⟨operation, ⟨⟩⟩
  · simp [Session.Inside, Session.at_, parked]

theorem Gated.enter (gated : system.Gated) (ran : system.enter id = some after) :
    after.Gated := by
  obtain ⟨operation, lock, locking, acquired, rfl⟩ := enter_eq_some ran
  have outside : ¬ system.lock.Holds id := by
    rw [gated.inside]
    rintro ⟨operation, inside⟩
    rw [inside] at locking
    contradiction
  have moved : ∀ other, lock.Holds other ↔
      ((system.set id ((system.sessions id).at_ (.inside operation))).sessions other).Inside := by
    intro other
    rw [StorageLock.holds_acquire acquired, gated.inside]
    by_cases same : other = id
    · subst same
      rw [set_self]
      exact ⟨fun _ => ⟨operation, rfl⟩, fun _ => Or.inl rfl⟩
    · rw [set_other same]
      exact or_iff_right same
  have sensible : ∀ other,
      ((system.set id ((system.sessions id).at_ (.inside operation))).sessions other).Sensible := by
    intro other
    by_cases same : other = id
    · subst same
      rw [set_self]
      exact gated.allowed (Or.inr (Or.inr (Or.inl locking)))
    · rw [set_other same]
      exact gated.sensible other
  refine ⟨sensible, ?_, ?_, moved, StorageLock.listed_acquire gated.listed outside acquired⟩
  · intro other
    by_cases same : other = id
    · subst same
      refine (gated.owner other).trans ?_
      change _ ↔ ((system.set other _).sessions other).Holding
      rw [set_self]
      simp [Session.Holding, Session.at_, locking]
    · refine (gated.owner other).trans ?_
      change _ ↔ ((system.set id _).sessions other).Holding
      rw [set_other same]
  · intro other
    change ((system.set id _).sessions other).Parked → _
    by_cases same : other = id
    · subst same
      rw [set_self]
      rintro ⟨operation, ⟨⟩⟩
    · rw [set_other same]
      exact gated.waiting other

theorem Gated.leave (gated : system.Gated) (ran : system.leave id = some after) :
    after.Gated := by
  obtain ⟨operation, inside, -, rfl⟩ := leave_eq_some ran
  have allowed := gated.allowed (Or.inr (Or.inr (Or.inr inside)))
  have held : system.lock.Holds id := (gated.inside id).mpr ⟨operation, inside⟩
  generalize (operation.closure system.storage).1 = answer
  refine ⟨?_, ?_, ?_, ?_, StorageLock.listed_drop gated.listed⟩
  · intro other
    change ((system.set id _).sessions other).Sensible
    by_cases same : other = id
    · subst same
      rw [set_self]
      exact Session.afterClosure_sensible _ _ _ allowed
    · rw [set_other same]
      exact gated.sensible other
  · intro other
    refine (gated.owner other).trans ?_
    change _ ↔ ((system.set id _).sessions other).Holding
    by_cases same : other = id
    · subst same
      rw [set_self, Session.afterClosure_holding inside allowed]
    · rw [set_other same]
  · intro other
    change ((system.set id _).sessions other).Parked → _
    by_cases same : other = id
    · subst same
      rw [set_self]
      exact fun parked => absurd parked (Session.afterClosure_not_parked _ _ _)
    · rw [set_other same]
      exact gated.waiting other
  · intro other
    change (system.lock.drop id).Holds other ↔ ((system.set id _).sessions other).Inside
    rw [StorageLock.holds_drop gated.listed held, gated.inside]
    by_cases same : other = id
    · subst same
      rw [set_self]
      exact ⟨fun both => absurd rfl both.1,
        fun there => absurd there (Session.afterClosure_not_inside _ _ _)⟩
    · rw [set_other same]
      exact and_iff_right same

theorem Gated.release (gated : system.Gated) (ran : system.release id = some after) :
    after.Gated := by
  obtain ⟨operation, answer, releasing, rfl⟩ := release_eq_some ran
  have owner : system.txnOwner = some id :=
    (gated.owner id).mpr (Or.inr (Or.inr (Or.inr ⟨operation, answer, releasing⟩)))
  have flag : (system.sessions id).inTransaction = false := by
    have sensible := gated.sensible id
    unfold Session.Sensible at sensible
    rw [releasing] at sensible
    exact sensible
  obtain ⟨flagAfter, phase⟩ := Session.afterRelease_phase (system.sessions id) answer operation
  rw [flag] at flagAfter
  rw [if_pos owner]
  refine ⟨?_, ?_, ?_, ?_, gated.listed⟩
  · intro other
    dsimp only
    split
    · rcases phase with phase | phase <;> simp [Session.Sensible, phase, flagAfter]
    · exact Session.notified_sensible (gated.sensible other)
  · intro other
    dsimp only
    split
    · rcases phase with phase | phase <;> simp [Session.Holding, phase, flagAfter]
    · next different =>
        rw [Session.notified_holding, ← gated.owner, owner]
        simp [Ne.symm different]
  · intro other
    dsimp only
    split
    · rcases phase with phase | phase <;> simp [Session.Parked, phase]
    · exact fun parked => absurd parked (Session.notified_not_parked _)
  · intro other
    dsimp only
    rw [gated.inside]
    split
    · next same =>
        subst same
        rcases phase with phase | phase <;> simp [Session.Inside, phase, releasing]
    · rw [Session.notified_inside]

/-- A section of a session. -/
def Step (system : System) (label : Nat × Action) (after : System) : Prop :=
  system.step label.1 label.2 = some after

/-- Take sections one after the other. -/
def run : List (Nat × Action) → System → Option System
  | [], system => some system
  | (id, action) :: rest, system => (system.step id action).bind (run rest)

theorem reaches_of_run {labels : List (Nat × Action)} (ran : run labels system = some after) :
    Reaches Step system labels after := by
  induction labels generalizing system with
  | nil =>
      obtain rfl := Option.some.inj ran
      exact Reaches.refl
  | cons label rest inductionHypothesis =>
      obtain ⟨middle, taken, later⟩ := Option.bind_eq_some_iff.mp ran
      exact Reaches.cons taken (inductionHypothesis later)

/-- A run that can be taken to its end, with what holds there. -/
theorem exists_run {holds : System → Prop} [DecidablePred holds] {labels : List (Nat × Action)}
    (ran : (run labels system).any (fun after => decide (holds after)) = true) :
    ∃ after, Reaches Step system labels after ∧ holds after := by
  obtain ⟨after, ended, held⟩ := (Option.any_eq_true _ _).mp ran
  exact ⟨after, reaches_of_run ended, of_decide_eq_true held⟩

/-- Every section keeps the gate in order. -/
theorem Gated.step {label : Nat × Action} (gated : system.Gated)
    (taken : Step system label after) : after.Gated := by
  obtain ⟨id, action⟩ := label
  cases action with
  | start operation => exact gated.start taken
  | check => exact gated.check taken
  | wake => exact gated.wake taken
  | enter => exact gated.enter taken
  | leave => exact gated.leave taken
  | release => exact gated.release taken

theorem reaches_gated {storage : Storage} {labels : List (Nat × Action)}
    (reaches : Reaches Step (new storage) labels system) : system.Gated :=
  reaches.invariant (gated_new storage) fun _ _ _ gated taken => gated.step taken

/-! ### Progress -/

end System

/-- The section goes on with an operation: it starts none, and it is no spurious wake-up. -/
def Action.GoesOn : Action → Prop
  | start _ | wake => False
  | check | enter | leave | release => True

namespace System

variable {system after : System} {id other : Nat} {operation : Operation}

theorem check_enabled (waits : (system.sessions id).phase = .gate operation) :
    ∃ after, system.check id = some after := by
  unfold check
  split
  · split
    · exact ⟨_, rfl⟩
    · exact ⟨_, rfl⟩
  · split
    · exact ⟨_, rfl⟩
    · exact ⟨_, rfl⟩
  · next other =>
      cases operation <;> simp_all

theorem enter_enabled {lock : StorageLock}
    (locking : (system.sessions id).phase = .locking operation)
    (acquired : system.lock.acquire id (operation.writes (system.sessions id).inTransaction) =
      some lock) : ∃ after, system.enter id = some after := by
  unfold enter
  rw [locking]
  dsimp only
  rw [acquired]
  exact ⟨_, rfl⟩

theorem leave_enabled (inside : (system.sessions id).phase = .inside operation)
    (returned : cameBack (operation.closure system.storage).1 = true) :
    ∃ after, system.leave id = some after := by
  unfold leave
  rw [inside]
  dsimp only
  rw [if_pos returned]
  exact ⟨_, rfl⟩

theorem release_enabled {answer : Except Fault Answer}
    (releasing : (system.sessions id).phase = .releasing operation answer) :
    ∃ after, system.release id = some after := by
  unfold release
  rw [releasing]
  exact ⟨_, rfl⟩

/-- The session can go on with its operation. -/
def CanGoOn (system : System) (id : Nat) : Prop :=
  ∃ action after, action.GoesOn ∧ system.step id action = some after

/-- A session with an operation in progress goes on unless it waits, for the gate or for
the lock. -/
theorem Gated.goes_on_or_waits (gated : system.Gated)
    (returns : ∀ operation, (system.sessions id).phase = .inside operation →
      cameBack (operation.closure system.storage).1 = true)
    (working : (system.sessions id).Working) :
    system.CanGoOn id ∨ (system.sessions id).Parked ∨ ∃ other, (system.sessions other).Inside := by
  rcases phase : (system.sessions id).phase with _ | operation | operation | operation |
    operation | ⟨operation, answer⟩ | _
  · exact absurd phase working.1
  · obtain ⟨after, taken⟩ := check_enabled phase
    exact Or.inl ⟨.check, after, trivial, taken⟩
  · exact Or.inr (Or.inl ⟨operation, phase⟩)
  · by_cases unheld : ∀ other, ¬ system.lock.Holds other
    · obtain ⟨lock, acquired⟩ := StorageLock.acquire_of_unheld gated.listed unheld id
        (operation.writes (system.sessions id).inTransaction)
      obtain ⟨after, taken⟩ := enter_enabled phase acquired
      exact Or.inl ⟨.enter, after, trivial, taken⟩
    · obtain ⟨other, held⟩ := not_forall_not.mp unheld
      exact Or.inr (Or.inr ⟨other, (gated.inside other).mp held⟩)
  · obtain ⟨after, taken⟩ := leave_enabled phase (returns operation phase)
    exact Or.inl ⟨.leave, after, trivial, taken⟩
  · obtain ⟨after, taken⟩ := release_enabled phase
    exact Or.inl ⟨.release, after, trivial, taken⟩
  · exact absurd phase working.2

/-- The owner of the gate is at work, unless it is idle inside its transaction. -/
theorem Gated.owner_working (gated : system.Gated) (owned : system.txnOwner = some id)
    (busy : (system.sessions id).phase = .idle → (system.sessions id).inTransaction = false) :
    (system.sessions id).Working ∧ ¬ (system.sessions id).Parked := by
  have holding := (gated.owner id).mp owned
  refine ⟨⟨?_, ?_⟩, fun parked => (gated.waiting id parked).2 owned⟩
  · intro idle
    simp [Session.Holding, idle, busy idle] at holding
  · intro gone
    have flag : (system.sessions id).inTransaction = false := by
      have sensible := gated.sensible id
      unfold Session.Sensible at sensible
      rw [gone] at sensible
      exact sensible
    simp [Session.Holding, gone, flag] at holding

/-- No wake-up is lost: a session that waits without a notification waits for an owner.
And there is no deadlock: while an operation is in progress and no session is idle inside
an open transaction, some session can go on with its operation. -/
theorem gate_live {storage : Storage} {labels : List (Nat × Action)}
    (reaches : Reaches Step (new storage) labels system) :
    (∀ id, (system.sessions id).Parked → ∃ owner, system.txnOwner = some owner) ∧
    ((∀ id operation, (system.sessions id).phase = .inside operation →
        cameBack (operation.closure system.storage).1 = true) →
      (∃ id, (system.sessions id).Working) →
      (∀ id, (system.sessions id).phase = .idle → (system.sessions id).inTransaction = false) →
      ∃ id, system.CanGoOn id) := by
  have gated := reaches_gated reaches
  constructor
  · intro id parked
    exact Option.ne_none_iff_exists'.mp (gated.waiting id parked).1
  · rintro returns ⟨id, working⟩ busy
    -- whoever is inside the storage can leave it
    have leaves : (∃ other, (system.sessions other).Inside) → ∃ id, system.CanGoOn id := by
      rintro ⟨other, operation, inside⟩
      obtain ⟨after, taken⟩ := leave_enabled inside (returns other operation inside)
      exact ⟨other, .leave, after, trivial, taken⟩
    rcases gated.goes_on_or_waits (returns id) working with can | parked | inside
    · exact ⟨id, can⟩
    · obtain ⟨owner, owned⟩ := Option.ne_none_iff_exists'.mp (gated.waiting id parked).1
      obtain ⟨ownerWorking, unparked⟩ := gated.owner_working owned (busy owner)
      rcases gated.goes_on_or_waits (returns owner) ownerWorking with can | parked | inside
      · exact ⟨owner, can⟩
      · exact absurd parked unparked
      · exact leaves inside
    · exact leaves inside

/-- BEGIN has nothing to do in a storage without tables. -/
theorem begin_without_tables (host : Host) (dir : String → Option Disk) (schedule : List IoOutcome) :
    Operation.begin.closure (Storage.new host dir schedule) =
      (.ok .done, Storage.new host dir schedule) := by
  have visited : (Storage.new host dir schedule).visited = [] :=
    List.eq_nil_iff_forall_not_mem.mpr fun name member =>
      absurd ((host.mem_order ∅ name).mp member) (Finset.notMem_empty name)
  have began : Storage.begin (Storage.new host dir schedule) =
      (.ok (), Storage.new host dir schedule) := by
    change Storage.forEach TableIo.begin (Storage.visited _) _ = _
    rw [visited]
    rfl
  exact Exec.bind_ok began

/-- Session 0 is inside the closure of its BEGIN, and the INSERT of session 1 waits. -/
theorem gate_live_waiting :
    ∃ system, Reaches Step (new (Storage.new (.startingWith "t") (fun _ => none) []))
        [(0, .start .begin), (0, .check), (1, .start (.insert "t" [])), (1, .check), (0, .enter)]
        system ∧
      (system.sessions 0).phase = .inside .begin ∧
      (system.sessions 1).phase = .parked (.insert "t" []) ∧
      (∃ owner, system.txnOwner = some owner) ∧ ∃ id, system.CanGoOn id := by
  have reaches : Reaches Step (new (Storage.new (.startingWith "t") (fun _ => none) []))
      [(0, .start .begin), (0, .check), (1, .start (.insert "t" [])), (1, .check), (0, .enter)] _ :=
    reaches_of_run rfl
  refine ⟨_, reaches, rfl, rfl, (gate_live reaches).1 1 ⟨_, rfl⟩, (gate_live reaches).2 ?_ ?_ ?_⟩
  · intro id operation inside
    match id with
    | 0 =>
        obtain rfl : Operation.begin = operation := by injection inside
        exact congrArg (fun ended => cameBack ended.1)
          (begin_without_tables (.startingWith "t") (fun _ => none) [])
    | 1 => nomatch inside
    | id + 2 => nomatch inside
  · exact ⟨0, nofun, nofun⟩
  · intro id _
    match id with
    | 0 => rfl
    | 1 => rfl
    | id + 2 => rfl

end System

end MukhiDb.Model
