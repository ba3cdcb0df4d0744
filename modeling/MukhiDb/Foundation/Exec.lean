import Mathlib.Algebra.Order.Ring.Nat
import Mathlib.Tactic.Common

/-!
Contract: state-passing computations that can stop abnormally.

Owns: the four ways a step of an imperative program stops without a value; the
computation monad, which keeps the state that was reached when it stopped; the
rules that run a bind, and the rule that runs a computation on one field of a
larger state; and the rules for what every run preserves, what a returned value does
not depend on, and the faults that a caller gets to see.

Does not own: any particular state, file or program.
-/

namespace MukhiDb.Foundation

/-- How a computation stops without a value. -/
inductive Fault where
  /-- An error value with its message, handed to the caller. -/
  | error (message : String)
  /-- An assertion, a bounds check or an overflow check failed. -/
  | panic
  /-- The process was stopped from outside. -/
  | crash
  /-- A loop that never ends. -/
  | diverge
deriving DecidableEq, Repr

/-- A computation that returned a value continues with it. -/
@[simp] theorem ok_bind {α β : Type} (value : α) (next : α → Except Fault β) :
    (Except.ok value >>= next) = next value := rfl

/-- A computation over states `σ`. The state reached is returned also when the
computation stops with a fault: nothing is undone. -/
def Exec (σ : Type) (α : Type) : Type :=
  σ → Except Fault α × σ

namespace Exec

variable {σ τ α β : Type}

instance : Monad (Exec σ) where
  pure value := fun state => (.ok value, state)
  bind first next := fun state =>
    match first state with
    | (.ok value, state) => next value state
    | (.error fault, state) => (.error fault, state)

/-- Stop with a fault. -/
def throw (fault : Fault) : Exec σ α :=
  fun state => (.error fault, state)

/-- Run a computation that neither reads nor changes the state. -/
def ofExcept (value : Except Fault α) : Exec σ α :=
  fun state => (value, state)

/-- Read the state. -/
def get : Exec σ σ :=
  fun state => (.ok state, state)

/-- Change the state. -/
def modify (change : σ → σ) : Exec σ Unit :=
  fun state => (.ok (), change state)

/-- Run a computation on a part of the state. -/
def zoom (read : τ → σ) (write : σ → τ → τ) (inner : Exec σ α) : Exec τ α :=
  fun state => ((inner (read state)).1, write (inner (read state)).2 state)

/-- Hand an error value back as a result; the other faults still stop the
computation. -/
def attempt (inner : Exec σ α) : Exec σ (Except String α) :=
  fun state =>
    match inner state with
    | (.ok value, state) => (.ok (.ok value), state)
    | (.error (.error message), state) => (.ok (.error message), state)
    | (.error fault, state) => (.error fault, state)

/-! ### Running -/

@[simp] theorem run_pure (value : α) (state : σ) :
    (pure value : Exec σ α) state = (.ok value, state) := rfl

@[simp] theorem run_throw (fault : Fault) (state : σ) :
    (throw fault : Exec σ α) state = (.error fault, state) := rfl

@[simp] theorem run_ofExcept (value : Except Fault α) (state : σ) :
    (ofExcept value : Exec σ α) state = (value, state) := rfl

@[simp] theorem run_get (state : σ) : (get : Exec σ σ) state = (.ok state, state) := rfl

@[simp] theorem run_modify (change : σ → σ) (state : σ) :
    modify change state = (.ok (), change state) := rfl

theorem run_bind (first : Exec σ α) (next : α → Exec σ β) (state : σ) :
    (first >>= next) state =
      match first state with
      | (.ok value, after) => next value after
      | (.error fault, after) => (.error fault, after) := rfl

/-- A bind whose first part returned a value continues with it. -/
theorem bind_ok {first : Exec σ α} {next : α → Exec σ β} {state after : σ} {value : α}
    (ran : first state = (.ok value, after)) :
    (first >>= next) state = next value after := by
  rw [run_bind, ran]

/-- A bind whose first part stopped has stopped. -/
theorem bind_error {first : Exec σ α} {next : α → Exec σ β} {state after : σ} {fault : Fault}
    (ran : first state = (.error fault, after)) :
    (first >>= next) state = (.error fault, after) := by
  rw [run_bind, ran]

/-- Only the value is worked on after the first part. -/
theorem bind_pure_state (first : Exec σ α) (result : α → β) (state : σ) :
    ((first >>= fun value => pure (result value)) state).2 = (first state).2 := by
  rcases ran : first state with ⟨fault | value, after⟩
  · rw [bind_error ran]
  · rw [bind_ok ran, run_pure]

theorem attempt_ok {inner : Exec σ α} {state after : σ} {value : α}
    (ran : inner state = (.ok value, after)) : attempt inner state = (.ok (.ok value), after) := by
  unfold attempt
  rw [ran]

theorem attempt_error {inner : Exec σ α} {state after : σ} {message : String}
    (ran : inner state = (.error (.error message), after)) :
    attempt inner state = (.ok (.error message), after) := by
  unfold attempt
  rw [ran]

theorem attempt_fault {inner : Exec σ α} {state after : σ} {fault : Fault}
    (ran : inner state = (.error fault, after)) (other : ∀ message, fault ≠ .error message) :
    attempt inner state = (.error fault, after) := by
  unfold attempt
  rw [ran]
  cases fault with
  | error message => exact absurd rfl (other message)
  | panic => rfl
  | crash => rfl
  | diverge => rfl

/-- Binds agree when the continuations agree on every value the first part returns. -/
theorem bind_congr {first : Exec σ α} {next other : α → Exec σ β} {state : σ}
    (same : ∀ value after, first state = (.ok value, after) → next value after = other value after) :
    (first >>= next) state = (first >>= other) state := by
  rw [run_bind, run_bind]
  rcases ran : first state with ⟨_ | value, after⟩
  · rfl
  · exact same value after ran

/-- What a successful bind did, part by part. -/
theorem bind_eq_ok {first : Exec σ α} {next : α → Exec σ β} {state after : σ} {value : β} :
    (first >>= next) state = (.ok value, after) ↔
      ∃ middle between, first state = (.ok middle, between) ∧
        next middle between = (.ok value, after) := by
  rw [run_bind]
  rcases first state with ⟨_ | middle, between⟩
  · simp
  · simp

/-- Where a bind stopped. -/
theorem bind_eq_error {first : Exec σ α} {next : α → Exec σ β} {state after : σ} {fault : Fault} :
    (first >>= next) state = (.error fault, after) ↔
      first state = (.error fault, after) ∨
        ∃ middle between, first state = (.ok middle, between) ∧
          next middle between = (.error fault, after) := by
  rw [run_bind]
  rcases first state with ⟨stopped | middle, between⟩
  · simp
  · simp

@[simp] theorem run_zoom (read : τ → σ) (write : σ → τ → τ) (inner : Exec σ α) (state : τ) :
    zoom read write inner state =
      ((inner (read state)).1, write (inner (read state)).2 state) := rfl

/-- Running on a part of the state step by step. -/
theorem zoom_bind {read : τ → σ} {write : σ → τ → τ}
    (readWrite : ∀ inner state, read (write inner state) = inner)
    (writeWrite : ∀ inner middle state, write inner (write middle state) = write inner state)
    (first : Exec σ α) (next : α → Exec σ β) :
    zoom read write (first >>= next) =
      zoom read write first >>= fun value => zoom read write (next value) := by
  funext state
  rw [run_bind, run_zoom, run_zoom, run_bind]
  rcases first (read state) with ⟨_ | value, after⟩
  · rfl
  · dsimp only
    rw [run_zoom, readWrite, writeWrite]

/-! ### What every run preserves -/

/-- Whatever the outcome, the state reached is related to the state before. -/
def Preserves (relation : σ → σ → Prop) (program : Exec σ α) : Prop :=
  ∀ state, relation state (program state).2

section Preserves

variable {relation : σ → σ → Prop}

theorem Preserves.of_unchanged (reflexive : ∀ state, relation state state) {program : Exec σ α}
    (unchanged : ∀ state, (program state).2 = state) : Preserves relation program := by
  intro state
  rw [unchanged]
  exact reflexive state

theorem Preserves.bind
    (transitive : ∀ {first second third}, relation first second → relation second third →
      relation first third)
    {first : Exec σ α} {next : α → Exec σ β} (head : Preserves relation first)
    (tail : ∀ value, Preserves relation (next value)) : Preserves relation (first >>= next) := by
  intro state
  have reached := head state
  rw [run_bind]
  rcases ran : first state with ⟨_ | value, after⟩
  · rw [ran] at reached
    exact reached
  · rw [ran] at reached
    exact transitive reached (tail value after)

end Preserves

/-! ### What a run does not depend on -/

/-- A computation that returned a value returns it too when what `still` forgets is
forgotten first. -/
def Oblivious (still : σ → σ) (program : Exec σ α) : Prop :=
  ∀ state after value, program state = (.ok value, after) →
    program (still state) = (.ok value, still after)

section Oblivious

variable {still : σ → σ}

theorem Oblivious.pure (value : α) : Oblivious still (Pure.pure value : Exec σ α) := by
  intro state after found ran
  cases ran
  rfl

theorem Oblivious.ofExcept (value : Except Fault α) :
    Oblivious still (Exec.ofExcept value : Exec σ α) := by
  intro state after found ran
  obtain ⟨rfl, rfl⟩ := Prod.mk.inj ran
  rfl

theorem Oblivious.throw (fault : Fault) : Oblivious still (Exec.throw fault : Exec σ α) := by
  intro state after value ran
  cases ran

theorem Oblivious.modify {change : σ → σ}
    (commutes : ∀ state, change (still state) = still (change state)) :
    Oblivious still (Exec.modify change) := by
  intro state after value ran
  obtain ⟨-, rfl⟩ := Prod.mk.inj ran
  exact congrArg (Prod.mk _) (commutes state)

theorem Oblivious.bind {first : Exec σ α} {next : α → Exec σ β} (head : Oblivious still first)
    (tail : ∀ value, Oblivious still (next value)) : Oblivious still (first >>= next) := by
  intro state after value ran
  obtain ⟨middle, between, started, ended⟩ := bind_eq_ok.mp ran
  rw [bind_ok (head _ _ _ started)]
  exact tail middle _ _ _ ended

/-- Reading the state is allowed where the forgotten part of it is not looked at. -/
theorem Oblivious.getBind {next : σ → Exec σ β} (same : ∀ state, next (still state) = next state)
    (tail : ∀ state, Oblivious still (next state)) : Oblivious still (get >>= next) := by
  intro state after value ran
  rw [bind_ok (run_get state)] at ran
  rw [bind_ok (run_get (still state)), same]
  exact tail state _ _ _ ran

theorem Oblivious.zoom {forget : τ → τ} {read : τ → σ} {write : σ → τ → τ} {inner : Exec σ α}
    (reads : ∀ state, read (forget state) = still (read state))
    (writes : ∀ part state, write (still part) (forget state) = forget (write part state))
    (oblivious : Oblivious still inner) : Oblivious forget (zoom read write inner) := by
  intro state after value ran
  obtain ⟨result, rfl⟩ := Prod.mk.inj ran
  have kept := oblivious (read state) (inner (read state)).2 value (Prod.ext result rfl)
  rw [run_zoom, reads, kept, writes]

end Oblivious

/-! ### Faults that are reported -/

/-- The computation stops with an error value, or because the process was stopped. -/
def Reports (program : Exec σ α) : Prop :=
  ∀ state after fault, program state = (.error fault, after) → fault ≠ .panic ∧ fault ≠ .diverge

/-- The second part only has to report on values that the first one can return. -/
theorem Reports.bindOf {first : Exec σ α} {next : α → Exec σ β} {returned : α → Prop}
    (head : Reports first)
    (post : ∀ state after value, first state = (.ok value, after) → returned value)
    (tail : ∀ value, returned value → Reports (next value)) : Reports (first >>= next) := by
  intro state after fault ran
  rcases bind_eq_error.mp ran with stopped | ⟨value, between, started, ended⟩
  · exact head _ _ _ stopped
  · exact tail value (post _ _ _ started) _ _ _ ended

theorem Reports.bind {first : Exec σ α} {next : α → Exec σ β} (head : Reports first)
    (tail : ∀ value, Reports (next value)) : Reports (first >>= next) :=
  head.bindOf (fun _ _ _ _ => trivial) fun value _ => tail value

theorem Reports.of_returns {program : Exec σ α}
    (returns : ∀ state, ∃ value, (program state).1 = .ok value) : Reports program := by
  intro state after fault ran
  obtain ⟨value, returned⟩ := returns state
  rw [ran] at returned
  cases returned

theorem Reports.pure (value : α) : Reports (Pure.pure value : Exec σ α) :=
  Reports.of_returns fun _ => ⟨value, rfl⟩

theorem Reports.throw {fault : Fault} (reported : fault ≠ .panic ∧ fault ≠ .diverge) :
    Reports (Exec.throw fault : Exec σ α) := by
  intro state after other ran
  obtain ⟨same, -⟩ := Prod.mk.inj ran
  obtain rfl := Except.error.inj same
  exact reported

theorem Reports.modify (change : σ → σ) : Reports (Exec.modify change) :=
  Reports.of_returns fun _ => ⟨(), rfl⟩

theorem Reports.get : Reports (get : Exec σ σ) := Reports.of_returns fun state => ⟨state, rfl⟩

theorem Reports.zoom {read : τ → σ} {write : σ → τ → τ} {inner : Exec σ α}
    (reports : Reports inner) : Reports (zoom read write inner) := by
  intro state after fault ran
  obtain ⟨result, -⟩ := Prod.mk.inj ran
  exact reports (read state) (inner (read state)).2 fault (Prod.ext result rfl)

instance : LawfulMonad (Exec σ) := by
  refine LawfulMonad.mk' (Exec σ) ?_ ?_ ?_
  · intro α first
    funext state
    change (first >>= fun value => pure value) state = first state
    rw [run_bind]
    rcases first state with ⟨_ | value, after⟩ <;> rfl
  · intro α β value next
    rfl
  · intro α β γ first next last
    funext state
    simp only [run_bind]
    rcases first state with ⟨_ | value, after⟩ <;> rfl

end Exec

end MukhiDb.Foundation
