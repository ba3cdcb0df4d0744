import Mathlib.Algebra.Order.Ring.Nat
import Mathlib.Data.List.Basic
import MukhiDb.Foundation.Exec

/-!
Contract: programs that reach a numbered store only by loading, changing and
allocating pages.

Owns: such programs with their sequencing; running one on any store; the rule
that two stores which simulate each other call by call run every program alike;
the rule that a relation kept by every call is kept by every program; programs that
only load, whose value depends on the answers alone; and books, which are the
stores of a plain list of pages.

Does not own: what the pages mean.
-/

namespace MukhiDb.Foundation

/-- A program over pages `ρ`. -/
inductive Program (ρ α : Type) : Type where
  | result (value : Except Fault α)
  | load (index : Nat) (next : ρ → Program ρ α)
  | change (index : Nat) (edit : ρ → Except Fault ρ) (next : Program ρ α)
  | allocate (next : Nat → Program ρ α)

namespace Program

variable {ρ σ τ α β : Type}

/-- Run a program, then another one on its value. -/
def andThen : Program ρ α → (α → Program ρ β) → Program ρ β
  | result (.ok value), continuation => continuation value
  | result (.error fault), _ => result (.error fault)
  | load index next, continuation => load index fun page => (next page).andThen continuation
  | change index edit next, continuation => change index edit (next.andThen continuation)
  | allocate next, continuation => allocate fun index => (next index).andThen continuation

instance : Monad (Program ρ) where
  pure value := result (.ok value)
  bind := andThen

instance : MonadLift (Except Fault) (Program ρ) where
  monadLift := result

/-- Load one page. -/
def fetch (index : Nat) : Program ρ ρ := load index pure

/-- Change one page in place. -/
def update (index : Nat) (edit : ρ → Except Fault ρ) : Program ρ Unit := change index edit (pure ())

/-- Allocate the next page. -/
def extend : Program ρ Nat := allocate pure

/-- Stop with a fault. -/
def stop (fault : Fault) : Program ρ α := result (.error fault)

end Program

/-- The three calls of a store with states `σ`. -/
structure Store (σ ρ : Type) where
  load : Nat → Exec σ ρ
  change : Nat → (ρ → Except Fault ρ) → Exec σ Unit
  allocate : Exec σ Nat

namespace Program

variable {ρ σ τ α β : Type}

/-- Run a program on a store. -/
def run (store : Store σ ρ) : Program ρ α → Exec σ α
  | result value => Exec.ofExcept value
  | load index next => store.load index >>= fun page => (next page).run store
  | change index edit next => store.change index edit >>= fun _ => next.run store
  | allocate next => store.allocate >>= fun index => (next index).run store

/-! ### Running the parts of a program -/

section Parts

variable (store : Store σ ρ)

@[simp] theorem run_pure (value : α) (state : σ) :
    (pure value : Program ρ α).run store state = (.ok value, state) := rfl

@[simp] theorem run_lift (value : Except Fault α) (state : σ) :
    (monadLift value : Program ρ α).run store state = (value, state) := rfl

@[simp] theorem run_stop (fault : Fault) (state : σ) :
    (stop fault : Program ρ α).run store state = (.error fault, state) := rfl

theorem run_fetch (index : Nat) (state : σ) :
    (fetch index).run store state = store.load index state :=
  congrFun (bind_pure (store.load index)) state

theorem run_update (index : Nat) (change : ρ → Except Fault ρ) (state : σ) :
    (update index change).run store state = store.change index change state :=
  congrFun (bind_pure (store.change index change)) state

theorem run_extend (state : σ) : extend.run store state = store.allocate state :=
  congrFun (bind_pure store.allocate) state

/-- A sequence of programs runs as the sequence of their runs. -/
theorem run_bind (first : Program ρ α) (next : α → Program ρ β) :
    (first >>= next).run store = first.run store >>= fun value => (next value).run store := by
  change (first.andThen next).run store = _
  induction first with
  | result value =>
      cases value with
      | ok value => rfl
      | error fault => rfl
  | load index continuation inductionHypothesis =>
      simp only [andThen, run, inductionHypothesis, bind_assoc]
  | change index edit continuation inductionHypothesis =>
      simp only [andThen, run, inductionHypothesis, bind_assoc]
  | allocate continuation inductionHypothesis =>
      simp only [andThen, run, inductionHypothesis, bind_assoc]

variable {store} {state after : σ}

/-- A sequence whose first program returned a value continues with it. -/
theorem run_bind_ok {first : Program ρ α} {next : α → Program ρ β} {value : α}
    (ran : first.run store state = (.ok value, after)) :
    (first >>= next).run store state = (next value).run store after := by
  rw [run_bind, Exec.bind_ok ran]

/-- A sequence that starts with a value computed without the store continues with it. -/
theorem run_lift_ok {computed : Except Fault α} {next : α → Program ρ β} {value : α}
    (ok : computed = .ok value) :
    ((liftM computed : Program ρ α) >>= next).run store state = (next value).run store state := by
  subst ok
  rfl

/-- A sequence whose first program stopped has stopped. -/
theorem run_bind_error {first : Program ρ α} {next : α → Program ρ β} {fault : Fault}
    (ran : first.run store state = (.error fault, after)) :
    (first >>= next).run store state = (.error fault, after) := by
  rw [run_bind, Exec.bind_error ran]

end Parts

/-! ### What every call keeps -/

/-- A relation that every call of a store keeps is kept by every program. -/
theorem preserves {store : Store σ ρ} {relation : σ → σ → Prop}
    (reflexive : ∀ state, relation state state)
    (transitive : ∀ {first second third}, relation first second → relation second third →
      relation first third)
    (load : ∀ index, Exec.Preserves relation (store.load index))
    (change : ∀ index edit, Exec.Preserves relation (store.change index edit))
    (allocate : Exec.Preserves relation store.allocate) (program : Program ρ α) :
    Exec.Preserves relation (program.run store) := by
  induction program with
  | result value => exact fun state => reflexive state
  | load index next inductionHypothesis =>
      refine Exec.Preserves.bind ?_ (load index) inductionHypothesis
      exact fun left right => transitive left right
  | change index edit next inductionHypothesis =>
      refine Exec.Preserves.bind ?_ (change index edit) fun _ => inductionHypothesis
      exact fun left right => transitive left right
  | allocate next inductionHypothesis =>
      refine Exec.Preserves.bind ?_ allocate inductionHypothesis
      exact fun left right => transitive left right

/-- If no call of a store looks at what `still` forgets, no program does. -/
theorem oblivious {store : Store σ ρ} {still : σ → σ}
    (load : ∀ index, Exec.Oblivious still (store.load index))
    (change : ∀ index edit, Exec.Oblivious still (store.change index edit))
    (allocate : Exec.Oblivious still store.allocate) (program : Program ρ α) :
    Exec.Oblivious still (program.run store) := by
  induction program with
  | result value => exact Exec.Oblivious.ofExcept value
  | load index next inductionHypothesis => exact (load index).bind inductionHypothesis
  | change index edit next inductionHypothesis =>
      exact (change index edit).bind fun _ => inductionHypothesis
  | allocate next inductionHypothesis => exact allocate.bind inductionHypothesis

/-! ### Simulation -/

/-- Every outcome of the abstract computation but a crash is one of the concrete
computation, in related states. -/
def Simulates (related : σ → τ → Prop) (concrete : Exec σ α) (abstract : Exec τ α) : Prop :=
  ∀ state spec value specAfter, related state spec → abstract spec = (value, specAfter) →
    value ≠ .error .crash →
      ∃ after, concrete state = (value, after) ∧ related after specAfter

theorem Simulates.bind {related : σ → τ → Prop} {concrete : Exec σ α} {abstract : Exec τ α}
    {next : α → Exec σ β} {specNext : α → Exec τ β} (head : Simulates related concrete abstract)
    (tail : ∀ value, Simulates related (next value) (specNext value)) :
    Simulates related (concrete >>= next) (abstract >>= specNext) := by
  intro state spec value specAfter start ran noCrash
  rw [Exec.run_bind] at ran
  rcases first : abstract spec with ⟨fault | middle, between⟩
  · rw [first] at ran
    obtain ⟨rfl, rfl⟩ := Prod.mk.inj ran
    have kept : (Except.error fault : Except Fault α) ≠ .error .crash :=
      fun crash => noCrash (by cases crash; rfl)
    obtain ⟨after, stopped, related'⟩ := head state spec _ _ start first kept
    exact ⟨after, Exec.bind_error stopped, related'⟩
  · rw [first] at ran
    obtain ⟨after, returned, related'⟩ := head state spec _ _ start first (by simp)
    obtain ⟨last, ended, related''⟩ := tail middle after between value specAfter related' ran noCrash
    exact ⟨last, (Exec.bind_ok returned).trans ended, related''⟩

/-- Stores that simulate each other call by call run every program alike. -/
theorem simulates {concrete : Store σ ρ} {abstract : Store τ ρ} {related : σ → τ → Prop}
    (load : ∀ index, Simulates related (concrete.load index) (abstract.load index))
    (change : ∀ index edit,
      Simulates related (concrete.change index edit) (abstract.change index edit))
    (allocate : Simulates related concrete.allocate abstract.allocate) (program : Program ρ α) :
    Simulates related (program.run concrete) (program.run abstract) := by
  induction program with
  | result value =>
      intro state spec outcome specAfter start ran _
      obtain ⟨rfl, rfl⟩ := Prod.mk.inj ran
      exact ⟨state, rfl, start⟩
  | load index next inductionHypothesis =>
      exact (load index).bind inductionHypothesis
  | change index edit next inductionHypothesis =>
      exact (change index edit).bind fun _ => inductionHypothesis
  | allocate next inductionHypothesis =>
      exact allocate.bind inductionHypothesis

end Program

/-! ### Programs that only load -/

namespace Program

variable {ρ σ α β : Type}

/-- The program neither changes nor allocates a page. -/
inductive ReadOnly : Program ρ α → Prop where
  | result (value : Except Fault α) : ReadOnly (result value)
  | load {index : Nat} {next : ρ → Program ρ α} : (∀ page, ReadOnly (next page)) →
      ReadOnly (load index next)

theorem ReadOnly.bind {first : Program ρ α} {next : α → Program ρ β} (head : first.ReadOnly)
    (tail : ∀ value, (next value).ReadOnly) : (first >>= next).ReadOnly := by
  change (first.andThen next).ReadOnly
  induction head with
  | result value =>
      cases value with
      | ok value => exact tail value
      | error fault => exact ReadOnly.result _
  | load _ inductionHypothesis => exact ReadOnly.load inductionHypothesis

theorem readOnly_fetch (index : Nat) : (fetch index : Program ρ ρ).ReadOnly :=
  ReadOnly.load fun page => ReadOnly.result (.ok page)

theorem readOnly_lift (value : Except Fault α) : (liftM value : Program ρ α).ReadOnly :=
  ReadOnly.result value

theorem readOnly_stop (fault : Fault) : (stop fault : Program ρ α).ReadOnly :=
  ReadOnly.result _

/-- The store without a state, which gives a fixed answer for each page. -/
def fixed (answer : Nat → Except Fault ρ) : Store Unit ρ where
  load index := Exec.ofExcept (answer index)
  change _ _ := Exec.throw .crash
  allocate := Exec.throw .crash

/-- The value of a program that only loads, for fixed answers. -/
def evaluate (answer : Nat → Except Fault ρ) (program : Program ρ α) : Except Fault α :=
  (program.run (fixed answer) ()).1

@[simp] theorem evaluate_result (answer : Nat → Except Fault ρ) (value : Except Fault α) :
    (result value).evaluate answer = value := rfl

theorem evaluate_load {answer : Nat → Except Fault ρ} {index : Nat} {page : ρ}
    (found : answer index = .ok page) (next : ρ → Program ρ α) :
    (load index next).evaluate answer = (next page).evaluate answer := by
  have loaded : (fixed answer).load index () = (.ok page, ()) := Prod.ext found rfl
  exact congrArg Prod.fst (Exec.bind_ok loaded)

/-- Evaluation is a morphism of programs. -/
theorem evaluate_bind (answer : Nat → Except Fault ρ) (first : Program ρ α) (next : α → Program ρ β) :
    (first >>= next).evaluate answer = first.evaluate answer >>= fun value => (next value).evaluate answer := by
  unfold evaluate
  rw [run_bind]
  rcases ran : first.run (fixed answer) () with ⟨fault | value, ⟨⟩⟩
  · rw [Exec.bind_error ran]
    rfl
  · rw [Exec.bind_ok ran]
    rfl

theorem evaluate_load_error {answer : Nat → Except Fault ρ} {index : Nat} {fault : Fault}
    (refused : answer index = .error fault) (next : ρ → Program ρ α) :
    (load index next).evaluate answer = .error fault := by
  have loaded : (fixed answer).load index () = (.error fault, ()) := Prod.ext refused rfl
  exact congrArg Prod.fst (Exec.bind_error loaded)

/-- A store that answers loads in the same way in all states it reaches by loading
runs a program that only loads to its value for these answers. -/
theorem ReadOnly.run_eq {store : Store σ ρ} {answer : Nat → Except Fault ρ} (still : σ → Prop)
    (loads : ∀ state index, still state →
      (store.load index state).1 = answer index ∧ still (store.load index state).2)
    {program : Program ρ α} (readOnly : program.ReadOnly) {state : σ} (start : still state) :
    (program.run store state).1 = program.evaluate answer ∧ still (program.run store state).2 := by
  induction readOnly generalizing state with
  | result value => exact ⟨rfl, start⟩
  | @load index next _ inductionHypothesis =>
      obtain ⟨answered, kept⟩ := loads state index start
      unfold run
      rcases ran : store.load index state with ⟨fault | page, after⟩
      · rw [ran] at answered kept
        rw [Exec.bind_error ran, evaluate_load_error answered.symm]
        exact ⟨rfl, kept⟩
      · rw [ran] at answered kept
        rw [Exec.bind_ok ran, evaluate_load answered.symm]
        exact inductionHypothesis page kept

end Program

/-! ### Books -/

/-- What books are like: the number of pages they can have, the text that refuses a
page number past it, and what a new page holds. -/
structure Binding (ρ : Type) where
  limit : Nat
  refusal : Nat → String
  blank : ρ

namespace Binding

variable {ρ α : Type} (binding : Binding ρ) {book : List ρ} {index : Nat}

/-- The contents of a page. -/
def at_ (book : List ρ) (index : Nat) : ρ := book.getD index binding.blank

/-- The store whose states are lists of pages. Changing a page past the last one is
outside of what books describe, and crashes. -/
def store : Store (List ρ) ρ where
  load index := fun book =>
    if index < binding.limit then (.ok (binding.at_ book index), book)
    else (.error (.error (binding.refusal index)), book)
  change index edit := fun book =>
    if index < binding.limit then
      if index < book.length then
        match edit (binding.at_ book index) with
        | .ok page => (.ok (), book.set index page)
        | .error fault => (.error fault, book)
      else (.error .crash, book)
    else (.error (.error (binding.refusal index)), book)
  allocate := fun book =>
    if book.length < binding.limit then (.ok book.length, book ++ [binding.blank])
    else (.error (.error (binding.refusal book.length)), book)

theorem at_of_getElem? {page : ρ} (found : book[index]? = some page) :
    binding.at_ book index = page := by
  rw [at_, List.getD_eq_getElem?_getD, found, Option.getD_some]

theorem getElem?_of_lt (inside : index < book.length) :
    book[index]? = some (binding.at_ book index) := by
  rw [at_, List.getD_eq_getElem?_getD, List.getElem?_eq_getElem inside, Option.getD_some]

section Runs

variable {binding}

theorem run_fetch (below : index < binding.limit) (book : List ρ) :
    (Program.fetch index).run binding.store book = (.ok (binding.at_ book index), book) := by
  rw [Program.run_fetch]
  exact if_pos below

theorem run_update {edit : ρ → Except Fault ρ} {page : ρ} (below : index < binding.limit)
    (inside : index < book.length) (edited : edit (binding.at_ book index) = .ok page) :
    (Program.update index edit).run binding.store book = (.ok (), book.set index page) := by
  rw [Program.run_update]
  change (if index < binding.limit then _ else _) = _
  rw [if_pos below, if_pos inside, edited]

theorem run_update_error {edit : ρ → Except Fault ρ} {fault : Fault} (below : index < binding.limit)
    (inside : index < book.length) (stopped : edit (binding.at_ book index) = .error fault) :
    (Program.update index edit).run binding.store book = (.error fault, book) := by
  rw [Program.run_update]
  change (if index < binding.limit then _ else _) = _
  rw [if_pos below, if_pos inside, stopped]

theorem run_extend (room : book.length < binding.limit) :
    Program.extend.run binding.store book = (.ok book.length, book ++ [binding.blank]) := by
  rw [Program.run_extend]
  exact if_pos room

theorem run_extend_full (full : binding.limit ≤ book.length) :
    Program.extend.run binding.store book =
      (.error (.error (binding.refusal book.length)), book) := by
  rw [Program.run_extend]
  exact if_neg (Nat.not_lt_of_le full)

end Runs

end Binding

end MukhiDb.Foundation
