import MukhiDb.Foundation.Exec

/-!
Contract: programs that call a component and go on with what it answers.

Owns: such programs with their sequencing; the conversations that a program may hold, whole or up to
some point; which calls a program makes; running one on a component with a state; and the rule that a
component which answers a conversation in this way runs the program to the same point.

Does not own: any particular component, and who else calls it meanwhile.
-/

namespace MukhiDb.Foundation

/-- A program that calls with `ι`, hears `ω` and returns `α`. -/
inductive Calls (ι ω α : Type) : Type where
  | done (value : Except Fault α)
  | call (input : ι) (next : ω → Calls ι ω α)

namespace Calls

variable {ι ω α β σ : Type}

/-- A program, and then another one on its value. -/
def andThen : Calls ι ω α → (α → Calls ι ω β) → Calls ι ω β
  | done (.ok value), continuation => continuation value
  | done (.error fault), _ => done (.error fault)
  | call input next, continuation => call input fun answer => (next answer).andThen continuation

instance : Monad (Calls ι ω) where
  pure value := done (.ok value)
  bind := andThen

instance : MonadLift (Except Fault) (Calls ι ω) where
  monadLift := done

/-- One call. -/
def ask (input : ι) : Calls ι ω ω := call input pure

@[simp] theorem pure_bind' (value : α) (continuation : α → Calls ι ω β) :
    ((pure value : Calls ι ω α) >>= continuation) = continuation value := rfl

@[simp] theorem ask_bind (input : ι) (continuation : ω → Calls ι ω β) :
    (ask input >>= continuation) = call input continuation := rfl

@[simp] theorem call_bind (input : ι) (next : ω → Calls ι ω α) (continuation : α → Calls ι ω β) :
    (call input next >>= continuation) = call input fun answer => next answer >>= continuation := rfl

@[simp] theorem done_ok_bind (value : α) (continuation : α → Calls ι ω β) :
    (done (.ok value) >>= continuation) = continuation value := rfl

@[simp] theorem done_error_bind (fault : Fault) (continuation : α → Calls ι ω β) :
    ((done (.error fault) : Calls ι ω α) >>= continuation) = done (.error fault) := rfl

@[simp] theorem lift_eq (value : Except Fault α) : (liftM value : Calls ι ω α) = done value := rfl

/-! ### Conversations -/

/-- What is left of a program after a conversation. -/
inductive Follows : Calls ι ω α → List (ι × ω) → Calls ι ω α → Prop where
  | silent (program : Calls ι ω α) : Follows program [] program
  | heard {input : ι} {next : ω → Calls ι ω α} {answer : ω} {talk : List (ι × ω)} {rest : Calls ι ω α}
      (later : Follows (next answer) talk rest) : Follows (call input next) ((input, answer) :: talk) rest

/-- The program holds this conversation and ends with this value. -/
def Holds (program : Calls ι ω α) (talk : List (ι × ω)) (value : Except Fault α) : Prop :=
  Follows program talk (done value)

section Follows

variable {program : Calls ι ω α} {talk : List (ι × ω)} {input : ι} {next : ω → Calls ι ω α} {answer : ω}

/-- One more answer. -/
theorem Follows.snoc (follows : Follows program talk (call input next)) (answer : ω) :
    Follows program (talk ++ [(input, answer)]) (next answer) := by
  generalize same : call input next = left at follows
  induction follows with
  | silent program =>
      subst same
      exact .heard (.silent _)
  | heard later inductionHypothesis => exact .heard (inductionHypothesis same)

@[simp] theorem holds_done {value other : Except Fault α} :
    Holds (done value : Calls ι ω α) talk other ↔ talk = [] ∧ other = value := by
  constructor
  · intro holds
    cases holds
    exact ⟨rfl, rfl⟩
  · rintro ⟨rfl, rfl⟩
    exact .silent _

/-- A program that calls hears one answer, and goes on. -/
theorem holds_call {value : Except Fault α} :
    Holds (call input next) talk value ↔
      ∃ answer later, talk = (input, answer) :: later ∧ Holds (next answer) later value := by
  constructor
  · intro holds
    cases holds with
    | heard later => exact ⟨_, _, rfl, later⟩
  · rintro ⟨answer, later, rfl, holds⟩
    exact .heard holds

/-- A program is at one place only after a conversation. -/
theorem Follows.unique {first second : Calls ι ω α} (one : Follows program talk first)
    (two : Follows program talk second) : first = second := by
  induction one with
  | silent program =>
      cases two
      rfl
  | heard later inductionHypothesis =>
      cases two with
      | heard other => exact inductionHypothesis other

end Follows

/-! ### Which calls are made -/

/-- The program makes calls of this kind only. -/
inductive Only (kind : ι → Prop) : Calls ι ω α → Prop where
  | done (value : Except Fault α) : Only kind (done value)
  | call {input : ι} {next : ω → Calls ι ω α} (this : kind input)
      (later : ∀ answer, Only kind (next answer)) : Only kind (call input next)

section Only

variable {kind : ι → Prop}

theorem Only.ask {input : ι} (this : kind input) : Only kind (ask input : Calls ι ω ω) :=
  .call this fun answer => .done (.ok answer)

theorem Only.bind {first : Calls ι ω α} {next : α → Calls ι ω β} (only : Only kind first)
    (others : ∀ value, Only kind (next value)) : Only kind (first >>= next) := by
  induction only with
  | done value =>
      cases value with
      | ok value => exact others value
      | error fault => exact .done _
  | call this _ inductionHypothesis => exact .call this inductionHypothesis

/-- What is left of the program makes such calls only. -/
theorem Follows.only {program rest : Calls ι ω α} {talk : List (ι × ω)} (follows : Follows program talk rest)
    (only : Only kind program) : Only kind rest := by
  induction follows with
  | silent program => exact only
  | heard _ inductionHypothesis =>
      cases only with
      | call this later => exact inductionHypothesis (later _)

/-- All that was called is of the kind. -/
theorem Follows.all {program rest : Calls ι ω α} {talk : List (ι × ω)} (follows : Follows program talk rest)
    (only : Only kind program) : ∀ said ∈ talk, kind said.1 := by
  induction follows with
  | silent program => exact fun said member => by cases member
  | heard _ inductionHypothesis =>
      cases only with
      | call this later => exact List.forall_mem_cons.mpr ⟨this, inductionHypothesis (later _)⟩

/-- The next call is of the kind. -/
theorem Follows.calls {program : Calls ι ω α} {talk : List (ι × ω)} {input : ι} {next : ω → Calls ι ω α}
    (follows : Follows program talk (.call input next)) (only : Only kind program) : kind input := by
  cases follows.only only with
  | call this _ => exact this

end Only

/-! ### Running on a component -/

/-- Run a program on a component. -/
def run (component : ι → Exec σ ω) : Calls ι ω α → Exec σ α
  | done value => Exec.ofExcept value
  | call input next => component input >>= fun answer => (next answer).run component

section Run

variable {component : ι → Exec σ ω}

@[simp] theorem run_done (value : Except Fault α) : (done value : Calls ι ω α).run component = Exec.ofExcept value :=
  rfl

@[simp] theorem run_call (input : ι) (next : ω → Calls ι ω α) :
    (call input next).run component = component input >>= fun answer => (next answer).run component := rfl

/-- A sequence of programs runs as the sequence of their runs. -/
theorem run_bind (first : Calls ι ω α) (next : α → Calls ι ω β) :
    (first >>= next).run component = first.run component >>= fun value => (next value).run component := by
  induction first with
  | done value => cases value <;> rfl
  | call input continuation inductionHypothesis =>
      simp only [call_bind, run_call, inductionHypothesis, bind_assoc]

/-- The component answers one after the other. -/
def Answers (component : ι → Exec σ ω) : σ → List (ι × ω) → σ → Prop
  | state, [], after => after = state
  | state, (input, answer) :: talk, after =>
      ∃ middle, component input state = (.ok answer, middle) ∧ Answers component middle talk after

/-- A component that answers a conversation in this way runs the program to where it is after it. -/
theorem Follows.run {program rest : Calls ι ω α} {talk : List (ι × ω)} {state after : σ}
    (follows : Follows program talk rest) (answers : Answers component state talk after) :
    program.run component state = rest.run component after := by
  induction follows generalizing state with
  | silent program =>
      obtain rfl := answers
      rfl
  | heard later inductionHypothesis =>
      obtain ⟨middle, answered, answers⟩ := answers
      rw [run_call, Exec.bind_ok answered]
      exact inductionHypothesis answers

end Run

end Calls

end MukhiDb.Foundation
