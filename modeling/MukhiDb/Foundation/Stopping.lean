import MukhiDb.Foundation.Medium
import MukhiDb.Foundation.Programs

/-!
Contract: computations that are cut off when the process is stopped.

Owns: what it means that a computation, when only so many more I/O calls take effect, either
is done by then and goes as if no call was cut off, or leaves what it may leave at any time;
and that parts of computations that are so make computations that are so, for all
states and from one state.

Does not own: computations that leave something half done.
-/

namespace MukhiDb.Foundation

/-- Stops of the process: the states whose I/O calls all take effect, and a state of which only
so many calls more do. -/
structure Stopping (σ : Type) where
  quiet : σ → Prop
  after : Nat → σ → σ

/-- What is left of the calls when some of them took effect. -/
theorem crashAt_drop {count calls bytes : Nat} (clear : Clear count (crashAt calls bytes)) :
    (crashAt calls bytes).drop count = crashAt (calls - count) bytes := by
  have within : count ≤ calls := by
    by_contra past
    have cut : IoOutcome.stopped bytes ∈ (crashAt calls bytes).take count := by
      unfold crashAt
      rw [List.take_append, List.mem_append]
      refine Or.inr ?_
      rw [List.length_replicate, List.take_of_length_le (by simp; omega)]
      exact List.mem_singleton_self _
    exact absurd (clear _ cut) (by simp)
  unfold crashAt
  rw [List.drop_append, List.drop_replicate, List.length_replicate, Nat.sub_eq_zero_of_le within,
    List.drop_zero]

/-- The stops of a process that works on one file. -/
def Medium.stopping : Stopping Medium where
  quiet medium := medium.schedule = []
  after calls medium := { medium with schedule := crashAt calls 0 }

namespace Exec

variable {σ τ α β : Type} {stopping : Stopping σ} {keeps : σ → σ → Prop}

/-- A run keeps what `keeps` says. When the process is stopped, the run goes as it goes without,
or it is cut off and keeps the same. -/
structure Spares (stopping : Stopping σ) (keeps : σ → σ → Prop) (program : Exec σ α) : Prop where
  quiet : ∀ state, stopping.quiet state → stopping.quiet (program state).2
  kept : ∀ state, stopping.quiet state → keeps state (program state).2
  stopped : ∀ state calls, stopping.quiet state →
    (∃ rest, program (stopping.after calls state) =
      ((program state).1, stopping.after rest (program state).2)) ∨
    ∃ cut, program (stopping.after calls state) = (.error .crash, cut) ∧ keeps state cut

/-! ### Parts -/

theorem Spares.ofExcept (reflexive : ∀ state, keeps state state) (value : Except Fault α) :
    Spares stopping keeps (Exec.ofExcept value : Exec σ α) where
  quiet := fun _ quiet => quiet
  kept := fun state _ => reflexive state
  stopped := fun _ calls _ => Or.inl ⟨calls, rfl⟩

theorem Spares.pure (reflexive : ∀ state, keeps state state) (value : α) :
    Spares stopping keeps (Pure.pure value : Exec σ α) :=
  Spares.ofExcept reflexive (.ok value)

theorem Spares.throw (reflexive : ∀ state, keeps state state) (fault : Fault) :
    Spares stopping keeps (Exec.throw fault : Exec σ α) :=
  Spares.ofExcept reflexive (.error fault)

/-- A change of the state that has nothing to do with stops. -/
theorem Spares.modify {change : σ → σ} (quiet : ∀ state, stopping.quiet state → stopping.quiet (change state))
    (kept : ∀ state, keeps state (change state))
    (commutes : ∀ calls state, change (stopping.after calls state) = stopping.after calls (change state)) :
    Spares stopping keeps (Exec.modify change) where
  quiet := quiet
  kept := fun state _ => kept state
  stopped := fun state calls _ => Or.inl ⟨calls, by rw [run_modify, commutes]; rfl⟩

/-- Reading the state, where the coming calls are not looked at. -/
theorem Spares.getBind {next : σ → Exec σ β} (same : ∀ calls state, next (stopping.after calls state) = next state)
    (tail : ∀ state, Spares stopping keeps (next state)) : Spares stopping keeps (get >>= next) where
  quiet := fun state => (tail state).quiet state
  kept := fun state => (tail state).kept state
  stopped := by
    intro state calls quiet
    have ran : (get >>= next) (stopping.after calls state) = next state (stopping.after calls state) :=
      congrFun (same calls state) _
    rw [ran]
    exact (tail state).stopped state calls quiet

theorem Spares.bind (transitive : ∀ first second third, keeps first second → keeps second third →
      keeps first third)
    {first : Exec σ α} {next : α → Exec σ β} (head : Spares stopping keeps first)
    (tail : ∀ value, Spares stopping keeps (next value)) : Spares stopping keeps (first >>= next) := by
  have whole (state : σ) (quiet : stopping.quiet state) :
      stopping.quiet ((first >>= next) state).2 ∧ keeps state ((first >>= next) state).2 := by
    have still := head.quiet state quiet
    have kept := head.kept state quiet
    rcases ran : first state with ⟨fault | value, middle⟩
    · rw [bind_error ran]
      rw [ran] at still kept
      exact ⟨still, kept⟩
    · rw [bind_ok ran]
      rw [ran] at still kept
      exact ⟨(tail value).quiet middle still, transitive _ _ _ kept ((tail value).kept middle still)⟩
  refine ⟨fun state quiet => (whole state quiet).1, fun state quiet => (whole state quiet).2,
    fun state calls quiet => ?_⟩
  have still := head.quiet state quiet
  have kept := head.kept state quiet
  rcases head.stopped state calls quiet with ⟨rest, went⟩ | ⟨cut, stopped, left⟩
  · rcases ran : first state with ⟨fault | value, middle⟩
    · rw [ran] at went
      rw [bind_error ran, bind_error went]
      exact Or.inl ⟨rest, rfl⟩
    · rw [ran] at went still kept
      rw [bind_ok ran, bind_ok went]
      rcases (tail value).stopped middle rest still with went | ⟨cut, stopped, left⟩
      · exact Or.inl went
      · exact Or.inr ⟨cut, stopped, transitive _ _ _ kept left⟩
  · exact Or.inr ⟨cut, bind_error stopped, left⟩

/-- A computation on a part of the state. -/
theorem Spares.zoom {inner : Stopping σ} {outer : Stopping τ} {keepsPart : σ → σ → Prop}
    {keepsWhole : τ → τ → Prop} {read : τ → σ} {write : σ → τ → τ} {program : Exec σ α}
    (quietRead : ∀ state, outer.quiet state → inner.quiet (read state))
    (quietWrite : ∀ part state, inner.quiet part → outer.quiet (write part state))
    (readStop : ∀ calls state, read (outer.after calls state) = inner.after calls (read state))
    (writeStop : ∀ calls rest part state,
      write (inner.after rest part) (outer.after calls state) = outer.after rest (write part state))
    (lifts : ∀ part state, keepsPart (read state) part → keepsWhole state (write part state))
    (forgets : ∀ calls part state, keepsWhole state (write part state) →
      keepsWhole state (write part (outer.after calls state)))
    (spares : Spares inner keepsPart program) : Spares outer keepsWhole (Exec.zoom read write program) where
  quiet := fun state quiet => quietWrite _ _ (spares.quiet _ (quietRead state quiet))
  kept := fun state quiet => lifts _ _ (spares.kept _ (quietRead state quiet))
  stopped := by
    intro state calls quiet
    rw [run_zoom, run_zoom, readStop]
    rcases spares.stopped (read state) calls (quietRead state quiet) with ⟨rest, went⟩ | ⟨cut, stopped, left⟩
    · rw [went, writeStop]
      exact Or.inl ⟨rest, rfl⟩
    · rw [stopped]
      exact Or.inr ⟨_, rfl, forgets calls _ _ (lifts _ _ left)⟩

/-! ### From one state -/

/-- From this state, the run goes as it goes without a stop, or it is cut off in a state as
described. -/
def CutOff (stopping : Stopping σ) (leaves : σ → Prop) (program : Exec σ α) (state : σ) : Prop :=
  ∀ calls, (∃ rest, program (stopping.after calls state) =
      ((program state).1, stopping.after rest (program state).2)) ∨
    ∃ fault cut, program (stopping.after calls state) = (.error fault, cut) ∧ leaves cut

section CutOff

variable {leaves : σ → Prop} {state : σ}

theorem Spares.cutOff {program : Exec σ α} (spares : Spares stopping keeps program)
    (quiet : stopping.quiet state) : CutOff stopping (keeps state) program state := by
  intro calls
  rcases spares.stopped state calls quiet with went | ⟨cut, stopped, kept⟩
  · exact Or.inl went
  · exact Or.inr ⟨_, cut, stopped, kept⟩

theorem CutOff.mono {weaker : σ → Prop} {program : Exec σ α} (cutOff : CutOff stopping leaves program state)
    (implies : ∀ cut, leaves cut → weaker cut) : CutOff stopping weaker program state := by
  intro calls
  rcases cutOff calls with went | ⟨fault, cut, stopped, left⟩
  · exact Or.inl went
  · exact Or.inr ⟨fault, cut, stopped, implies cut left⟩

theorem CutOff.pure (value : α) : CutOff stopping leaves (Pure.pure value : Exec σ α) state :=
  fun calls => Or.inl ⟨calls, rfl⟩

/-- The second part counts only where the first one succeeds. -/
theorem CutOff.bind {first : Exec σ α} {next : α → Exec σ β} (head : CutOff stopping leaves first state)
    (tail : ∀ value middle, first state = (.ok value, middle) → CutOff stopping leaves (next value) middle) :
    CutOff stopping leaves (first >>= next) state := by
  intro calls
  rcases head calls with ⟨rest, went⟩ | ⟨fault, cut, stopped, left⟩
  · rcases ran : first state with ⟨fault | value, middle⟩
    · rw [ran] at went
      rw [bind_error ran, bind_error went]
      exact Or.inl ⟨rest, rfl⟩
    · rw [ran] at went
      rw [bind_ok ran, bind_ok went]
      exact tail value middle ran rest
  · exact Or.inr ⟨fault, cut, bind_error stopped, left⟩

/-- Reading the state, where the coming calls are not looked at. -/
theorem CutOff.getBind {next : σ → Exec σ β} (same : ∀ calls, next (stopping.after calls state) = next state)
    (tail : CutOff stopping leaves (next state) state) : CutOff stopping leaves (get >>= next) state := by
  intro calls
  rw [bind_ok (run_get _), bind_ok (run_get _), same]
  exact tail calls

end CutOff

end Exec

/-! ### One call -/

/-- A call that leaves the file alone when nothing of it took effect. -/
theorem Medium.spares_perform {keeps : Medium → Medium → Prop} {describe : String → String}
    {partway : Nat → Bytes → Bytes} {whole : Bytes → Bytes}
    (does : ∀ bytes schedule, keeps ⟨bytes, []⟩ ⟨whole bytes, schedule⟩)
    (cut : ∀ bytes schedule, keeps ⟨bytes, []⟩ ⟨partway 0 bytes, schedule⟩) :
    Exec.Spares Medium.stopping keeps (Medium.perform describe partway whole) where
  quiet := by
    rintro ⟨bytes, schedule⟩ quiet
    obtain rfl : schedule = [] := quiet
    rfl
  kept := by
    rintro ⟨bytes, schedule⟩ quiet
    obtain rfl : schedule = [] := quiet
    exact does bytes []
  stopped := by
    rintro ⟨bytes, schedule⟩ calls quiet
    obtain rfl : schedule = [] := quiet
    cases calls with
    | zero => exact Or.inr ⟨_, rfl, cut bytes []⟩
    | succ rest => exact Or.inl ⟨rest, rfl⟩

/-! ### Programs -/

/-- If every call of a store spares something, every program does. -/
theorem Program.spares {σ ρ α : Type} {stopping : Stopping σ} {keeps : σ → σ → Prop} {store : Store σ ρ}
    (reflexive : ∀ state, keeps state state)
    (transitive : ∀ first second third, keeps first second → keeps second third → keeps first third)
    (load : ∀ index, Exec.Spares stopping keeps (store.load index))
    (change : ∀ index edit, Exec.Spares stopping keeps (store.change index edit))
    (allocate : Exec.Spares stopping keeps store.allocate) (program : Program ρ α) :
    Exec.Spares stopping keeps (program.run store) := by
  induction program with
  | result value => exact Exec.Spares.ofExcept reflexive value
  | load index next inductionHypothesis =>
      exact Exec.Spares.bind transitive (load index) inductionHypothesis
  | change index edit next inductionHypothesis =>
      exact Exec.Spares.bind transitive (change index edit) fun _ => inductionHypothesis
  | allocate next inductionHypothesis =>
      exact Exec.Spares.bind transitive allocate inductionHypothesis

end MukhiDb.Foundation
