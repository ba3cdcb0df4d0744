import Mathlib.Algebra.Order.Ring.Nat
import Mathlib.Tactic.Common

/-!
Contract: runs of deterministic machines, and of systems that may take one of
several steps.

Owns: the answers of a machine to a list of inputs; agreement of two machines
under a condition checked before every input, with its converse; and
reachability by labelled steps, with the invariant rule.

Does not own: any particular machine or system.
-/

namespace MukhiDb.Foundation

/-! ### Deterministic machines -/

/-- An input gives an answer and the next state. -/
abbrev Machine (σ ι ω : Type) := ι → σ → ω × σ

namespace Machine

variable {σ τ ι ω : Type}

/-- The answers to a list of inputs, and the state after them. -/
def run (machine : Machine σ ι ω) : List ι → σ → List ω × σ
  | [], state => ([], state)
  | input :: rest, state =>
      ((machine input state).1 :: (run machine rest (machine input state).2).1,
        (run machine rest (machine input state).2).2)

/-- A condition that holds before every input. -/
def Along (machine : Machine σ ι ω) (good : ι → σ → Prop) : List ι → σ → Prop
  | [], _ => True
  | input :: rest, state => good input state ∧ Along machine good rest (machine input state).2

theorem run_append (machine : Machine σ ι ω) (earlier later : List ι) (state : σ) :
    run machine (earlier ++ later) state =
      ((run machine earlier state).1 ++ (run machine later (run machine earlier state).2).1,
        (run machine later (run machine earlier state).2).2) := by
  induction earlier generalizing state with
  | nil => rfl
  | cons input rest inductionHypothesis =>
      simp only [List.cons_append, run, inductionHypothesis]

/-- The state after one more input. -/
theorem run_concat (machine : Machine σ ι ω) (earlier : List ι) (last : ι) (state : σ) :
    (run machine (earlier ++ [last]) state).2 =
      (machine last (run machine earlier state).2).2 := by
  rw [run_append]
  rfl

theorem along_append {machine : Machine σ ι ω} {good : ι → σ → Prop} {earlier later : List ι}
    {state : σ} :
    Along machine good (earlier ++ later) state ↔
      Along machine good earlier state ∧
        Along machine good later (run machine earlier state).2 := by
  induction earlier generalizing state with
  | nil => simp [Along, run]
  | cons input rest inductionHypothesis =>
      simp only [List.cons_append, Along, run, inductionHypothesis, and_assoc]

/-- What every good input keeps, a run of good inputs keeps. -/
theorem run_invariant {machine : Machine σ ι ω} {good : ι → σ → Prop} {invariant : σ → Prop}
    (kept : ∀ input state, invariant state → good input state → invariant (machine input state).2)
    {inputs : List ι} {state : σ} (start : invariant state) (fine : Along machine good inputs state) :
    invariant (run machine inputs state).2 := by
  induction inputs generalizing state with
  | nil => exact start
  | cons input rest inductionHypothesis =>
      exact inductionHypothesis (kept input state start fine.1) fine.2

section Agreement

variable {concrete : Machine σ ι ω} {abstract : Machine τ ι ω} {related : σ → τ → Prop}
  {good : ι → σ → Prop} {admissible : ι → τ → Prop}

/-- Machines that agree on one good input agree on a run of good inputs. -/
theorem run_agrees
    (step : ∀ input state spec, related state spec → admissible input spec → good input state →
      (concrete input state).1 = (abstract input spec).1 ∧
        related (concrete input state).2 (abstract input spec).2)
    {inputs : List ι} {state : σ} {spec : τ} (start : related state spec)
    (allowed : Along abstract admissible inputs spec) (fine : Along concrete good inputs state) :
    (run concrete inputs state).1 = (run abstract inputs spec).1 ∧
      related (run concrete inputs state).2 (run abstract inputs spec).2 := by
  induction inputs generalizing state spec with
  | nil => exact ⟨rfl, start⟩
  | cons input rest inductionHypothesis =>
      obtain ⟨same, next⟩ := step input state spec start allowed.1 fine.1
      obtain ⟨sameRest, last⟩ := inductionHypothesis next allowed.2 fine.2
      exact ⟨by simp only [run, same, sameRest], last⟩

/-- If also no bad input is answered as expected, equal answers mean good inputs. -/
theorem along_of_run_eq
    (step : ∀ input state spec, related state spec → admissible input spec → good input state →
      (concrete input state).1 = (abstract input spec).1 ∧
        related (concrete input state).2 (abstract input spec).2)
    (bad : ∀ input state spec, related state spec → admissible input spec → ¬ good input state →
      (concrete input state).1 ≠ (abstract input spec).1)
    {inputs : List ι} {state : σ} {spec : τ} (start : related state spec)
    (allowed : Along abstract admissible inputs spec)
    (same : (run concrete inputs state).1 = (run abstract inputs spec).1) :
    Along concrete good inputs state := by
  induction inputs generalizing state spec with
  | nil => trivial
  | cons input rest inductionHypothesis =>
      obtain ⟨head, tail⟩ := List.cons.inj same
      have fine : good input state := by
        by_contra wrong
        exact bad input state spec start allowed.1 wrong head
      exact ⟨fine, inductionHypothesis (step input state spec start allowed.1 fine).2 allowed.2 tail⟩

end Agreement

end Machine

/-! ### Labelled steps -/

section Steps

variable {σ ι : Type}

/-- States reached from `start` by steps, with the labels taken. -/
inductive Reaches (step : σ → ι → σ → Prop) (start : σ) : List ι → σ → Prop where
  | refl : Reaches step start [] start
  | next {labels : List ι} {label : ι} {state after : σ} :
      Reaches step start labels state → step state label after →
        Reaches step start (labels ++ [label]) after

/-- What holds at the start and is kept by every step holds in every state reached. -/
theorem Reaches.invariant {step : σ → ι → σ → Prop} {start : σ} {invariant : σ → Prop}
    (initial : invariant start)
    (kept : ∀ state label after, invariant state → step state label after → invariant after)
    {labels : List ι} {state : σ} (reaches : Reaches step start labels state) :
    invariant state := by
  induction reaches with
  | refl => exact initial
  | next _ taken inductionHypothesis => exact kept _ _ _ inductionHypothesis taken

/-- Every label is good after the record that the ones before it make. -/
def RecordedGood {τ : Type} (record : τ → ι → τ) (blank : τ) (good : τ → ι → Prop) (labels : List ι) :
    Prop :=
  ∀ earlier label later, labels = earlier ++ label :: later → good (earlier.foldl record blank) label

theorem recordedGood_nil {τ : Type} (record : τ → ι → τ) (blank : τ) (good : τ → ι → Prop) :
    RecordedGood record blank good [] := by
  intro earlier label later same
  cases earlier <;> cases same

theorem recordedGood_cons {τ : Type} {record : τ → ι → τ} {blank : τ} {good : τ → ι → Prop} {label : ι}
    {labels : List ι} (first : good blank label)
    (rest : RecordedGood record (record blank label) good labels) :
    RecordedGood record blank good (label :: labels) := by
  intro earlier other later same
  cases earlier with
  | nil =>
      obtain ⟨rfl, -⟩ := List.cons.inj same
      exact first
  | cons head tail =>
      obtain ⟨rfl, shorter⟩ := List.cons.inj same
      exact rest tail other later shorter

/-- What holds at the start and is kept by every step holds in every state reached, also when it is
about a record that is made of the labels, and labels are good. -/
theorem Reaches.recorded_good {τ : Type} {step : σ → ι → σ → Prop} {start : σ} {record : τ → ι → τ}
    {blank : τ} {good : τ → ι → Prop} {invariant : τ → σ → Prop} (initial : invariant blank start)
    (kept : ∀ known state label after, invariant known state → good known label →
      step state label after → invariant (record known label) after)
    {labels : List ι} {state : σ} (reaches : Reaches step start labels state)
    (fine : RecordedGood record blank good labels) : invariant (labels.foldl record blank) state := by
  induction reaches with
  | refl => exact initial
  | @next labels label state after _ taken inductionHypothesis =>
      rw [List.foldl_append]
      refine kept _ _ _ _ (inductionHypothesis fun earlier other later same => ?_)
        (fine labels label [] rfl) taken
      refine fine earlier other (later ++ [label]) ?_
      rw [same, List.append_assoc, List.cons_append]

theorem Reaches.recorded {τ : Type} {step : σ → ι → σ → Prop} {start : σ} {record : τ → ι → τ}
    {blank : τ} {invariant : τ → σ → Prop} (initial : invariant blank start)
    (kept : ∀ known state label after, invariant known state → step state label after →
      invariant (record known label) after)
    {labels : List ι} {state : σ} (reaches : Reaches step start labels state) :
    invariant (labels.foldl record blank) state :=
  @Reaches.recorded_good _ _ _ _ _ _ _ (fun _ _ => True) _ initial
    (fun known state label after holds _ => kept known state label after holds) _ _ reaches
    fun _ _ _ _ => trivial

/-- One run after another. -/
theorem Reaches.trans {step : σ → ι → σ → Prop} {start middle state : σ} {labels later : List ι}
    (first : Reaches step start labels middle) (second : Reaches step middle later state) :
    Reaches step start (labels ++ later) state := by
  induction second with
  | refl => rwa [List.append_nil]
  | next _ taken inductionHypothesis =>
      rw [← List.append_assoc]
      exact inductionHypothesis.next taken

/-- A run as it looks in other states and under other labels. -/
theorem Reaches.image {τ κ : Type} {step : σ → ι → σ → Prop} {spec : τ → κ → τ → Prop} {start : σ}
    (view : σ → τ) (name : ι → κ)
    (matched : ∀ state label after, step state label after → spec (view state) (name label) (view after))
    {labels : List ι} {state : σ} (reaches : Reaches step start labels state) :
    Reaches spec (view start) (labels.map name) (view state) := by
  induction reaches with
  | refl => exact .refl
  | next _ taken inductionHypothesis =>
      rw [List.map_append]
      exact inductionHypothesis.next (matched _ _ _ taken)

/-- When every step shows some labels, and a specification goes on by these, what a run shows is a
run of the specification. -/
theorem Reaches.observation {τ : Type} {step : σ → List ι → σ → Prop} {spec : τ → ι → τ → Prop}
    {related : σ → τ → Prop} {start : σ} {origin : τ} (initial : related start origin)
    (matched : ∀ state shown after view, related state view → step state shown after →
      ∃ next, Reaches spec view shown next ∧ related after next)
    {labels : List (List ι)} {state : σ} (reaches : Reaches step start labels state) :
    ∃ view, Reaches spec origin labels.flatten view ∧ related state view := by
  induction reaches with
  | refl => exact ⟨origin, .refl, initial⟩
  | next _ taken inductionHypothesis =>
      obtain ⟨view, run, same⟩ := inductionHypothesis
      obtain ⟨next, further, related⟩ := matched _ _ _ view same taken
      refine ⟨next, ?_, related⟩
      rw [List.flatten_append, List.flatten_singleton]
      exact run.trans further

/-- When every step is matched by a step of a specification, a run is matched by a run. -/
theorem Reaches.simulation {τ : Type} {step : σ → ι → σ → Prop} {spec : τ → ι → τ → Prop}
    {related : σ → τ → Prop} {start : σ} {origin : τ} (initial : related start origin)
    (matched : ∀ state label after shown, related state shown → step state label after →
      ∃ next, spec shown label next ∧ related after next)
    {labels : List ι} {state : σ} (reaches : Reaches step start labels state) :
    ∃ shown, Reaches spec origin labels shown ∧ related state shown := by
  induction reaches with
  | refl => exact ⟨origin, .refl, initial⟩
  | next _ taken inductionHypothesis =>
      obtain ⟨shown, run, same⟩ := inductionHypothesis
      obtain ⟨next, stepped, related⟩ := matched _ _ _ shown same taken
      exact ⟨next, run.next stepped, related⟩

/-- The step of a label in a run, after the run of the labels before it. -/
theorem Reaches.split {step : σ → ι → σ → Prop} {start state : σ} {front back : List ι} {label : ι}
    (reaches : Reaches step start (front ++ label :: back) state) :
    ∃ before after, Reaches step start front before ∧ step before label after := by
  generalize same : front ++ label :: back = labels at reaches
  induction reaches generalizing back with
  | refl => simp at same
  | @next labels last before after earlier taken inductionHypothesis =>
      rcases List.eq_nil_or_concat back with rfl | ⟨init, final, rfl⟩
      · obtain ⟨rfl, rfl⟩ := List.append_inj' same rfl |>.imp id List.singleton_inj.mp
        exact ⟨before, after, earlier, taken⟩
      · rw [List.concat_eq_append, ← List.cons_append, ← List.append_assoc] at same
        exact inductionHypothesis (List.append_inj' same rfl).1

/-- A first step, then a run. -/
theorem Reaches.cons {step : σ → ι → σ → Prop} {start middle state : σ} {label : ι}
    {labels : List ι} (taken : step start label middle)
    (reaches : Reaches step middle labels state) : Reaches step start (label :: labels) state := by
  induction reaches with
  | refl => exact Reaches.refl.next taken
  | next _ last inductionHypothesis => exact inductionHypothesis.next last

end Steps

end MukhiDb.Foundation
