import MukhiDb.Foundation.Exec
import MukhiDb.Foundation.Bytes

/-!
Contract: one byte file whose I/O calls can fail or be cut short.

Owns: the outcome of an I/O call; a schedule, which lists the outcomes of the
coming calls in issue order and means "all succeed" once it is used up; and the
calls that read, overwrite, append to and empty a file.

Does not own: caches, several files, or recovery.
-/

namespace MukhiDb.Foundation

/-- What happens to one I/O call. -/
inductive IoOutcome where
  /-- The call takes effect whole. -/
  | done
  /-- The call returns an error after `bytes` bytes of it took effect. -/
  | failed (message : String) (bytes : Nat)
  /-- The process stops after `bytes` bytes of the call took effect. -/
  | stopped (bytes : Nat)
deriving DecidableEq, Repr

/-- The process stops at call number `calls`, after `bytes` bytes of it took effect. -/
def crashAt (calls bytes : Nat) : List IoOutcome := List.replicate calls .done ++ [.stopped bytes]

/-- The next `count` calls take effect whole. -/
def Clear (count : Nat) (schedule : List IoOutcome) : Prop :=
  ∀ outcome ∈ schedule.take count, outcome = .done

instance decidableClear (count : Nat) (schedule : List IoOutcome) :
    Decidable (Clear count schedule) :=
  inferInstanceAs (Decidable (∀ outcome ∈ schedule.take count, outcome = .done))

theorem clear_zero (schedule : List IoOutcome) : Clear 0 schedule := by simp [Clear]

theorem clear_nil (count : Nat) : Clear count [] := by simp [Clear]

theorem clear_add {first second : Nat} {schedule : List IoOutcome} :
    Clear (first + second) schedule ↔ Clear first schedule ∧ Clear second (schedule.drop first) := by
  unfold Clear
  rw [List.take_add]
  constructor
  · intro all
    exact ⟨fun outcome member => all outcome (List.mem_append_left _ member),
      fun outcome member => all outcome (List.mem_append_right _ member)⟩
  · rintro ⟨left, right⟩ outcome member
    exact (List.mem_append.mp member).elim (left outcome) (right outcome)

theorem clear_succ {count : Nat} {schedule : List IoOutcome} :
    Clear (count + 1) schedule ↔
      schedule = [] ∨ ∃ rest, schedule = .done :: rest ∧ Clear count rest := by
  cases schedule with
  | nil => simp [clear_nil]
  | cons outcome rest => simp [Clear]

/-- A call that does not take effect is among the next ones. -/
theorem not_clear_succ {count : Nat} {schedule : List IoOutcome} :
    ¬ Clear (count + 1) schedule ↔
      ∃ outcome rest, schedule = outcome :: rest ∧ (outcome = .done → ¬ Clear count rest) := by
  cases schedule with
  | nil => simp [clear_nil]
  | cons outcome rest => simp [Clear]

/-- A file and the outcomes of the coming calls. -/
structure Medium where
  bytes : Bytes
  schedule : List IoOutcome
deriving DecidableEq, Repr

namespace Medium

/-- One call: `partway n` is what is left in the file when only `n` bytes of the
call take effect, `describe` words the error the caller sees. -/
def perform (describe : String → String) (partway : Nat → Bytes → Bytes) (whole : Bytes → Bytes) :
    Exec Medium Unit := fun medium =>
  match medium.schedule with
  | [] => (.ok (), ⟨whole medium.bytes, []⟩)
  | .done :: rest => (.ok (), ⟨whole medium.bytes, rest⟩)
  | .failed message count :: rest =>
      (.error (.error (describe message)), ⟨partway count medium.bytes, rest⟩)
  | .stopped count :: rest => (.error .crash, ⟨partway count medium.bytes, rest⟩)

/-- A call that changes no byte: `seek`, `sync_all`, `flush`. -/
def touch : Exec Medium Unit :=
  perform id (fun _ bytes => bytes) id

/-- Opening a file that exists or is created empty. -/
def openFile (describe : String → String) : Exec Medium Unit :=
  perform describe (fun _ bytes => bytes) id

/-- `metadata().len()`. -/
def length : Exec Medium Nat := do
  touch
  let medium ← Exec.get
  pure medium.bytes.length

/-- `write_all` at a position that was sought before. -/
def writeAt (offset : Nat) (data : Bytes) : Exec Medium Unit :=
  perform id (fun count bytes => overwrite bytes offset (data.take count))
    (fun bytes => overwrite bytes offset data)

/-- `write_all` at the end of the file. -/
def append (data : Bytes) : Exec Medium Unit :=
  perform id (fun count bytes => bytes ++ data.take count) (fun bytes => bytes ++ data)

/-- `set_len(0)`. -/
def clear : Exec Medium Unit :=
  perform id (fun _ bytes => bytes) (fun _ => [])

/-- `read_exact` at a position, `none` at an unexpected end of the file. -/
def readAt (offset count : Nat) : Exec Medium (Option Bytes) := do
  touch
  let medium ← Exec.get
  pure (if offset + count ≤ medium.bytes.length then some (slice medium.bytes offset count)
    else none)

/-- A call takes effect whole exactly if its outcome says so. -/
theorem perform_clear {describe : String → String} {partway : Nat → Bytes → Bytes}
    {whole : Bytes → Bytes} {medium : Medium} (clear : Clear 1 medium.schedule) :
    perform describe partway whole medium =
      (.ok (), ⟨whole medium.bytes, medium.schedule.drop 1⟩) := by
  obtain ⟨bytes, schedule⟩ := medium
  cases schedule with
  | nil => rfl
  | cons outcome rest =>
      obtain rfl : outcome = .done := clear outcome (by simp)
      rfl

theorem perform_failed {describe : String → String} {partway : Nat → Bytes → Bytes}
    {whole : Bytes → Bytes} {medium : Medium} (failed : ¬ Clear 1 medium.schedule) :
    ∃ fault after, perform describe partway whole medium = (.error fault, after) := by
  obtain ⟨bytes, schedule⟩ := medium
  cases schedule with
  | nil => exact absurd (clear_nil 1) failed
  | cons outcome rest =>
      cases outcome with
      | done => exact absurd (by simp [Clear]) failed
      | failed message count => exact ⟨_, _, rfl⟩
      | stopped count => exact ⟨_, _, rfl⟩

/-- A call that returned has taken effect whole. -/
theorem perform_returned {describe : String → String} {partway : Nat → Bytes → Bytes}
    {whole : Bytes → Bytes} {medium after : Medium}
    (ran : perform describe partway whole medium = (.ok (), after)) :
    after.bytes = whole medium.bytes := by
  by_cases clear : Clear 1 medium.schedule
  · rw [perform_clear clear] at ran
    cases ran
    rfl
  · obtain ⟨fault, stopped, failed⟩ := @perform_failed describe partway whole medium clear
    rw [failed] at ran
    cases ran

/-! ### Runs in which every call succeeds -/

section Succeeds

variable {medium : Medium} (succeeds : medium.schedule = [])

include succeeds

theorem perform_ok (describe : String → String) (partway : Nat → Bytes → Bytes)
    (whole : Bytes → Bytes) :
    perform describe partway whole medium = (.ok (), ⟨whole medium.bytes, []⟩) := by
  unfold perform
  rw [succeeds]

theorem touch_ok : touch medium = (.ok (), medium) := by
  obtain ⟨bytes, schedule⟩ := medium
  subst succeeds
  rfl

theorem length_ok : length medium = (.ok medium.bytes.length, medium) := by
  unfold length
  rw [Exec.bind_ok (touch_ok succeeds)]
  rfl

theorem writeAt_ok (offset : Nat) (data : Bytes) :
    writeAt offset data medium = (.ok (), ⟨overwrite medium.bytes offset data, []⟩) :=
  perform_ok succeeds _ _ _

theorem readAt_ok (offset count : Nat) :
    readAt offset count medium =
      (.ok (if offset + count ≤ medium.bytes.length then some (slice medium.bytes offset count)
        else none), medium) := by
  unfold readAt
  rw [Exec.bind_ok (touch_ok succeeds)]
  rfl

end Succeeds

end Medium

end MukhiDb.Foundation
