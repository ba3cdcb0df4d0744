import MukhiDb.Model.Server
import MukhiDb.Protocol.Segments
import MukhiDb.Session.Answers

/-!
Contract: what the threads of the server do to the sessions.

Owns: what happens at a server, as its clients could write it down; what each step of a thread leaves; and
which sections of the sessions a step of a thread is.

Does not own: what the messages say.
-/

namespace MukhiDb.Model

open MukhiDb.Foundation

/-! ### Histories -/

/-- What happens at a server: a message is read, an operation of a session is answered, a response is
written. -/
inductive Happening where
  | asked (id : Nat) (message : Message)
  | took (entry : Entry)
  | told (id : Nat) (response : Message)

/-- The connection at which it happens. -/
def Happening.at_ : Happening → Nat
  | .asked id _ => id
  | .took entry => entry.session
  | .told id _ => id

/-- The operation that is answered. -/
def Happening.entry : Happening → Option Entry
  | .took entry => some entry
  | _ => none

@[simp] theorem entry_asked (id : Nat) (message : Message) : (Happening.asked id message).entry = none := rfl

@[simp] theorem entry_took (entry : Entry) : (Happening.took entry).entry = some entry := rfl

@[simp] theorem entry_told (id : Nat) (response : Message) : (Happening.told id response).entry = none := rfl

/-! ### Steps of a thread -/

namespace Server

variable {server after : Server} {id : Nat}

/-- The section that a program begins with. -/
def opening : SessionProgram Message → List Action
  | .call operation _ => [.start operation]
  | .done _ => []

/-- The sections of the session in a step of its thread: one at most. -/
def sections (server : Server) (id : Nat) : Move → List Action
  | .read =>
      match Protocol.readMessage (server.connections id).unread with
      | .ok (message, _) => opening (Dispatch.respond message)
      | .error _ => []
  | .section_ action => [action]
  | .resume =>
      match (server.connections id).task, (server.system.sessions id).reply.bind replyOf with
      | .calling _ next, some reply => opening (next reply)
      | _, _ => []
  | .drop => [.start .drop]
  | _ => []

/-- The operations that are answered in a step. -/
def tells (server : Server) (id : Nat) (move : Move) : List Entry :=
  (server.sections id move).flatMap fun action => server.system.tells (id, action)

/-- The message that is read in a step. -/
def asks (server : Server) (id : Nat) : Move → List Happening
  | .read =>
      match Protocol.readMessage (server.connections id).unread with
      | .ok (message, _) => [.asked id message]
      | .error _ => []
  | _ => []

/-- The response that is written in a step. -/
def responds (server : Server) (id : Nat) : Move → List Happening
  | .write =>
      match (server.connections id).task with
      | .writing response => [.told id response]
      | _ => []
  | _ => []

/-- What happens in a step. -/
def happens (server : Server) (id : Nat) (move : Move) : List Happening :=
  server.asks id move ++ (server.tells id move).map .took ++ server.responds id move

/-- A step of a thread, with what happens in it. -/
def Step (server : Server) (shown : List Happening) (after : Server) : Prop :=
  ∃ id move, shown = server.happens id move ∧ server.step id move = some after

/-- The gate is claimed only when no operation is past it, and rows fit. -/
def Clear (sizes : String → Nat → Prop) (server : Server) (id : Nat) (move : Move) : Prop :=
  ∀ action ∈ server.sections id move,
    server.system.ClaimsClear (id, action) ∧ server.system.Fitting sizes (id, action)

/-- A step in which the gate is claimed only when no operation is past it, and rows fit. -/
def StepClear (sizes : String → Nat → Prop) (server : Server) (shown : List Happening) (after : Server) :
    Prop :=
  ∃ id move, server.Clear sizes id move ∧ shown = server.happens id move ∧ server.step id move = some after

@[simp] theorem system_set (id : Nat) (connection : Connection) (server : Server) :
    (server.set id connection).system = server.system := rfl

@[simp] theorem system_readUpTo (id : Nat) (rest : Bytes) (server : Server) :
    (server.readUpTo id rest).system = server.system := rfl

@[simp] theorem system_goTo (id : Nat) (task : Task) (server : Server) :
    (server.goTo id task).system = server.system := rfl

/-! ### What a step does -/

section Moves

variable {bytes : Bytes} {action : Action} {sent : Nat}

theorem arrive_eq_some (ran : server.arrive id bytes = some after) :
    (server.connections id).closed = false ∧ after = server.set id
      { server.connections id with incoming := (server.connections id).incoming ++ bytes } := by
  unfold arrive at ran
  split at ran
  · cases ran
  · next open_ => exact ⟨by simpa using open_, (Option.some.inj ran).symm⟩

/-- A message is read and answered, or the loop returns. -/
theorem read_eq_some (ran : server.read id = some after) :
    (server.connections id).task = .reading ∧
      ((∃ message rest, Protocol.readMessage (server.connections id).unread = .ok (message, rest) ∧
        (server.readUpTo id rest).proceed id (Dispatch.respond message) = some after) ∨
      ∃ error result, Protocol.readMessage (server.connections id).unread = .error error ∧
        after = server.goTo id (.returned result)) := by
  unfold read at ran
  split at ran
  · next reading =>
      refine ⟨reading, ?_⟩
      split at ran
      · next message rest read => exact Or.inl ⟨message, rest, read, ran⟩
      · next error read =>
          split at ran
          · split at ran
            · exact Or.inr ⟨error, _, read, (Option.some.inj ran).symm⟩
            · cases ran
          · exact Or.inr ⟨error, _, read, (Option.some.inj ran).symm⟩
  · cases ran

theorem section_eq_some (ran : server.section_ id action = some after) :
    (∀ operation, action ≠ .start operation) ∧
      ∃ system, server.system.step id action = some system ∧ after = { server with system } := by
  unfold section_ at ran
  split at ran
  · cases ran
  · next action other =>
      obtain ⟨system, moved, rfl⟩ := Option.map_eq_some_iff.mp ran
      exact ⟨other, system, moved, rfl⟩

theorem resume_eq_some (ran : server.resume id = some after) :
    ∃ operation next reply, (server.connections id).task = .calling operation next ∧
      (server.system.sessions id).phase = .idle ∧
      (server.system.sessions id).reply.bind replyOf = some reply ∧
      server.proceed id (next reply) = some after := by
  unfold resume at ran
  split at ran
  · next operation next reply calling idle replied =>
      exact ⟨operation, next, reply, calling, idle, replied, ran⟩
  · cases ran

theorem write_eq_some (ran : server.write id = some after) :
    ∃ response, (server.connections id).task = .writing response ∧
      after = server.set id { server.connections id with
        outgoing := (server.connections id).outgoing ++ Protocol.frame response
        task := .reading } := by
  unfold write at ran
  split at ran
  · next response writing =>
      rw [Protocol.writeMessage_ok] at ran
      exact ⟨response, writing, (Option.some.inj ran).symm⟩
  · cases ran

theorem break_eq_some (ran : server.break_ id sent = some after) :
    ∃ response, (server.connections id).task = .writing response ∧
      after = server.set id { server.connections id with
        outgoing := (server.connections id).outgoing ++ (Protocol.frame response).take sent
        task := .broken } := by
  unfold break_ at ran
  split at ran
  · next response writing =>
      rw [Protocol.writeMessage_ok, List.nil_append] at ran
      exact ⟨response, writing, (Option.some.inj ran).symm⟩
  · cases ran

theorem drop_eq_some (ran : server.drop id = some after) :
    (server.connections id).task.Over ∧ ∃ system, server.system.start id .drop = some system ∧
      after = { server with system } := by
  unfold drop at ran
  split at ran
  all_goals first
    | cases ran
    | next left =>
        obtain ⟨system, started, rfl⟩ := Option.map_eq_some_iff.mp ran
        exact ⟨by rw [left]; trivial, system, started, rfl⟩

end Moves

/-! ### Sections in a step -/

/-- Sections of one session after each other. -/
def Took (id : Nat) (system : System) (actions : List Action) (after : System) : Prop :=
  System.run (actions.map fun action => (id, action)) system = some after

theorem took_none (id : Nat) (system : System) : Took id system [] system := rfl

theorem took_one {system left : System} {action : Action} (ran : system.step id action = some left) :
    Took id system [action] left := by
  unfold Took
  rw [List.map_singleton, System.run, ran]
  rfl

theorem proceed_took {program : SessionProgram Message} (ran : server.proceed id program = some after) :
    Took id server.system (opening program) after.system := by
  unfold proceed at ran
  split at ran
  · cases ran
    exact took_none _ _
  · cases ran
    exact took_none _ _
  · obtain ⟨system, started, rfl⟩ := Option.map_eq_some_iff.mp ran
    exact took_one started

/-- What a step of a thread does to the sessions. -/
theorem step_took {move : Move} (ran : server.step id move = some after) :
    Took id server.system (server.sections id move) after.system := by
  cases move with
  | arrive bytes =>
      obtain ⟨-, rfl⟩ := arrive_eq_some ran
      exact took_none _ _
  | close =>
      cases ran
      exact took_none _ _
  | read =>
      unfold sections
      rcases (read_eq_some ran).2 with ⟨message, rest, read, went⟩ | ⟨error, result, read, rfl⟩
      · have took := proceed_took went
        rwa [read]
      · rw [read]
        exact took_none _ _
  | section_ action =>
      obtain ⟨-, system, moved, rfl⟩ := section_eq_some ran
      exact took_one moved
  | resume =>
      obtain ⟨operation, next, reply, calling, -, replied, went⟩ := resume_eq_some ran
      unfold sections
      rw [calling, replied]
      exact proceed_took went
  | write =>
      obtain ⟨response, -, rfl⟩ := write_eq_some ran
      exact took_none _ _
  | break_ sent =>
      obtain ⟨response, -, rfl⟩ := break_eq_some ran
      exact took_none _ _
  | drop =>
      obtain ⟨-, system, started, rfl⟩ := drop_eq_some ran
      exact took_one started

end Server

end MukhiDb.Model
