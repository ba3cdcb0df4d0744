import MukhiDb.Server.Sections

/-!
Contract: what a client of the server gets, whatever the other clients do.

Owns: the exchanges of a dialogue, in each of which a message is answered with what `dispatch` makes of the
replies of the session; and that in every run, with any clients, any bytes from them cut into any pieces,
and any interleaving of the threads, the bytes written to a connection are the frames of its exchanges.

Does not own: what the sessions reply.
-/

namespace MukhiDb.Model

open MukhiDb.Foundation

/-! ### Exchanges -/

/-- A message that was answered, what the session was asked and replied meanwhile, and the response. -/
structure Exchange where
  message : Message
  talk : List (Operation × Reply)
  response : Message

/-- The response is what the program makes of the replies. -/
def Exchange.Plays (exchange : Exchange) : Prop :=
  (Dispatch.respond exchange.message).Holds exchange.talk (.ok exchange.response)

/-- The answer of a session behind a reply. -/
def answerOf : Reply → Except Fault Answer
  | .ok answer => .ok answer
  | .error message => .error (.error message)

theorem replyOf_eq_some {answer : Except Fault Answer} {reply : Reply} :
    Server.replyOf answer = some reply ↔ answer = answerOf reply := by
  cases answer with
  | ok value => cases reply <;> simp [Server.replyOf, answerOf]
  | error fault => cases fault <;> cases reply <;> simp [Server.replyOf, answerOf]

/-- What the session was asked, as its answers. -/
def answersOf (id : Nat) (talk : List (Operation × Reply)) : List Entry :=
  talk.map fun said => ⟨id, said.1, answerOf said.2⟩

/-- An exchange as it happens. -/
def Exchange.block (id : Nat) (exchange : Exchange) : List Happening :=
  .asked id exchange.message :: ((answersOf id exchange.talk).map .took ++ [.told id exchange.response])

/-! ### What is called -/

namespace Executor

/-- The executor does not drop the session. -/
def Called (operation : Operation) : Prop := operation ≠ .drop

theorem selectAll_called (table : String) : (Session.selectAll table).Only Called := by
  refine Calls.Only.bind (.ask (by simp [Called])) fun reply => ?_
  match reply with
  | .ok (.rows _ _) | .ok .done | .ok (.text _) | .error _ => exact .done _

theorem dumpBtree_called (table : String) : (Session.dumpBtree table).Only Called := by
  refine Calls.Only.bind (.ask (by simp [Called])) fun reply => ?_
  match reply with
  | .ok (.rows _ _) | .ok .done | .ok (.text _) | .error _ => exact .done _

theorem execute_called (statement : Statement) : (execute statement).Only Called := by
  cases statement with
  | select table join whereClause =>
      cases join with
      | none =>
          refine (selectAll_called table).bind fun scanned => ?_
          match scanned with
          | .error _ => exact .done _
          | .ok (headers, rows) => exact Calls.Only.bind (.done _) fun _ => .done _
      | some jc =>
          refine (selectAll_called table).bind fun left => ?_
          match left with
          | .error _ => exact .done _
          | .ok left =>
              refine (selectAll_called jc.rightTable).bind fun right => ?_
              match right with
              | .error _ => exact .done _
              | .ok right => exact .done _
  | unknown command => exact .done _
  | createTable | insert | begin | commit | rollback =>
      exact Calls.Only.bind (.ask (by simp [Called])) fun _ => .done _

theorem respond_called (message : Message) : (Dispatch.respond message).Only Called := by
  cases message with
  | query sql =>
      change (Dispatch.dispatch sql).Only Called
      unfold Dispatch.dispatch
      simp only
      split
      · exact (dumpBtree_called _).bind fun _ => .done _
      · exact Calls.Only.bind (.done _) fun statement => (execute_called statement).bind fun _ => .done _
  | ok | error | rows => exact .done _

end Executor

/-! ### The place of a thread and of its session -/

namespace Server

/-- A session is in an operation: it was not answered yet, or this is the answer. -/
inductive Within (id : Nat) (operation : Operation) (session : Session) : List Entry → Prop where
  | waits (at_ : session.phase = .gate operation ∨ session.phase = .parked operation ∨
      session.phase = .locking operation ∨ session.phase = .inside operation) : Within id operation session []
  | answered {answer : Except Fault Answer} (at_ : session.phase = .releasing operation answer ∨
      session.phase = .idle ∧ session.reply = some answer) :
      Within id operation session [⟨id, operation, answer⟩]

/-- A session whose thread is over: it is dropped, or will be. -/
inductive Leaves (id : Nat) (session : Session) : List Entry → Prop where
  | stays (idle : session.phase = .idle) : Leaves id session []
  | drops (at_ : session.phase = .locking .drop ∨ session.phase = .inside .drop) : Leaves id session []
  | gone (gone : session.phase = .gone) : Leaves id session []
  | dropped {answer : Except Fault Answer}
      (at_ : session.phase = .releasing .drop answer ∨ session.phase = .gone) :
      Leaves id session [⟨id, .drop, answer⟩]

/-- What happened since a message was read. -/
def since (id : Nat) (message : Message) (entries : List Entry) : List Happening :=
  .asked id message :: entries.map .took

/-- Where a thread and its session are: with the message that is being answered, what happened since the
last response, and the part of a response that was written before the connection broke. -/
inductive Place (id : Nat) (session : Session) :
    Task → Option Message → List Happening → Bytes → Prop where
  | reading (idle : session.phase = .idle) : Place id session .reading none [] []
  | calling {message : Message} {talk : List (Operation × Reply)} {operation : Operation}
      {next : Reply → SessionProgram Message} {recent : List Entry}
      (follows : (Dispatch.respond message).Follows talk (.call operation next))
      (within : Within id operation session recent) :
      Place id session (.calling operation next) (some message)
        (since id message (answersOf id talk ++ recent)) []
  | writing {message response : Message} {talk : List (Operation × Reply)}
      (holds : (Dispatch.respond message).Holds talk (.ok response)) (idle : session.phase = .idle) :
      Place id session (.writing response) (some message) (since id message (answersOf id talk)) []
  | returned {result : Except Protocol.IoError Unit} {recent : List Entry}
      (leaves : Leaves id session recent) :
      Place id session (.returned result) none (recent.map .took) []
  | broken {message response : Message} {talk : List (Operation × Reply)} {recent : List Entry} (sent : Nat)
      (holds : (Dispatch.respond message).Holds talk (.ok response)) (leaves : Leaves id session recent) :
      Place id session .broken (some message) (since id message (answersOf id talk ++ recent))
        ((Protocol.frame response).take sent)
  | panicked {message : Message} {talk : List (Operation × Reply)} {fault : Fault} {recent : List Entry}
      (holds : (Dispatch.respond message).Holds talk (.error fault)) (leaves : Leaves id session recent) :
      Place id session .panicked (some message) (since id message (answersOf id talk ++ recent)) []

/-- The dialogue on a connection: the exchanges that are over, with the messages that were read from the
bytes that arrived and the frames that were written; and what came after them. -/
structure Dialogue (server : Server) (id : Nat) (history : List Happening) (exchanges : List Exchange)
    (current : Option Message) (recent : List Happening) (torn : Bytes) : Prop where
  plays : ∀ exchange ∈ exchanges, exchange.Plays
  position : (server.connections id).position ≤ (server.connections id).incoming.length
  heard : Protocol.readAll (exchanges.length + current.toList.length) (server.connections id).incoming =
    .ok (exchanges.map Exchange.message ++ current.toList, (server.connections id).unread)
  wrote : (server.connections id).outgoing =
    exchanges.flatMap (fun exchange => Protocol.frame exchange.response) ++ torn
  said : history = exchanges.flatMap (Exchange.block id) ++ recent
  place : Place id (server.system.sessions id) (server.connections id).task current recent torn

/-! ### Sections of sessions -/

section Sections

variable {system after : System} {id : Nat} {operation : Operation} {action : Action} {recent : List Entry}

theorem tells_leave (inside : (system.sessions id).phase = .inside operation) :
    system.tells (id, .leave) = [⟨id, operation, (operation.closure system.storage).1⟩] := by
  simp [System.tells, System.shows, System.refuses, inside]

theorem tells_quiet (starts : ∀ operation, action ≠ .start operation) (leaves : action ≠ .leave) :
    system.tells (id, action) = [] := by
  cases action with
  | start operation => exact absurd rfl (starts operation)
  | leave => exact absurd rfl leaves
  | _ => rfl

/-- A section of a session that is in an operation of the executor. -/
theorem Within.section_ (within : Within id operation (system.sessions id) recent) (called : operation ≠ .drop)
    (starts : ∀ operation, action ≠ .start operation) (ran : system.step id action = some after) :
    Within id operation (after.sessions id) (recent ++ system.tells (id, action)) := by
  cases action with
  | start operation => exact absurd rfl (starts operation)
  | check =>
      rw [tells_quiet starts (by simp), List.append_nil]
      rcases System.check_eq_some ran with ⟨gate, -, rfl⟩ | ⟨other, gate, -, -, rfl⟩ | ⟨other, gate, -, -, rfl⟩ <;>
        (cases within <;> simp_all)
      · exact .waits (by simp [Session.at_])
      · exact .waits (by simp [Session.at_])
      · exact .waits (by simp [Session.at_])
  | wake =>
      rw [tells_quiet starts (by simp), List.append_nil]
      obtain ⟨other, parked, rfl⟩ := System.wake_eq_some ran
      cases within <;> simp_all
      exact .waits (by simp [Session.at_])
  | enter =>
      rw [tells_quiet starts (by simp), List.append_nil]
      obtain ⟨other, lock, locking, -, rfl⟩ := System.enter_eq_some ran
      cases within <;> simp_all
      exact .waits (by simp [Session.at_])
  | leave =>
      obtain ⟨other, inside, -, rfl⟩ := System.leave_eq_some ran
      rw [tells_leave inside]
      cases within <;> simp_all
      refine .answered ?_
      cases operation <;> simp_all [Session.afterClosure, Session.at_, Session.returns]
      cases (Operation.begin.closure system.storage).1 <;> simp
  | release =>
      rw [tells_quiet starts (by simp), List.append_nil]
      obtain ⟨other, answer, releasing, rfl⟩ := System.release_eq_some ran
      cases within with
      | waits at_ => simp_all
      | answered at_ =>
          refine .answered (Or.inr ?_)
          cases operation <;> simp_all [Session.afterRelease, Session.returns]

/-- A section of a session whose thread is over. -/
theorem Leaves.section_ (leaves : Leaves id (system.sessions id) recent)
    (starts : ∀ operation, action ≠ .start operation) (ran : system.step id action = some after) :
    Leaves id (after.sessions id) (recent ++ system.tells (id, action)) := by
  cases action with
  | start operation => exact absurd rfl (starts operation)
  | check =>
      rcases System.check_eq_some ran with ⟨gate, -⟩ | ⟨other, gate, -⟩ | ⟨other, gate, -⟩ <;>
        (cases leaves <;> simp_all)
  | wake =>
      obtain ⟨other, parked, -⟩ := System.wake_eq_some ran
      cases leaves <;> simp_all
  | enter =>
      rw [tells_quiet starts (by simp), List.append_nil]
      obtain ⟨other, lock, locking, -, rfl⟩ := System.enter_eq_some ran
      cases leaves <;> simp_all
      exact .drops (by simp [Session.at_])
  | leave =>
      obtain ⟨other, inside, -, rfl⟩ := System.leave_eq_some ran
      rw [tells_leave inside]
      cases leaves <;> simp_all
      exact .dropped (by simp [Session.afterClosure, Session.at_])
  | release =>
      rw [tells_quiet starts (by simp), List.append_nil]
      obtain ⟨other, answer, releasing, rfl⟩ := System.release_eq_some ran
      cases leaves <;> simp_all
      exact .dropped (by simp [Session.afterRelease, Session.at_])

/-- A session that is idle has no section but the start of an operation. -/
theorem idle_still (idle : (system.sessions id).phase = .idle)
    (starts : ∀ operation, action ≠ .start operation) : system.step id action = none := by
  cases action with
  | start operation => exact absurd rfl (starts operation)
  | _ => simp [System.step, System.check, System.wake, System.enter, System.leave, System.release, idle]

/-- What the sections of a session do to another one. -/
theorem step_apart {mover : Nat} (apart : id ≠ mover) (ran : system.step mover action = some after) :
    after.sessions id = system.sessions id ∨ after.sessions id = (system.sessions id).notified := by
  cases action with
  | start operation =>
      obtain ⟨-, rfl⟩ := System.start_eq_some ran
      exact Or.inl (System.set_other apart _)
  | check =>
      rcases System.check_eq_some ran with ⟨-, -, rfl⟩ | ⟨other, -, -, -, rfl⟩ | ⟨other, -, -, -, rfl⟩
      · exact Or.inl (System.set_other apart _)
      · exact Or.inl (System.set_other apart _)
      · exact Or.inl (System.set_other apart _)
  | wake =>
      obtain ⟨other, -, rfl⟩ := System.wake_eq_some ran
      exact Or.inl (System.set_other apart _)
  | enter =>
      obtain ⟨other, lock, -, -, rfl⟩ := System.enter_eq_some ran
      exact Or.inl (System.set_other apart _)
  | leave =>
      obtain ⟨other, -, -, rfl⟩ := System.leave_eq_some ran
      exact Or.inl (System.set_other apart _)
  | release =>
      obtain ⟨other, answer, -, rfl⟩ := System.release_eq_some ran
      exact Or.inr (if_neg apart)

end Sections

/-! ### Notifications -/

section Notified

variable {id : Nat} {session : Session} {operation : Operation} {recent : List Entry}

/-- A notification moves only a session that waits for one. -/
theorem notified_eq (session : Session) :
    session.notified = session ∨
      ∃ operation, session.phase = .parked operation ∧ session.notified = session.at_ (.gate operation) := by
  unfold Session.notified
  split
  · next operation parked => exact Or.inr ⟨operation, parked, rfl⟩
  · exact Or.inl rfl

theorem Within.notified (within : Within id operation session recent) :
    Within id operation session.notified recent := by
  rcases notified_eq session with same | ⟨other, parked, moved⟩
  · rwa [same]
  · rw [moved]
    cases within <;> simp_all
    exact .waits (by simp [Session.at_])

theorem Leaves.notified (leaves : Leaves id session recent) : Leaves id session.notified recent := by
  rcases notified_eq session with same | ⟨other, parked, moved⟩
  · rwa [same]
  · cases leaves <;> simp_all

theorem idle_notified (idle : session.phase = .idle) : session.notified.phase = .idle := by
  rcases notified_eq session with same | ⟨other, parked, moved⟩
  · rwa [same]
  · simp_all

theorem Place.notified {task : Task} {current : Option Message} {torn : Bytes} {recent : List Happening}
    (place : Place id session task current recent torn) :
    Place id session.notified task current recent torn := by
  cases place with
  | reading idle => exact .reading (idle_notified idle)
  | calling follows within => exact .calling follows within.notified
  | writing holds idle => exact .writing holds (idle_notified idle)
  | returned leaves => exact .returned leaves.notified
  | broken sent holds leaves => exact .broken sent holds leaves.notified
  | panicked holds leaves => exact .panicked holds leaves.notified

end Notified

/-! ### Steps -/

section Steps

variable {server after : Server} {id : Nat} {history recent : List Happening} {exchanges : List Exchange}
  {current : Option Message} {torn : Bytes}

@[simp] theorem connections_set (id : Nat) (connection : Connection) (server : Server) :
    (server.set id connection).connections id = connection := Function.update_self ..

theorem connections_other {id mover : Nat} (apart : id ≠ mover) (connection : Connection) (server : Server) :
    (server.set mover connection).connections id = server.connections id := Function.update_of_ne apart ..

@[simp] theorem connections_goTo (id : Nat) (task : Task) (server : Server) :
    (server.goTo id task).connections id = { server.connections id with task } := connections_set ..

/-- Only the session moved, or the task. -/
theorem Dialogue.moved {more : List Happening} {reached : Option Message} {broke : Bytes} {task : Task}
    (dialogue : Dialogue server id history exchanges current recent torn)
    (connection : after.connections id = { server.connections id with task })
    (message : reached = current) (left : broke = torn)
    (place : Place id (after.system.sessions id) task reached (recent ++ more) broke) :
    Dialogue after id (history ++ more) exchanges reached (recent ++ more) broke := by
  subst message left
  exact
    { plays := dialogue.plays
      position := by simpa [connection] using dialogue.position
      heard := by simpa [connection, Connection.unread] using dialogue.heard
      wrote := by simpa [connection] using dialogue.wrote
      said := by rw [dialogue.said, List.append_assoc]
      place := by simpa [connection] using place }

/-- A message was read, and the session has replied to what it was asked since. -/
structure Answering (server : Server) (id : Nat) (history : List Happening) (exchanges : List Exchange)
    (message : Message) (talk : List (Operation × Reply)) : Prop where
  plays : ∀ exchange ∈ exchanges, exchange.Plays
  position : (server.connections id).position ≤ (server.connections id).incoming.length
  heard : Protocol.readAll (exchanges.length + 1) (server.connections id).incoming =
    .ok (exchanges.map Exchange.message ++ [message], (server.connections id).unread)
  wrote : (server.connections id).outgoing =
    exchanges.flatMap fun exchange => Protocol.frame exchange.response
  said : history = exchanges.flatMap (Exchange.block id) ++ since id message (answersOf id talk)
  idle : (server.system.sessions id).phase = .idle

/-- The thread is at another place with this message. -/
theorem Answering.moved {message : Message} {talk : List (Operation × Reply)} {more : List Entry} {task : Task}
    (answering : Answering server id history exchanges message talk)
    (connection : after.connections id = { server.connections id with task })
    (place : Place id (after.system.sessions id) task (some message)
      (since id message (answersOf id talk ++ more)) []) :
    Dialogue after id (history ++ more.map .took) exchanges (some message)
      (since id message (answersOf id talk ++ more)) [] where
  plays := answering.plays
  position := by simpa [connection] using answering.position
  heard := by simpa [connection, Connection.unread] using answering.heard
  wrote := by simpa [connection] using answering.wrote
  said := by simp [answering.said, since]
  place := by simpa [connection] using place

theorem tells_start (operation : Operation) (system : System) (id : Nat) :
    system.tells (id, .start operation) =
      match operation.refusal (system.sessions id).inTransaction with
      | some message => [⟨id, operation, .error (.error message)⟩]
      | none => [] := rfl

/-- An operation of the executor begins. -/
theorem within_start {system begun : System} {operation : Operation} (called : operation ≠ .drop)
    (ran : system.start id operation = some begun) :
    Within id operation (begun.sessions id) (system.tells (id, .start operation)) := by
  obtain ⟨idle, rfl⟩ := System.start_eq_some ran
  rw [tells_start, System.set_self]
  cases refused : operation.refusal (system.sessions id).inTransaction with
  | some message =>
      rw [Session.start_refused refused]
      exact .answered (Or.inr ⟨rfl, rfl⟩)
  | none =>
      refine .waits ?_
      rcases Session.start_accepted refused called with same | same
      · simp [same, Session.at_]
      · simp [same, Session.at_]

/-- The thread goes on with what is left of the answer to a message. -/
theorem Answering.proceeds {message : Message} {talk : List (Operation × Reply)}
    {program : SessionProgram Message} (answering : Answering server id history exchanges message talk)
    (follows : (Dispatch.respond message).Follows talk program)
    (ran : server.proceed id program = some after) :
    ∃ recent, Dialogue after id
      (history ++ ((opening program).flatMap fun action => server.system.tells (id, action)).map .took)
      exchanges (some message) recent [] := by
  have idle := answering.idle
  unfold proceed at ran
  split at ran
  · next response =>
      obtain rfl := Option.some.inj ran
      refine ⟨_, answering.moved (connections_goTo ..) ?_⟩
      rw [opening, List.flatMap_nil, List.append_nil]
      exact .writing follows idle
  · next fault =>
      obtain rfl := Option.some.inj ran
      exact ⟨_, answering.moved (connections_goTo ..) (.panicked follows (.stays idle))⟩
  · next operation next =>
      obtain ⟨system, started, rfl⟩ := Option.map_eq_some_iff.mp ran
      have called : operation ≠ .drop := follows.calls (Executor.respond_called message)
      refine ⟨_, answering.moved (connections_goTo ..) ?_⟩
      rw [opening, List.flatMap_singleton]
      exact .calling follows (within_start called started)

theorem Dialogue.arrive {bytes : Bytes} (dialogue : Dialogue server id history exchanges current recent torn)
    (ran : server.arrive id bytes = some after) : Dialogue after id history exchanges current recent torn := by
  obtain ⟨-, rfl⟩ := arrive_eq_some ran
  have fits := dialogue.position
  exact
    { plays := dialogue.plays
      position := by simp; omega
      heard := by
        rw [connections_set, Connection.unread, List.drop_append_of_le_length fits]
        exact (Protocol.decides_readAll _).ok dialogue.heard bytes
      wrote := by simpa using dialogue.wrote
      said := dialogue.said
      place := by simpa using dialogue.place }

theorem Dialogue.close (dialogue : Dialogue server id history exchanges current recent torn)
    (ran : server.close id = some after) : Dialogue after id history exchanges current recent torn := by
  cases ran
  exact
    { plays := dialogue.plays
      position := by simpa using dialogue.position
      heard := by simpa [Connection.unread] using dialogue.heard
      wrote := by simpa using dialogue.wrote
      said := dialogue.said
      place := by simpa using dialogue.place }

theorem Dialogue.read (dialogue : Dialogue server id history exchanges current recent torn)
    (ran : server.read id = some after) :
    ∃ current recent torn,
      Dialogue after id (history ++ server.happens id .read) exchanges current recent torn := by
  obtain ⟨reading, ways⟩ := read_eq_some ran
  have place := dialogue.place
  rw [reading] at place
  cases place with
  | reading idle =>
      unfold happens asks responds tells sections
      rcases ways with ⟨message, rest, read, went⟩ | ⟨error, result, read, rfl⟩
      · rw [read]
        have whole : rest <:+ (server.connections id).incoming :=
          (Protocol.decides_readMessage.suffix read).trans (List.drop_suffix _ _)
        have unread : ((server.readUpTo id rest).connections id).unread = rest := by
          simp only [readUpTo, connections_set, Connection.unread]
          exact (List.suffix_iff_eq_drop.mp whole).symm
        have heard := Protocol.readAll_snoc dialogue.heard read
        have answering :
            Answering (server.readUpTo id rest) id (history ++ [.asked id message]) exchanges message [] :=
          { plays := dialogue.plays
            position := by simp [readUpTo]
            heard := by
              rw [unread]
              simpa [readUpTo] using heard
            wrote := by simpa [readUpTo] using dialogue.wrote
            said := by simpa [since, answersOf] using dialogue.said
            idle := idle }
        obtain ⟨recent, next⟩ := answering.proceeds (.silent _) went
        refine ⟨some message, recent, [], ?_⟩
        rwa [List.append_nil, ← List.append_assoc]
      · rw [read]
        exact ⟨none, _, [], dialogue.moved (connections_goTo ..) rfl rfl (.returned (.stays idle))⟩

theorem happens_section (server : Server) (id : Nat) (action : Action) :
    server.happens id (.section_ action) = (server.system.tells (id, action)).map .took := by
  simp [happens, asks, responds, tells, sections]

theorem Dialogue.section_ {action : Action}
    (dialogue : Dialogue server id history exchanges current recent torn)
    (ran : server.section_ id action = some after) :
    ∃ recent, Dialogue after id (history ++ server.happens id (.section_ action)) exchanges current recent
      torn := by
  obtain ⟨starts, system, moved, rfl⟩ := section_eq_some ran
  have still (idle : (server.system.sessions id).phase = .idle) : False := by
    rw [idle_still idle starts] at moved
    cases moved
  have joined (message : Message) (talk : List (Operation × Reply)) (recent more : List Entry) :
      since id message (answersOf id talk ++ recent) ++ more.map .took =
        since id message (answersOf id talk ++ (recent ++ more)) := by
    simp [since]
  rw [happens_section]
  refine ⟨_, dialogue.moved rfl rfl rfl ?_⟩
  have place := dialogue.place
  generalize (server.connections id).task = task at place ⊢
  cases place with
  | reading idle | writing _ idle => exact (still idle).elim
  | calling follows within =>
      rw [joined]
      have called := follows.calls (Executor.respond_called _)
      exact .calling follows (within.section_ called starts moved)
  | returned leaves =>
      rw [← List.map_append]
      exact .returned (leaves.section_ starts moved)
  | broken sent holds leaves =>
      rw [joined]
      exact .broken sent holds (leaves.section_ starts moved)
  | panicked holds leaves =>
      rw [joined]
      exact .panicked holds (leaves.section_ starts moved)

theorem Dialogue.resume (dialogue : Dialogue server id history exchanges current recent torn)
    (ran : server.resume id = some after) :
    ∃ current recent torn,
      Dialogue after id (history ++ server.happens id .resume) exchanges current recent torn := by
  obtain ⟨operation, next, reply, calling, idle, replied, went⟩ := resume_eq_some ran
  unfold happens asks responds tells sections
  rw [calling, replied, List.nil_append, List.append_nil]
  have place := dialogue.place
  rw [calling] at place
  cases place with
  | @calling message talk _ _ rest follows within =>
      cases within with
      | waits at_ => simp [idle] at at_
      | @answered answer at_ =>
          have replies : (server.system.sessions id).reply = some answer := by simpa [idle] using at_
          have same : answer = answerOf reply := by
            rw [replies] at replied
            exact replyOf_eq_some.mp replied
          have answering : Answering server id history exchanges message (talk ++ [(operation, reply)]) :=
            { plays := dialogue.plays
              position := dialogue.position
              heard := dialogue.heard
              wrote := by simpa using dialogue.wrote
              said := by simpa [answersOf, same] using dialogue.said
              idle := idle }
          obtain ⟨recent, next⟩ := answering.proceeds (follows.snoc reply) went
          exact ⟨_, recent, [], next⟩

theorem Dialogue.write (dialogue : Dialogue server id history exchanges current recent torn)
    (ran : server.write id = some after) :
    ∃ exchanges current recent,
      Dialogue after id (history ++ server.happens id .write) exchanges current recent [] := by
  obtain ⟨response, writing, rfl⟩ := write_eq_some ran
  unfold happens asks responds tells sections
  have place := dialogue.place
  rw [writing] at place ⊢
  cases place with
  | @writing message _ talk holds idle =>
      refine ⟨exchanges ++ [⟨message, talk, response⟩], none, [], ?_⟩
      exact
        { plays := by
            intro exchange member
            rcases List.mem_append.mp member with earlier | last
            · exact dialogue.plays exchange earlier
            · rw [List.mem_singleton.mp last]
              exact holds
          position := by simpa using dialogue.position
          heard := by simpa [Connection.unread] using dialogue.heard
          wrote := by simpa using dialogue.wrote
          said := by simp [dialogue.said, Exchange.block, since]
          place := by simpa using .reading idle }

theorem Dialogue.break_ {sent : Nat} (dialogue : Dialogue server id history exchanges current recent torn)
    (ran : server.break_ id sent = some after) :
    ∃ torn, Dialogue after id history exchanges current recent torn := by
  obtain ⟨response, writing, rfl⟩ := break_eq_some ran
  have place := dialogue.place
  rw [writing] at place
  cases place with
  | @writing message _ talk holds idle =>
      refine ⟨(Protocol.frame response).take sent, ?_⟩
      exact
        { plays := dialogue.plays
          position := by simpa using dialogue.position
          heard := by simpa [Connection.unread] using dialogue.heard
          wrote := by simpa using dialogue.wrote
          said := dialogue.said
          place := by simpa using Place.broken sent holds (.stays idle) }

/-- The end of a session starts. -/
theorem Leaves.start {system begun : System} {recent : List Entry} (leaves : Leaves id (system.sessions id) recent)
    (ran : system.start id .drop = some begun) : Leaves id (begun.sessions id) recent := by
  obtain ⟨idle, rfl⟩ := System.start_eq_some ran
  cases leaves with
  | stays =>
      rw [System.set_self]
      unfold Session.start
      simp only
      split
      · exact .drops (Or.inl rfl)
      · exact .gone rfl
  | drops at_ | gone at_ | dropped at_ => simp [idle] at at_

theorem Dialogue.drop (dialogue : Dialogue server id history exchanges current recent torn)
    (ran : server.drop id = some after) : Dialogue after id history exchanges current recent torn := by
  obtain ⟨ended, system, started, rfl⟩ := drop_eq_some ran
  rw [← List.append_nil history, ← List.append_nil recent]
  refine dialogue.moved rfl rfl rfl ?_
  rw [List.append_nil]
  have place := dialogue.place
  generalize (server.connections id).task = task at place ended ⊢
  cases place with
  | reading | calling | writing => exact ended.elim
  | returned leaves => exact .returned (leaves.start started)
  | broken sent holds leaves => exact .broken sent holds (leaves.start started)
  | panicked holds leaves => exact .panicked holds (leaves.start started)

/-- A step of the thread itself. -/
theorem Dialogue.own {move : Move} (dialogue : Dialogue server id history exchanges current recent torn)
    (ran : server.step id move = some after) :
    ∃ exchanges current recent torn,
      Dialogue after id (history ++ server.happens id move) exchanges current recent torn := by
  have quiet {after : Server} {exchanges : List Exchange} {current : Option Message}
      {recent : List Happening} {torn : Bytes} (none : server.happens id move = [])
      (next : Dialogue after id history exchanges current recent torn) :
      ∃ exchanges current recent torn,
        Dialogue after id (history ++ server.happens id move) exchanges current recent torn := by
    rw [none, List.append_nil]
    exact ⟨_, _, _, _, next⟩
  cases move with
  | arrive bytes => exact quiet rfl (dialogue.arrive ran)
  | close => exact quiet rfl (dialogue.close ran)
  | read => exact ⟨exchanges, dialogue.read ran⟩
  | section_ action =>
      obtain ⟨recent, next⟩ := dialogue.section_ ran
      exact ⟨exchanges, current, recent, torn, next⟩
  | resume => exact ⟨exchanges, dialogue.resume ran⟩
  | write =>
      obtain ⟨exchanges, current, recent, next⟩ := dialogue.write ran
      exact ⟨exchanges, current, recent, [], next⟩
  | break_ sent =>
      obtain ⟨torn, next⟩ := dialogue.break_ ran
      exact quiet rfl next
  | drop => exact quiet rfl (dialogue.drop ran)

/-! ### Other threads -/

theorem connections_apart {mover : Nat} {move : Move} (apart : id ≠ mover)
    (ran : server.step mover move = some after) : after.connections id = server.connections id := by
  have proceeded {program : SessionProgram Message} {server after : Server}
      (went : server.proceed mover program = some after) : after.connections id = server.connections id := by
    unfold proceed at went
    split at went
    · cases went
      exact connections_other apart ..
    · cases went
      exact connections_other apart ..
    · obtain ⟨system, -, rfl⟩ := Option.map_eq_some_iff.mp went
      exact connections_other apart ..
  cases move with
  | arrive bytes =>
      obtain ⟨-, rfl⟩ := arrive_eq_some ran
      exact connections_other apart ..
  | close =>
      cases ran
      exact connections_other apart ..
  | read =>
      rcases (read_eq_some ran).2 with ⟨message, rest, -, went⟩ | ⟨error, result, -, rfl⟩
      · exact (proceeded went).trans (connections_other apart ..)
      · exact connections_other apart ..
  | section_ action =>
      obtain ⟨-, system, -, rfl⟩ := section_eq_some ran
      rfl
  | resume =>
      obtain ⟨operation, next, reply, -, -, -, went⟩ := resume_eq_some ran
      exact proceeded went
  | write =>
      obtain ⟨response, -, rfl⟩ := write_eq_some ran
      exact connections_other apart ..
  | break_ sent =>
      obtain ⟨response, -, rfl⟩ := break_eq_some ran
      exact connections_other apart ..
  | drop =>
      obtain ⟨-, system, -, rfl⟩ := drop_eq_some ran
      rfl

/-- Sections of another session leave a thread and its session where they are. -/
theorem Place.apart {mover : Nat} (apart : id ≠ mover) {task : Task} {actions : List Action}
    {system left : System} (took : Took mover system actions left)
    (place : Place id (system.sessions id) task current recent torn) :
    Place id (left.sessions id) task current recent torn := by
  induction actions generalizing system with
  | nil =>
      cases took
      exact place
  | cons action rest inductionHypothesis =>
      unfold Took at took
      rw [List.map_cons, System.run] at took
      obtain ⟨middle, first, others⟩ := Option.bind_eq_some_iff.mp took
      refine inductionHypothesis others ?_
      rcases step_apart apart first with same | moved
      · rwa [same]
      · rw [moved]
        exact place.notified

theorem Dialogue.other {mover : Nat} {move : Move} (apart : id ≠ mover)
    (dialogue : Dialogue server id history exchanges current recent torn)
    (ran : server.step mover move = some after) :
    Dialogue after id history exchanges current recent torn := by
  have same := connections_apart apart ran
  exact
    { plays := dialogue.plays
      position := by simpa [same] using dialogue.position
      heard := by simpa [same] using dialogue.heard
      wrote := by simpa [same] using dialogue.wrote
      said := dialogue.said
      place := by
        rw [same]
        exact dialogue.place.apart apart (step_took ran) }

end Steps

/-! ### Runs -/

section Runs

variable {storage : Storage} {server : Server} {logs : List (List Happening)}

/-- What happens at one connection. -/
def atConnection (id : Nat) (history : List Happening) : List Happening :=
  history.filter fun happening => happening.at_ = id

theorem atConnection_append (id : Nat) (history later : List Happening) :
    atConnection id (history ++ later) = atConnection id history ++ atConnection id later :=
  List.filter_append ..

/-- What happens in a step happens at its connection. -/
theorem at_of_happens {id : Nat} {move : Move} {happening : Happening}
    (happens : happening ∈ server.happens id move) : happening.at_ = id := by
  unfold Server.happens at happens
  rcases List.mem_append.mp happens with earlier | response
  · rcases List.mem_append.mp earlier with asked | took
    · unfold asks at asked
      split at asked
      · split at asked
        · rw [List.mem_singleton.mp asked]
          rfl
        · cases asked
      · cases asked
    · obtain ⟨entry, told, rfl⟩ := List.mem_map.mp took
      obtain ⟨action, -, told⟩ := List.mem_flatMap.mp told
      rcases List.mem_append.mp told with shown | refused
      · unfold System.shows at shown
        split at shown
        · rw [List.mem_singleton.mp shown]
          rfl
        · cases shown
      · unfold System.refuses at refused
        split at refused
        · split at refused
          · rw [List.mem_singleton.mp refused]
            rfl
          · cases refused
        · cases refused
  · unfold responds at response
    split at response
    · split at response
      · rw [List.mem_singleton.mp response]
        rfl
      · cases response
    · cases response

theorem atConnection_happens {id : Nat} {move : Move} :
    atConnection id (server.happens id move) = server.happens id move :=
  List.filter_eq_self.mpr fun _ happens => decide_eq_true (at_of_happens happens)

theorem atConnection_elsewhere {id mover : Nat} {move : Move} (apart : id ≠ mover) :
    atConnection id (server.happens mover move) = [] :=
  List.filter_eq_nil_iff.mpr fun _ happens => by simp [at_of_happens happens, Ne.symm apart]

/-- In every run there is a dialogue on every connection. -/
theorem reaches_dialogue (reaches : Reaches Step (new storage) logs server) (id : Nat) :
    ∃ exchanges current recent torn,
      Dialogue server id (atConnection id logs.flatten) exchanges current recent torn := by
  induction reaches with
  | refl =>
      refine ⟨[], none, [], [], ?_⟩
      exact
        { plays := fun _ member => by cases member
          position := Nat.le_refl _
          heard := rfl
          wrote := rfl
          said := rfl
          place := .reading rfl }
  | next _ taken inductionHypothesis =>
      obtain ⟨exchanges, current, recent, torn, dialogue⟩ := inductionHypothesis
      obtain ⟨mover, move, rfl, ran⟩ := taken
      rw [List.flatten_append, List.flatten_singleton, atConnection_append]
      by_cases own : id = mover
      · subst own
        rw [atConnection_happens]
        exact dialogue.own ran
      · rw [atConnection_elsewhere own, List.append_nil]
        exact ⟨exchanges, current, recent, torn, dialogue.other own ran⟩

/-- What a client of the server sees: the first of the messages it sent were answered in their order,
each by what `dispatch` makes of the replies of its session; nothing else was written, except for a part of
the next response when the connection broke; and a thread that reads has answered what it read. -/
structure Conversation (server : Server) (id : Nat) (history : List Happening) (exchanges : List Exchange) :
    Prop where
  plays : ∀ exchange ∈ exchanges, exchange.Plays
  heard : ∃ unread, Protocol.readAll exchanges.length (server.connections id).incoming =
      .ok (exchanges.map Exchange.message, unread) ∧
    ((server.connections id).task = .reading → unread = (server.connections id).unread)
  wrote : ∃ torn, (server.connections id).outgoing =
      exchanges.flatMap (fun exchange => Protocol.frame exchange.response) ++ torn ∧
    (torn ≠ [] → (server.connections id).task = .broken)
  said : ∃ recent, history = exchanges.flatMap (Exchange.block id) ++ recent ∧
    (∀ response, .told id response ∉ recent) ∧ ((server.connections id).task = .reading → recent = [])

theorem Dialogue.conversation {id : Nat} {history recent : List Happening} {exchanges : List Exchange}
    {current : Option Message} {torn : Bytes}
    (dialogue : Dialogue server id history exchanges current recent torn) :
    Conversation server id history exchanges := by
  have place := dialogue.place
  refine ⟨dialogue.plays, ?_, ⟨torn, dialogue.wrote, fun some => ?_⟩, recent, dialogue.said, fun response => ?_,
    fun reading => ?_⟩
  · have heard := dialogue.heard
    cases current with
    | none => exact ⟨_, by simpa using heard, fun _ => rfl⟩
    | some message =>
        obtain ⟨unread, read⟩ := Protocol.readAll_init heard
        refine ⟨unread, read, fun reading => ?_⟩
        rw [reading] at place
        cases place
  · generalize (server.connections id).task = task at place ⊢
    cases place <;> first | rfl | exact absurd rfl some
  · generalize (server.connections id).task = task at place
    cases place <;> simp [since]
  · rw [reading] at place
    cases place
    rfl

/-- In every run, with any clients, any bytes from them in any pieces, and any order of the steps of the
threads, there is a conversation on every connection. -/
theorem answers_in_order (reaches : Reaches Step (new storage) logs server) (id : Nat) :
    ∃ exchanges, Conversation server id (atConnection id logs.flatten) exchanges := by
  obtain ⟨exchanges, current, recent, torn, dialogue⟩ := reaches_dialogue reaches id
  exact ⟨exchanges, dialogue.conversation⟩

end Runs

end Server

end MukhiDb.Model
