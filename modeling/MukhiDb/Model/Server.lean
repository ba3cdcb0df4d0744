import MukhiDb.Model.Service

/-!
Contract: the threads of the server, one for each connection (`server.rs`).

Owns: a connection with the bytes that arrived, those that were written and the place of its thread; and
the steps of all threads over the sessions that share the storage: reading a message, starting an
operation of the session, its sections, going on with its reply, writing the response, and the end of the
thread, which drops the session.

Does not own: which thread moves next, which connections are accepted, what is logged, and an I/O error
other than the end of the input or of a write.
-/

namespace MukhiDb.Model

open MukhiDb.Foundation

/-- Where the thread of a connection is. -/
inductive Task where
  /-- In `read_message`. -/
  | reading
  /-- In an operation of the session. -/
  | calling (operation : Operation) (next : Reply → SessionProgram Message)
  /-- About to write the response. -/
  | writing (response : Message)
  /-- `session_loop` returned after reading. -/
  | returned (result : Except Protocol.IoError Unit)
  /-- `session_loop` returned the error of a write. -/
  | broken
  /-- The thread panicked. -/
  | panicked

/-- The loop of the thread is over. -/
def Task.Over : Task → Prop
  | .returned _ | .broken | .panicked => True
  | _ => False

/-- A connection: the bytes that arrived and how many of them were read, whether more can come, and the
bytes that were written. -/
structure Connection where
  incoming : Bytes
  position : Nat
  closed : Bool
  outgoing : Bytes
  task : Task

/-- A connection that was just accepted. -/
def Connection.new : Connection := ⟨[], 0, false, [], .reading⟩

/-- The bytes that were not read yet. -/
def Connection.unread (connection : Connection) : Bytes := connection.incoming.drop connection.position

/-- The sessions over the shared storage, and their connections. -/
structure Server where
  system : System
  connections : Nat → Connection

/-- What happens at a connection. -/
inductive Move where
  /-- Bytes arrive from the client. -/
  | arrive (bytes : Bytes)
  /-- The client closes its end. -/
  | close
  /-- `read_message` returns, and the message is parsed. -/
  | read
  /-- A section of the operation that the session is in. -/
  | section_ (action : Action)
  /-- The operation returns to the executor. -/
  | resume
  /-- `write_message`. -/
  | write
  /-- `write_message` fails after some bytes. -/
  | break_ (sent : Nat)
  /-- The session is dropped. -/
  | drop

namespace Server

/-- `Shared::new`, with connections on which nothing happened yet. -/
def new (storage : Storage) : Server := ⟨.new storage, fun _ => .new⟩

variable (id : Nat)

/-- The server with another state of one connection. -/
def set (connection : Connection) (server : Server) : Server :=
  { server with connections := Function.update server.connections id connection }

/-- The thread at another place. -/
def goTo (task : Task) (server : Server) : Server :=
  server.set id { server.connections id with task }

/-- Go on with a program, up to its next operation or to its end. -/
def proceed (program : SessionProgram Message) (server : Server) : Option Server :=
  match program with
  | .done (.ok response) => some (server.goTo id (.writing response))
  | .done (.error _) => some (server.goTo id .panicked)
  | .call operation next =>
      (server.system.start id operation).map fun system =>
        { server.goTo id (.calling operation next) with system }

/-- Bytes arrive after those that are there. -/
def arrive (bytes : Bytes) (server : Server) : Option Server :=
  if (server.connections id).closed then none
  else some (server.set id
    { server.connections id with incoming := (server.connections id).incoming ++ bytes })

/-- These bytes are left to read. -/
def readUpTo (rest : Bytes) (server : Server) : Server :=
  server.set id
    { server.connections id with position := (server.connections id).incoming.length - rest.length }

/-- No more bytes will arrive. -/
def close (server : Server) : Option Server :=
  some (server.set id { server.connections id with closed := true })

/-- `read_message`, and what follows it. It waits as long as the message is not complete and more bytes
can come. The end of the input is no error. -/
def read (server : Server) : Option Server :=
  match (server.connections id).task with
  | .reading =>
      match Protocol.readMessage (server.connections id).unread with
      | .ok (message, rest) =>
          (server.readUpTo id rest).proceed id (Dispatch.respond message)
      | .error error =>
          if error.kind = .unexpectedEof then
            if (server.connections id).closed then some (server.goTo id (.returned (.ok ()))) else none
          else some (server.goTo id (.returned (.error error)))
  | _ => none

/-- A section of a session, that starts no operation. -/
def section_ (action : Action) (server : Server) : Option Server :=
  match action with
  | .start _ => none
  | action => (server.system.step id action).map fun system => { server with system }

/-- What an operation of a session answered, as its caller gets it. -/
def replyOf : Except Fault Answer → Option Reply
  | .ok answer => some (.ok answer)
  | .error (.error message) => some (.error message)
  | .error _ => none

/-- The executor goes on with the reply to its call. -/
def resume (server : Server) : Option Server :=
  match (server.connections id).task, (server.system.sessions id).phase,
    ((server.system.sessions id).reply.bind replyOf) with
  | .calling _ next, .idle, some reply => server.proceed id (next reply)
  | _, _, _ => none

/-- `write_message`. -/
def write (server : Server) : Option Server :=
  match (server.connections id).task with
  | .writing response =>
      match Protocol.writeMessage response ⟨(server.connections id).outgoing, []⟩ with
      | (.ok (), file) =>
          some (server.set id { server.connections id with outgoing := file.bytes, task := .reading })
      | (.error _, _) => none
  | _ => none

/-- `write_message` fails after some bytes. -/
def break_ (sent : Nat) (server : Server) : Option Server :=
  match (server.connections id).task with
  | .writing response =>
      some (server.set id
        { server.connections id with
          outgoing := (server.connections id).outgoing ++
            (Protocol.writeMessage response ⟨[], []⟩).2.bytes.take sent
          task := .broken })
  | _ => none

/-- `Drop for Session`, at the end of the thread. -/
def drop (server : Server) : Option Server :=
  match (server.connections id).task with
  | .returned _ | .broken | .panicked =>
      (server.system.start id .drop).map fun system => { server with system }
  | _ => none

/-- The next step of a connection. -/
def step (move : Move) (server : Server) : Option Server :=
  match move with
  | .arrive bytes => server.arrive id bytes
  | .close => server.close id
  | .read => server.read id
  | .section_ action => server.section_ id action
  | .resume => server.resume id
  | .write => server.write id
  | .break_ sent => server.break_ id sent
  | .drop => server.drop id

end Server

end MukhiDb.Model
