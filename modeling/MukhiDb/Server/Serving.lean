import Mathlib.Algebra.Order.BigOperators.Group.Finset
import MukhiDb.Server.Histories

/-!
Contract: what the clients of one server get together.

Owns: that the answers of all sessions are a run of the database with one transaction at a time, in an
order in which every statement takes effect between its request and its response; and that a client which
asks for a table is shown every row that some client was told, before, was inserted.

Does not own: runs in which an operation is past the gate when another session begins a transaction.
-/

namespace MukhiDb.Model

open MukhiDb.Foundation

/-! ### What is relied on -/

namespace Receipts

variable {name : String} {owner : Option Nat} {entries : List Entry} {db : Database}

/-- What all answers tell about a table agrees with the database. -/
theorem reaches_agrees (name : String) (ran : Reaches Answered (.empty, none) entries (db, owner)) :
    Agrees name (of name (entries.map Entry.event)) db := by
  generalize reached : (db, owner) = state at ran
  induction ran generalizing db owner with
  | refl =>
      cases reached
      exact agrees_empty name
  | next _ taken inductionHypothesis =>
      subst reached
      rw [List.map_append, List.map_singleton, of_concat]
      rcases taken with ⟨step, -⟩ | ⟨refused, same⟩
      · exact (inductionHypothesis rfl).step step
      · rw [record_refused refused]
        exact inductionHypothesis same

/-- A scan returns the rows that all sessions together may rely on. -/
theorem scan_each {later : List Entry} {reader : Nat} {headers : List String} {rows : List Row}
    (ran : Reaches Answered (.empty, none)
      (entries ++ ⟨reader, .selectAll name, .ok (.rows headers rows)⟩ :: later) (db, owner))
    (clients : Finset Nat) : ∑ id ∈ clients, (each name entries id).kept ≤ (rows : Multiset Row) := by
  obtain ⟨⟨before, holder⟩, after, earlier, answered⟩ := ran.split
  have shares := (reaches_shares name earlier).kept clients
  have agrees := reaches_agrees name earlier
  rcases answered with ⟨step, -⟩ | ⟨⟨message, refusal, -⟩, -⟩
  · change Database.Step before (.selectAll name) (.ok (.rows headers rows)) after.1 at step
    cases step with
    | @selected _ view _ present scan =>
        have covers := agrees.covers view present
        rw [scan.1]
        exact (shares.trans (Multiset.le_add_right _ _)).trans covers.promised
  · cases refusal

end Receipts

namespace Server

variable {sizes : String → Nat → Prop} {host : Host} {server after : Server} {shown : List Happening}
  {logs : List (List Happening)}

/-! ### One transaction at a time -/

theorem StepClear.step (taken : StepClear sizes server shown after) : Step server shown after := by
  obtain ⟨id, move, -, same, ran⟩ := taken
  exact ⟨id, move, same, ran⟩

theorem reaches_step {start : Server} (reaches : Reaches (StepClear sizes) start logs server) :
    Reaches Step start logs server := by
  induction reaches with
  | refl => exact .refl
  | next _ taken inductionHypothesis => exact inductionHypothesis.next taken.step

theorem entries_happens (server : Server) (id : Nat) (move : Move) :
    (server.happens id move).filterMap Happening.entry = server.tells id move := by
  have asked : (server.asks id move).filterMap Happening.entry = [] := by
    unfold asks
    split
    · split <;> rfl
    · rfl
  have told : (server.responds id move).filterMap Happening.entry = [] := by
    unfold responds
    split
    · split <;> rfl
    · rfl
  unfold happens
  rw [List.filterMap_append, List.filterMap_append, asked, told, entries_took, List.nil_append,
    List.append_nil]

theorem opening_short (program : SessionProgram Message) :
    opening program = [] ∨ ∃ action, opening program = [action] := by
  cases program with
  | done => exact Or.inl rfl
  | call operation next => exact Or.inr ⟨_, rfl⟩

/-- A step of a thread is one section of its session at most. -/
theorem sections_short (server : Server) (id : Nat) (move : Move) :
    server.sections id move = [] ∨ ∃ action, server.sections id move = [action] := by
  unfold sections
  split
  · split
    · exact opening_short _
    · exact Or.inl rfl
  · exact Or.inr ⟨_, rfl⟩
  · split
    · exact opening_short _
    · exact Or.inl rfl
  · exact Or.inr ⟨_, rfl⟩
  · exact Or.inl rfl

theorem serial_step {db : Database} {owner : Option Nat} (inTurn : System.InTurn sizes server.system db owner)
    (steady : ∀ name, BTree.Steady (sizes name)) (taken : StepClear sizes server shown after) :
    ∃ left next, Reaches Answered (db, owner) (shown.filterMap Happening.entry) (left, next) ∧
      System.InTurn sizes after.system left next := by
  obtain ⟨id, move, clear, rfl, ran⟩ := taken
  have took := step_took ran
  rw [entries_happens]
  unfold tells
  rcases sections_short server id move with none | ⟨action, one⟩
  · rw [none] at took ⊢
    have same : server.system = after.system := Option.some.inj took
    rw [← same]
    exact ⟨db, owner, .refl, inTurn⟩
  · rw [one] at took ⊢
    obtain ⟨claims, fitting⟩ := clear action (by simp [one])
    obtain ⟨middle, moved, rest⟩ := Option.bind_eq_some_iff.mp took
    have same : middle = after.system := Option.some.inj rest
    rw [List.flatMap_singleton, ← same]
    exact inTurn.told steady claims fitting moved

theorem reaches_serial (steady : ∀ name, BTree.Steady (sizes name))
    (reaches : Reaches (StepClear sizes) (new (Storage.new host (fun _ => none) [])) logs server) :
    ∃ db owner, Reaches Answered (.empty, none) (logs.flatten.filterMap Happening.entry) (db, owner) ∧
      System.InTurn sizes server.system db owner := by
  induction reaches with
  | refl => exact ⟨.empty, none, .refl, System.inTurn_new sizes host⟩
  | next _ taken inductionHypothesis =>
      obtain ⟨db, owner, ran, inTurn⟩ := inductionHypothesis
      obtain ⟨left, next, more, kept⟩ := serial_step inTurn steady taken
      refine ⟨left, next, ?_, kept⟩
      rw [List.flatten_append, List.flatten_singleton, List.filterMap_append]
      exact ran.trans more

/-- A query for a table that is answered with rows is one scan. -/
theorem holds_scan {request : Message} {table : String} {talk : List (Operation × Reply)}
    {headers : List String} {shown : List (List String)}
    (scan : Dispatch.statementOf request = some (.select table none none))
    (holds : (Dispatch.respond request).Holds talk (.ok (.rows headers shown))) :
    ∃ rows, talk = [(.selectAll table, .ok (.rows headers rows))] ∧ shown = rows.map Executor.display := by
  rw [Dispatch.respond_statement scan] at holds
  obtain ⟨reply, later, rfl, rest⟩ := Calls.holds_call.mp holds
  match reply with
  | .ok (.rows columns rows) =>
      have scanned : (Executor.filterRows none columns rows) = .ok rows := Executor.filterRows_none _ _
      change Calls.Holds ((liftM (Executor.filterRows none columns rows) >>= fun filtered =>
        pure (.rows columns (filtered.map Executor.display))) >>= fun result =>
          pure (Dispatch.messageOf result) : SessionProgram Message) later _ at rest
      rw [scanned] at rest
      obtain ⟨rfl, same⟩ := Calls.holds_done.mp rest
      obtain ⟨rfl, rfl⟩ := Message.rows.inj (Except.ok.inj same)
      exact ⟨rows, rfl, rfl⟩
  | .ok .done | .ok (.text _) =>
      obtain ⟨-, same⟩ := Calls.holds_done.mp rest
      cases same
  | .error error =>
      obtain ⟨-, same⟩ := Calls.holds_done.mp rest
      obtain ⟨text, told⟩ := Dispatch.messageOf_error error
      rw [told] at same
      cases same

/-- The answers of one session, and the answers at one connection. -/
theorem entries_atConnection (id : Nat) (history : List Happening) :
    (history.filterMap Happening.entry).filter (fun entry => entry.session = id) =
      (atConnection id history).filterMap Happening.entry := by
  induction history with
  | nil => rfl
  | cons happening rest inductionHypothesis =>
      by_cases own : happening.at_ = id
      · rw [atConnection_own own]
        cases happening with
        | asked | told => exact inductionHypothesis
        | took entry =>
            have same : entry.session = id := own
            simp [Happening.entry, same, inductionHypothesis]
      · rw [atConnection_other own, ← inductionHypothesis]
        cases happening with
        | asked | told => rfl
        | took entry =>
            have apart : entry.session ≠ id := own
            simp [Happening.entry, apart]

theorem foldl_exchanges {exchanges : List Exchange} (plays : ∀ exchange ∈ exchanges, exchange.Plays) (id : Nat)
    (table : String) (receipts : Receipts) :
    ((exchanges.flatMap fun exchange => answersOf id exchange.talk).map Entry.event).foldl
        (Receipts.record table) receipts =
      ((exchanges.map fun exchange => (exchange.message, exchange.response)).filterMap fun pair =>
        Dispatch.heard pair.1 pair.2).foldl (Receipts.record table) receipts := by
  induction exchanges generalizing receipts with
  | nil => rfl
  | cons exchange rest inductionHypothesis =>
      obtain ⟨first, others⟩ := List.forall_mem_cons.mp plays
      rw [List.flatMap_cons, List.map_append, List.foldl_append, Receipts.foldl_exchange first,
        inductionHypothesis others, List.map_cons]
      cases heard : Dispatch.heard exchange.message exchange.response with
      | none =>
          simp only [List.filterMap_cons, heard]
          rfl
      | some event =>
          simp only [List.filterMap_cons, heard]
          rfl

/-- A session gave the answers that its client was told. -/
theorem kept_responded {id : Nat} {earlier later : List Happening} {exchanges : List Exchange}
    (conversation : Conversation server id (atConnection id (earlier ++ later)) exchanges) (table : String) :
    (Receipts.of table ((responded id none earlier).filterMap fun pair =>
        Dispatch.heard pair.1 pair.2)).kept ≤
      (Receipts.each table (earlier.filterMap Happening.entry) id).kept := by
  obtain ⟨recent, said, untold, -⟩ := conversation.said
  have begins : atConnection id earlier <+: exchanges.flatMap (Exchange.block id) ++ recent := by
    rw [← said, atConnection_append]
    exact List.prefix_append _ _
  obtain ⟨count, more, pairs, entries⟩ := responded_front untold begins
  have plays (exchange : Exchange) (member : exchange ∈ exchanges.take count) : exchange.Plays :=
    conversation.plays exchange (List.mem_of_mem_take member)
  unfold Receipts.each
  rw [← responded_atConnection, pairs, entries_atConnection, entries, List.map_append]
  unfold Receipts.of
  rw [← foldl_exchanges plays id, List.foldl_append]
  exact Receipts.kept_foldl _ _

/-- What the clients were told about a table until some point of a history, in which a client asks for the
table afterwards and is shown rows: each of the rows that they were told, outside transactions or in those
that they were told are committed, is among the rows shown. -/
theorem clients_keep (steady : ∀ name, BTree.Steady (sizes name))
    (reaches : Reaches (StepClear sizes) (new (Storage.new host (fun _ => none) [])) logs server)
    {earlier middle later : List Happening} {reader : Nat} {request : Message} {table : String}
    {headers : List String} {shown : List (List String)}
    (history : logs.flatten =
      earlier ++ .asked reader request :: (middle ++ .told reader (.rows headers shown) :: later))
    (silent : ∀ response, .told reader response ∉ middle)
    (scan : Dispatch.statementOf request = some (.select table none none)) (clients : Finset Nat) :
    ∃ rows : List Row, shown = rows.map Executor.display ∧
      ∑ id ∈ clients, (Receipts.of table ((responded id none earlier).filterMap fun pair =>
        Dispatch.heard pair.1 pair.2)).kept ≤ (rows : Multiset Row) := by
  obtain ⟨db, owner, ran, -⟩ := reaches_serial steady reaches
  have conversations (id : Nat) :
      ∃ exchanges, Conversation server id (atConnection id logs.flatten) exchanges := by
    obtain ⟨exchanges, current, recent, torn, dialogue⟩ := reaches_dialogue (reaches_step reaches) id
    exact ⟨exchanges, dialogue.conversation⟩
  rw [history] at ran conversations
  -- the exchange of the request is one scan, and its answer lies between the request and the response
  obtain ⟨exchanges, conversation⟩ := conversations reader
  obtain ⟨recent, said, untold, -⟩ := conversation.said
  rw [atConnection_append, @atConnection_own reader (.asked reader request) rfl, atConnection_append,
    @atConnection_own reader (.told reader _) rfl] at said
  have silence (response : Message) : .told reader response ∉ atConnection reader middle :=
    fun member => silent response (List.mem_filter.mp member).1
  obtain ⟨exchange, member, rfl, response, between⟩ := exchange_between untold said.symm silence
  have plays := conversation.plays exchange member
  unfold Exchange.Plays at plays
  rw [response] at plays
  obtain ⟨rows, talk, rfl⟩ := holds_scan scan plays
  refine ⟨rows, rfl, ?_⟩
  have inside : .took ⟨reader, .selectAll table, .ok (.rows headers rows)⟩ ∈ atConnection reader middle := by
    rw [between, talk]
    exact List.mem_singleton.mpr rfl
  have scanned := (List.mem_filter.mp inside).1
  obtain ⟨front, back, rfl⟩ := List.append_of_mem scanned
  -- the rows that clients were told of are those that sessions answered for
  have entries : (earlier ++ .asked reader exchange.message :: (front ++
      .took ⟨reader, .selectAll table, .ok (.rows headers rows)⟩ :: back ++
      .told reader (.rows headers (rows.map Executor.display)) :: later)).filterMap Happening.entry =
      (earlier.filterMap Happening.entry ++ front.filterMap Happening.entry) ++
        ⟨reader, .selectAll table, .ok (.rows headers rows)⟩ ::
          (back.filterMap Happening.entry ++ later.filterMap Happening.entry) := by
    rw [List.filterMap_append, List.filterMap_cons_none (entry_asked _ _), List.filterMap_append,
      List.filterMap_append, List.filterMap_cons_some (entry_took _),
      List.filterMap_cons_none (entry_told _ _)]
    simp only [List.append_assoc, List.cons_append]
  rw [entries] at ran
  have grown (id : Nat) : (Receipts.each table (earlier.filterMap Happening.entry) id).kept ≤
      (Receipts.each table (earlier.filterMap Happening.entry ++ front.filterMap Happening.entry) id).kept := by
    unfold Receipts.each
    rw [List.filter_append, List.map_append]
    exact Receipts.kept_of_append _ _ _
  refine le_trans (Finset.sum_le_sum fun id _ => ?_) (Receipts.scan_each ran clients)
  obtain ⟨others, conversation⟩ := conversations id
  exact (kept_responded conversation table).trans (grown id)

end Server

/-! ### One client at a time -/

namespace System

variable {system : System}

/-- The sections of a statement, while no other session does anything. -/
theorem Resting.sections {operation : Operation} {answer : Except Fault Answer} {storage : Storage}
    (resting : system.Resting) (statement : operation.IsStatement)
    (closure : operation.closure system.storage = (answer, storage)) (back : cameBack answer = true) (id : Nat) :
    ∃ gate locking inside after, system.start id operation = some gate ∧ gate.check id = some locking ∧
      locking.enter id = some inside ∧ inside.leave id = some after ∧
      (gate.sessions id).phase = .gate operation ∧ (inside.sessions id).phase = .inside operation ∧
      inside.storage = system.storage ∧ after.Resting ∧ after.storage = storage ∧
      (after.sessions id).reply = some answer := by
  obtain ⟨idle, outside⟩ := resting.sessions id
  have starts : (system.sessions id).start operation = (system.sessions id).at_ (.gate operation) := by
    cases operation <;> first | rfl | exact statement.elim
  have ended (session : Session) : session.afterClosure answer operation = session.returns answer := by
    cases operation <;> first | rfl | exact statement.elim
  let gate := system.set id ((system.sessions id).at_ (.gate operation))
  let locking := gate.set id ((gate.sessions id).at_ (.locking operation))
  have started : system.start id operation = some gate := by
    unfold System.start
    rw [idle]
    exact congrArg (fun session => some (system.set id session)) starts
  have gatePhase : (gate.sessions id).phase = .gate operation := by
    simp [gate, Session.at_]
  have checked : gate.check id = some locking := by
    have free : gate.txnOwner = none ∨ gate.txnOwner = some id := Or.inl resting.owner
    unfold System.check
    rw [gatePhase]
    cases operation <;> first | exact if_pos free | exact statement.elim
  have lockingPhase : (locking.sessions id).phase = .locking operation := by
    simp [locking, Session.at_]
  have same : locking.lock = .free := resting.lock
  obtain ⟨lock, acquired, dropped⟩ : ∃ lock, locking.lock.acquire id
      (operation.writes (locking.sessions id).inTransaction) = some lock ∧ lock.drop id = .free := by
    rw [same]
    refine ⟨_, rfl, ?_⟩
    cases operation.writes (locking.sessions id).inTransaction <;> simp [StorageLock.drop]
  let inside : System := { locking.set id ((locking.sessions id).at_ (.inside operation)) with lock }
  have entered : locking.enter id = some inside := by
    unfold System.enter
    rw [lockingPhase]
    exact congrArg (Option.map _) acquired
  have insidePhase : (inside.sessions id).phase = .inside operation := by
    simp [inside, System.set, Session.at_]
  let after : System := { inside.set id ((inside.sessions id).afterClosure answer operation) with
    storage, lock := inside.lock.drop id }
  have left : inside.leave id = some after := by
    have ran : operation.closure inside.storage = (answer, storage) := closure
    unfold System.leave
    rw [insidePhase]
    simp only [ran]
    exact if_pos back
  refine ⟨gate, locking, inside, after, started, checked, entered, left, gatePhase, insidePhase, rfl,
    ⟨fun other => ?_, dropped, resting.owner⟩, rfl, ?_⟩
  · by_cases here : other = id
    · subst here
      simp [after, inside, locking, gate, System.set, ended, Session.returns, Session.at_, outside]
    · simpa [after, inside, locking, gate, System.set, here] using resting.sessions other
  · simp [after, System.set, ended, Session.returns]

end System

namespace Server

variable {sizes : String → Nat → Prop} {server : Server}

/-- No session does anything, and all threads wait for messages. -/
structure Waiting (server : Server) : Prop where
  resting : server.system.Resting
  reading : ∀ id, (server.connections id).task = .reading
  open_ : ∀ id, (server.connections id).closed = false
  read : ∀ id, (server.connections id).position = (server.connections id).incoming.length

theorem waiting_new (storage : Storage) : (new storage).Waiting where
  resting := System.resting_new storage
  reading := fun _ => rfl
  open_ := fun _ => rfl
  read := fun _ => rfl

/-- A step without a section. -/
theorem stepClear_quiet {after : Server} {id : Nat} {move : Move} {shown : List Happening}
    (ran : server.step id move = some after) (none : server.sections id move = [])
    (same : server.happens id move = shown) : StepClear sizes server shown after := by
  refine ⟨id, move, fun action member => ?_, same.symm, ran⟩
  rw [none] at member
  cases member

/-- A step that is a section of a statement. -/
theorem stepClear_section {id : Nat} {action : Action} {system : System}
    (moved : server.system.step id action = some system) (starts : ∀ operation, action ≠ .start operation)
    (claims : server.system.ClaimsClear (id, action)) (fitting : server.system.Fitting sizes (id, action)) :
    StepClear sizes server ((server.system.tells (id, action)).map .took) { server with system } := by
  refine ⟨id, .section_ action, fun other member => ?_, (happens_section ..).symm, ?_⟩
  · obtain rfl := List.mem_singleton.mp member
    exact ⟨claims, fitting⟩
  · change server.section_ id action = _
    unfold section_
    cases action with
    | start operation => exact absurd rfl (starts operation)
    | _ => simp [moved]

/-- The sections of a statement between its start and its answer. -/
theorem reaches_sections {gate locking inside left : System} {operation : Operation}
    {answer : Except Fault Answer} {storage : Storage} {id : Nat}
    (checked : gate.check id = some locking) (entered : locking.enter id = some inside)
    (leaves : inside.leave id = some left) (gatePhase : (gate.sessions id).phase = .gate operation)
    (insidePhase : (inside.sessions id).phase = .inside operation) (notBegin : operation ≠ .begin)
    (sized : Storage.Sized sizes inside.storage operation)
    (closure : operation.closure inside.storage = (answer, storage)) :
    Reaches (StepClear sizes) { server with system := gate } ([[], []] ++ [[.took ⟨id, operation, answer⟩]])
      { server with system := left } := by
  have first : StepClear sizes { server with system := gate } [] { server with system := locking } := by
    have taken := @stepClear_section sizes { server with system := gate } id .check locking checked
      (fun _ => by simp) (fun _ begins => ?_) (fun leave => (by cases leave))
    · exact taken
    · exact absurd (Phase.gate.inj (gatePhase.symm.trans begins)) notBegin
  have second : StepClear sizes { server with system := locking } [] { server with system := inside } := by
    have taken := @stepClear_section sizes { server with system := locking } id .enter inside entered
      (fun _ => by simp) (fun check => (by cases check)) (fun leave => (by cases leave))
    exact taken
  have third : StepClear sizes { server with system := inside } [.took ⟨id, operation, answer⟩]
      { server with system := left } := by
    have taken := @stepClear_section sizes { server with system := inside } id .leave left leaves
      (fun _ => by simp) (fun check => (by cases check)) fun _ other at_ => ?_
    · rwa [tells_leave insidePhase, closure] at taken
    · obtain rfl := Phase.inside.inj (insidePhase.symm.trans at_)
      exact sized
  exact ((Reaches.refl.next first).next second).next third

/-- A client asks for a statement of one operation, while no other one does anything. -/
theorem Waiting.serves {message response : Message} {operation : Operation} {storage : Storage}
    {next : Reply → SessionProgram Message} {reply : Reply} (waiting : server.Waiting)
    (sendable : Protocol.Sendable message) (same : Protocol.received message = message)
    (program : Dispatch.respond message = .call operation next) (statement : operation.IsStatement)
    (sized : Storage.Sized sizes server.system.storage operation)
    (closure : operation.closure server.system.storage = (answerOf reply, storage))
    (ends : next reply = .done (.ok response)) (id : Nat) :
    ∃ logs after, Reaches (StepClear sizes) server logs after ∧ after.Waiting ∧
      after.system.storage = storage ∧
      logs.flatten = [.asked id message, .took ⟨id, operation, answerOf reply⟩, .told id response] := by
  have back : cameBack (answerOf reply) = true := by cases reply <;> rfl
  obtain ⟨gate, locking, inside, left, started, checked, entered, leaves, gatePhase, insidePhase, unchanged,
    resting, storage_, replied⟩ := waiting.resting.sections statement closure back id
  have notBegin : operation ≠ .begin := by
    rintro rfl
    exact statement
  have accepted : server.system.tells (id, .start operation) = [] := by
    rw [tells_start]
    cases operation <;> first | rfl | exact statement.elim
  let asked := server.set id { server.connections id with
    incoming := (server.connections id).incoming ++ Protocol.frame message }
  let calling := (asked.readUpTo id []).goTo id (.calling operation next)
  let writing : Server := { calling.goTo id (.writing response) with system := left }
  have unread : (asked.connections id).unread = Protocol.frame message ++ [] := by
    simp [asked, Connection.unread, waiting.read]
  have message_ : Protocol.readMessage (asked.connections id).unread = .ok (message, []) := by
    rw [unread, Protocol.readMessage_frame sendable, same]
  have first : StepClear sizes server [] asked := by
    refine @stepClear_quiet sizes _ _ id (.arrive (Protocol.frame message)) _ ?_ rfl rfl
    exact if_neg (by simp [waiting.open_])
  have second : StepClear sizes asked [.asked id message] { calling with system := gate } := by
    refine ⟨id, .read, fun action member => ?_, ?_, ?_⟩
    · have same : asked.sections id .read = [.start operation] := by
        simp [sections, message_, program, opening]
      rw [same, List.mem_singleton] at member
      subst member
      exact ⟨fun check => (by cases check), fun leave => (by cases leave)⟩
    · simp [happens, asks, responds, tells, sections, message_, program, opening]
      exact accepted
    · change asked.read id = _
      unfold Server.read
      have reading : (asked.connections id).task = .reading := by
        simp [asked, waiting.reading]
      rw [reading]
      simp only [message_, program]
      exact congrArg (Option.map _) started
  have third := @reaches_sections sizes calling _ _ _ _ operation (answerOf reply) storage id checked
    entered leaves gatePhase insidePhase notBegin (by rwa [unchanged]) (by rwa [unchanged])
  have fourth : StepClear sizes { calling with system := left } [] writing := by
    have task : (calling.connections id).task = .calling operation next := by simp [calling]
    have answered : (left.sessions id).reply.bind replyOf = some reply := by
      rw [replied]
      exact replyOf_eq_some.mpr rfl
    refine @stepClear_quiet sizes _ _ id .resume _ ?_ ?_ ?_
    · change resume id _ = _
      unfold resume
      simp only [task, answered, (resting.sessions id).1, ends]
      rfl
    · simp [sections, task, answered, ends, opening]
    · simp [happens, asks, responds, tells, sections, task, answered, ends, opening]
  have fifth : StepClear sizes writing [.told id response] (writing.set id { writing.connections id with
      outgoing := (writing.connections id).outgoing ++ Protocol.frame response, task := .reading }) := by
    have task : (writing.connections id).task = .writing response := by simp [writing]
    refine @stepClear_quiet sizes _ _ id .write _ ?_ rfl ?_
    · change write id _ = _
      unfold write
      simp only [task, Protocol.writeMessage_ok]
    · simp [happens, asks, responds, tells, sections, task]
  refine ⟨_, _, ((((Reaches.refl.next first).next second).trans third).next fourth).next fifth, ⟨resting, fun other => ?_, fun other => ?_, fun other => ?_⟩, storage_, rfl⟩
  · by_cases here : other = id
    · subst here
      simp
    · simpa [writing, calling, asked, readUpTo, goTo, connections_other here] using waiting.reading other
  · by_cases here : other = id
    · subst here
      simpa [writing, calling, asked, readUpTo, goTo] using waiting.open_ other
    · simpa [writing, calling, asked, readUpTo, goTo, connections_other here] using waiting.open_ other
  · by_cases here : other = id
    · subst here
      simp [writing, calling, asked, readUpTo, goTo]
    · simpa [writing, calling, asked, readUpTo, goTo, connections_other here] using waiting.read other

/-! ### A table of numbers -/

section Numbers

/-- Client 0 creates a table. -/
def createRequest : Message := .query "CREATE TABLE t (id INTEGER)"

/-- Client 0 inserts a number. -/
def insertRequest : Message := .query "INSERT INTO t VALUES (7)"

/-- Client 1 asks for the table. -/
def scanRequest : Message := .query "SELECT * FROM t"

theorem create_statement :
    Dispatch.statementOf createRequest = some (.createTable "t" [⟨"id", .integer⟩]) := rfl

theorem insert_statement : Dispatch.statementOf insertRequest = some (.insert "t" [.integer 7]) := rfl

theorem scan_statement : Dispatch.statementOf scanRequest = some (.select "t" none none) := rfl

theorem query_sendable {text : String} (short : (utf8Bytes text).length < 2 ^ 32 - 1) :
    Protocol.Sendable (.query text) := ⟨short, fun _ _ same => by cases same⟩

/-- Until client 0 was told of its row. -/
def toldRequests : List Happening :=
  [.asked 0 createRequest, .took ⟨0, .createTable "t" [⟨"id", .integer⟩], .ok .done⟩,
    .told 0 (.ok "Table 't' created.")] ++
  [.asked 0 insertRequest, .took ⟨0, .insert "t" [.integer 7], .ok .done⟩, .told 0 (.ok "1 row inserted.")]

theorem clients_number {host : Host}
    (own : host.resolve (Storage.pathOf "t") = Storage.pathOf "t") :
    ∃ logs server headers rows, Reaches (StepClear Storage.numbers) (new (Storage.new host (fun _ => none) []))
        logs server ∧
      logs.flatten = toldRequests ++ .asked 1 scanRequest ::
        ([.took ⟨1, .selectAll "t", .ok (.rows headers rows)⟩] ++
          .told 1 (.rows headers (rows.map Executor.display)) :: []) := by
  obtain ⟨middle, after, created, inserted, -, represents⟩ := Storage.represents_number own 7
  obtain ⟨headers, rows, storage, scanned⟩ := @Storage.Represents.scans _ _ _ "t" represents
    (by simp [Database.put])
  obtain ⟨createLogs, first, ran, waiting, rfl, createShown⟩ :=
    @Waiting.serves Storage.numbers _ createRequest (.ok "Table 't' created.") _ _ _ (.ok .done) (waiting_new _)
      (query_sendable (by decide)) rfl
      ((Dispatch.respond_statement create_statement).trans rfl) trivial created.1 created.2 rfl 0
  obtain ⟨insertLogs, second, further, waiting, rfl, insertShown⟩ :=
    @Waiting.serves Storage.numbers _ insertRequest (.ok "1 row inserted.") _ _ _ (.ok .done) waiting
      (query_sendable (by decide)) rfl
      ((Dispatch.respond_statement insert_statement).trans rfl) trivial inserted.1 inserted.2 rfl 0
  have shown : Executor.filterRows none headers rows = .ok rows := Executor.filterRows_none _ _
  obtain ⟨scanLogs, third, last, -, -, scanShown⟩ :=
    @Waiting.serves Storage.numbers _ scanRequest (.rows headers (rows.map Executor.display)) _ _ _
      (.ok (.rows headers rows)) waiting (query_sendable (by decide)) rfl
      ((Dispatch.respond_statement scan_statement).trans rfl) trivial trivial scanned
      (by
        change ((liftM (Executor.filterRows none headers rows) >>= fun filtered =>
          pure (.rows headers (filtered.map Executor.display))) >>= fun result =>
            pure (Dispatch.messageOf result) : SessionProgram Message) = _
        rw [shown]
        rfl) 1
  refine ⟨_, third, headers, rows, (ran.trans further).trans last, ?_⟩
  rw [List.flatten_append, List.flatten_append, createShown, insertShown, scanShown]
  rfl

theorem kept_number :
    (Receipts.of "t" ((responded 0 none toldRequests).filterMap fun pair =>
      Dispatch.heard pair.1 pair.2)).kept = {⟨[.integer 7]⟩} := by
  have pairs : responded 0 none toldRequests =
      [(createRequest, .ok "Table 't' created."), (insertRequest, .ok "1 row inserted.")] := rfl
  have create : Dispatch.heard createRequest (.ok "Table 't' created.") = none := by
    simp only [Dispatch.heard, create_statement]
  have insert : Dispatch.heard insertRequest (.ok "1 row inserted.") =
      some (.ran (.insert "t" [.integer 7]) (.ok .done)) := by
    simp only [Dispatch.heard, insert_statement]
    rfl
  rw [pairs]
  simp [create, insert, Receipts.of, Receipts.record, Receipts.insert, Receipts.send, Receipts.blank]

/-- Client 1 is shown the number that client 0 was told is inserted. -/
theorem clients_keep_number :
    ∃ server logs headers rows, Reaches (StepClear Storage.numbers)
        (new (Storage.new (Host.startingWith "t") (fun _ => none) [])) logs server ∧
      logs.flatten = toldRequests ++ .asked 1 scanRequest ::
        ([.took ⟨1, .selectAll "t", .ok (.rows headers rows)⟩] ++
          .told 1 (.rows headers (rows.map Executor.display)) :: []) ∧
      ["7"] ∈ rows.map Executor.display := by
  obtain ⟨logs, server, headers, rows, reaches, history⟩ := clients_number Storage.keepsName_number.own
  refine ⟨server, logs, headers, rows, reaches, history, ?_⟩
  obtain ⟨scanned, shown, kept⟩ := clients_keep Storage.steady_numbers reaches history
    (fun response member => by simp at member) scan_statement {0}
  rw [Finset.sum_singleton, kept_number, Multiset.singleton_le, Multiset.mem_coe] at kept
  rw [shown]
  exact List.mem_map.mpr ⟨_, kept, by decide⟩

theorem answers_in_order_number :
    ∃ server logs exchanges, Reaches Step (new (Storage.new (Host.startingWith "t") (fun _ => none) []))
        logs server ∧ logs.flatten ≠ [] ∧ Conversation server 1 (atConnection 1 logs.flatten) exchanges := by
  obtain ⟨logs, server, headers, rows, reaches, history⟩ := clients_number Storage.keepsName_number.own
  obtain ⟨exchanges, conversation⟩ := answers_in_order (reaches_step reaches) 1
  exact ⟨server, logs, exchanges, reaches_step reaches, by simp [history], conversation⟩

end Numbers

end Server

end MukhiDb.Model
