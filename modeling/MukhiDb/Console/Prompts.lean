import MukhiDb.Console.Tables
import MukhiDb.Parser.CreateTable
import MukhiDb.Protocol.Stream

/-!
Contract: what a user at a prompt sees.

Owns: what the client sends for a line, and what it prints when the answer has arrived; and that for
a statement it prints what the local program prints.

Does not own: the lines that start with a dot.
-/

namespace MukhiDb.Model

open MukhiDb.Foundation

namespace Client

/-! ### The client's calls -/

variable {client : Client}

/-- A line for the server is sent as a query. -/
theorem type_sends {line sql : String} {rest : List String} (prompting : client.phase = .prompting)
    (lines : client.lines = line :: rest) (sends : request line = .send sql) :
    client.type_ = some { client with
      lines := rest
      printed := client.printed ++ [Console.prompt]
      sent := client.sent ++ Protocol.frame (.query sql)
      phase := .waiting } := by
  unfold type_
  rw [prompting, lines]
  dsimp only
  rw [sends]
  dsimp only
  rw [Protocol.writeMessage_ok]

/-- An answer that has arrived is printed, and the client is at its prompt again. -/
theorem hear_prints {outgoing : Bytes} {message : Message} (waiting : client.phase = .waiting)
    (sendable : Protocol.Sendable message) (counted : Protocol.CountFits message)
    (arrived : (outgoing.take client.arrived).drop client.position = Protocol.frame message)
    (lost : Bool) :
    client.hear outgoing lost = some { client with
      printed := client.printed ++ shown message
      position := client.arrived
      phase := .prompting } := by
  have read := Protocol.readMessage_frame sendable []
  rw [List.append_nil, (Protocol.received_eq_iff message).mpr counted] at read
  unfold hear
  rw [waiting, arrived, read]
  rfl

end Client

/-! ### Statements -/

/-- What a line that is no meta-command runs on the session. -/
def statementOf (line : String) : SessionProgram ExecuteResult := do
  let statement ← Parser.parse line
  Executor.execute statement

/-- The line, without white space around it, is not empty and does not start with a dot. -/
structure Statement.Line (line : String) : Prop where
  nonempty : trim line.toList ≠ []
  plain : (trim line.toList).head? ≠ some '.'

/-- The result is no error, or the text of the error has no white space around it. -/
def ExecuteResult.Spaced : ExecuteResult → Prop
  | .message text => Dispatch.errorWord <+: text.toList →
      ∃ error, text.toList = Dispatch.errorWord ++ ' ' :: error ∧ Trimmed error
  | .rows _ _ => True

section Statements

variable {line : String}

theorem Statement.Line.handled (plain : Statement.Line line) :
    Repl.handleLine line = statementOf (String.ofList (trim line.toList)) >>= fun result =>
      pure ⟨Repl.printed result, false⟩ := by
  have some : String.ofList (trim line.toList) ≠ "" := fun empty =>
    plain.nonempty (String.toList_ofList.symm.trans (congrArg String.toList empty))
  unfold Repl.handleLine statementOf
  dsimp only
  rw [if_neg some, String.toList_ofList, if_neg plain.plain]
  rcases Parser.parse (String.ofList (trim line.toList)) with fault | statement <;> rfl

theorem Statement.Line.dispatched (plain : Statement.Line line) :
    Dispatch.dispatch (String.ofList (trim line.toList)) =
      statementOf (String.ofList (trim line.toList)) >>= fun result =>
        pure (Dispatch.messageOf result) := by
  have undotted : ¬ Dispatch.btreeWord.isPrefixOf (trim line.toList) = true := by
    intro starts
    obtain ⟨rest, whole⟩ := List.isPrefixOf_iff_prefix.mp starts
    exact plain.plain (by rw [← whole]; rfl)
  unfold Dispatch.dispatch statementOf
  dsimp only
  rw [String.toList_ofList, (Parser.trim_trimmed line.toList).trim, if_neg undotted]
  rcases Parser.parse (String.ofList (trim line.toList)) with fault | statement <;> rfl

theorem Statement.Line.request (plain : Statement.Line line) :
    Client.request line = .send (String.ofList (trim line.toList)) := by
  have other (text : String) (dotted : text.toList.head? = some '.') :
      String.ofList (trim line.toList) ≠ text := by
    rintro rfl
    exact plain.plain (by rwa [String.toList_ofList] at dotted)
  have some : String.ofList (trim line.toList) ≠ "" := fun empty =>
    plain.nonempty (String.toList_ofList.symm.trans (congrArg String.toList empty))
  unfold Client.request
  dsimp only
  rw [if_neg some, if_neg (not_or.mpr ⟨other ".exit" rfl, other ".quit" rfl⟩),
    if_neg (other ".help" rfl)]

/-- The client shows a result as the local program prints it. -/
theorem ExecuteResult.Spaced.shown {result : ExecuteResult} (spaced : result.Spaced) :
    Client.shown (Dispatch.messageOf result) = Repl.printed result := by
  cases result with
  | rows headers rows => rfl
  | message text =>
      unfold Dispatch.messageOf
      dsimp only
      split
      · next starts =>
          obtain ⟨error, whole, trimmed⟩ := spaced (List.isPrefixOf_iff_prefix.mp starts)
          have stripped : Dispatch.trimStartMatchesError text.toList = ' ' :: error := by
            rw [whole]
            rfl
          rw [stripped, trim_space, trimmed.trim]
          refine congrArg (fun text => [text]) (String.toList_inj.mp ?_)
          rw [whole]
          exact String.toList_append.trans (congrArg _ String.toList_ofList)
      · rfl

/-- For a statement the client prints what the local program prints over the same storage: it sends
the statement, the server's session answers it, and when the answer has arrived the client prints
it and is at its prompt again. -/
theorem Client.prints_locally {client : Client} {rest : List String} {alone after : Alone}
    {result : ExecuteResult} {outgoing : Bytes} (plain : Statement.Line line)
    (prompting : client.phase = .prompting) (lines : client.lines = line :: rest)
    (read : client.position = outgoing.length)
    (ran : (statementOf (String.ofList (trim line.toList))).run Alone.reply alone =
      (.ok result, after))
    (spaced : result.Spaced) (sendable : Protocol.Sendable (Dispatch.messageOf result))
    (counted : Protocol.CountFits (Dispatch.messageOf result)) (lost : Bool) :
    ∃ waiting message, client.type_ = some waiting ∧
      waiting.sent = client.sent ++ Protocol.frame (.query (String.ofList (trim line.toList))) ∧
      (Dispatch.respond (.query (String.ofList (trim line.toList)))).run Alone.reply alone =
        (.ok message, after) ∧
      (Repl.handleLine line).run Alone.reply alone = (.ok ⟨Client.shown message, false⟩, after) ∧
      Client.hear (outgoing ++ Protocol.frame message) lost
          { waiting with arrived := (outgoing ++ Protocol.frame message).length } =
        some { waiting with
          arrived := (outgoing ++ Protocol.frame message).length
          printed := client.printed ++ [Console.prompt] ++ Client.shown message
          position := (outgoing ++ Protocol.frame message).length
          phase := .prompting } := by
  have answered : (Dispatch.dispatch (String.ofList (trim line.toList))).run Alone.reply alone =
      (.ok (Dispatch.messageOf result), after) := by
    rw [plain.dispatched, Calls.run_bind, Exec.bind_ok ran]
    rfl
  have handled : (Repl.handleLine line).run Alone.reply alone =
      (.ok ⟨Client.shown (Dispatch.messageOf result), false⟩, after) := by
    rw [plain.handled, Calls.run_bind, Exec.bind_ok ran, spaced.shown]
    rfl
  refine ⟨_, Dispatch.messageOf result, type_sends prompting lines plain.request, rfl, answered,
    handled, hear_prints rfl sendable counted ?_ lost⟩
  dsimp only
  rw [List.take_length, read, List.drop_left]

end Statements

end MukhiDb.Model
