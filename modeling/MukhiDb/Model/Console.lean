import MukhiDb.Model.Service

/-!
Contract: the two programs that a user types into (`repl.rs`, `client.rs`).

Owns: the printing of a table; what the local program does with a line and its loop over the lines of the
input; and what the client does with a line and with the message that it gets back.

Does not own: the banner, what is written to the standard error, the connection, and a line that cannot
be read.
-/

namespace MukhiDb.Model

open MukhiDb.Foundation

/-! ### Tables -/

namespace Console

/-- `format!("{:<width$}")`: a text with blanks behind it, up to a number of characters. -/
def padded (width : Nat) (text : String) : String :=
  text ++ String.ofList (List.replicate (width - text.length) ' ')

/-- The widths, in bytes, with the cells of one more row. -/
def widen : List Nat → List String → List Nat
  | width :: widths, cell :: cells => max width (byteLength cell.toList) :: widen widths cells
  | widths, _ => widths

/-- The width of each column: the bytes of its longest text. -/
def columnWidths (headers : List String) (rows : List (List String)) : List Nat :=
  rows.foldl widen (headers.map fun header => byteLength header.toList)

/-- The cells of a row, each padded to the width of its column. -/
def paddedRow : List Nat → List String → List String
  | width :: widths, cell :: cells => padded width cell :: paddedRow widths cells
  | [], cells => cells.map fun cell => padded (byteLength cell.toList) cell
  | _, [] => []

/-- A row, or the headers. -/
def rowLine (widths : List Nat) (cells : List String) : String := " | ".intercalate (paddedRow widths cells)

/-- The line under the headers. -/
def divider (widths : List Nat) : String :=
  "-+-".intercalate (widths.map fun width => String.ofList (List.replicate width '-'))

/-- The line under the rows. -/
def countLine (count : Nat) : String :=
  "(" ++ toString count ++ " row" ++ (if count = 1 then "" else "s") ++ ")"

/-- `print_table`, of both programs: the lines it prints. -/
def printTable (headers : List String) (rows : List (List String)) : List String :=
  if rows = [] then ["(0 rows)"]
  else
    let widths := columnWidths headers rows
    rowLine widths headers :: divider widths :: (rows.map (rowLine widths) ++ [countLine rows.length])

/-- What both programs print before they read a line. -/
def prompt : String := "mukhidb> "

end Console

/-! ### The local program -/

namespace Repl

/-- `".btree"`. -/
def btreeWord : List Char := ['.', 'b', 't', 'r', 'e', 'e']

/-- What `.help` prints. -/
def help : List String :=
  ["Supported SQL:",
    "  CREATE TABLE <name> (<col> INTEGER|TEXT, ...)",
    "  INSERT INTO <name> VALUES (<val>, ...)",
    "  SELECT * FROM <name> [JOIN <name> ON <col> = <col>] [WHERE ...]",
    "  BEGIN / COMMIT / ROLLBACK",
    "Meta-commands:",
    "  .help            — show this message",
    "  .btree <table>   — visualise B+Tree structure",
    "  .exit            — quit"]

/-- What a line does: what it prints, and whether the process exits. -/
structure Effect where
  printed : List String
  exits : Bool

/-- The lines printed for a result of the executor. -/
def printed : ExecuteResult → List String
  | .message text => [text]
  | .rows headers rows => Console.printTable headers rows

/-- The lines printed for `.btree`. -/
def dumpPrinted : Except String String → List String
  | .ok tree => [tree]
  | .error error => ["Error: " ++ error]

/-- `handle_meta`. -/
def handleMeta (cmd : String) : SessionProgram Effect :=
  if cmd = ".exit" ∨ cmd = ".quit" then pure ⟨["Bye!"], true⟩
  else if cmd = ".help" then pure ⟨help, false⟩
  else if btreeWord.isPrefixOf cmd.toList then
    let table := trim (cmd.toList.drop btreeWord.length)
    if table = [] then pure ⟨["Usage: .btree <table_name>"], false⟩
    else do
      let dump ← Session.dumpBtree (String.ofList table)
      pure ⟨dumpPrinted dump, false⟩
  else pure ⟨["Unknown meta-command: '" ++ cmd ++ "'"], false⟩

/-- The body of the loop, on a line that was read. -/
def handleLine (line : String) : SessionProgram Effect :=
  let input := String.ofList (trim line.toList)
  if input = "" then pure ⟨[], false⟩
  else if input.toList.head? = some '.' then handleMeta input
  else do
    let statement ← Parser.parse input
    let result ← Executor.execute statement
    pure ⟨printed result, false⟩

/-- The process, with what it has printed. -/
structure Terminal where
  alone : Alone
  printed : List String

/-- `print!`. -/
def print (texts : List String) : Exec Terminal Unit :=
  Exec.modify fun terminal => { terminal with printed := terminal.printed ++ texts }

/-- Run a program on the session. -/
def onSession {α : Type} (program : SessionProgram α) : Exec Terminal α :=
  Exec.zoom Terminal.alone (fun alone terminal => { terminal with alone }) (program.run Alone.reply)

/-- The loop of `run`, over the lines of the input. At its end the session is dropped, unless the
process exits. -/
def run : List String → Exec Terminal Unit
  | [] => do
      print [Console.prompt]
      print ["\nBye!"]
      Exec.zoom Terminal.alone (fun alone terminal => { terminal with alone }) Alone.drop
  | line :: rest => do
      print [Console.prompt]
      let effect ← onSession (handleLine line)
      print effect.printed
      if effect.exits then pure () else run rest

end Repl

/-! ### The client -/

namespace Client

/-- What `print_help` prints. -/
def help : List String :=
  ["Supported SQL:",
    "  CREATE TABLE <name> (<col> INTEGER|TEXT, ...)",
    "  INSERT INTO <name> VALUES (<val>, ...)",
    "  SELECT * FROM <name> [JOIN <name> ON <col> = <col>] [WHERE ...]",
    "  BEGIN / COMMIT / ROLLBACK",
    "Meta-commands:",
    "  .help            — show this message",
    "  .btree <table>   — visualise B+Tree structure (executed on server)",
    "  .exit            — disconnect"]

/-- What the client does with a line. -/
inductive Request where
  | nothing
  | quit
  | help
  | send (sql : String)

/-- The request in a line that was read. -/
def request (line : String) : Request :=
  let input := String.ofList (trim line.toList)
  if input = "" then .nothing
  else if input = ".exit" ∨ input = ".quit" then .quit
  else if input = ".help" then .help
  else .send input

/-- What is printed for a message from the server. -/
def shown : Message → List String
  | .ok text => [text]
  | .error text => ["Error: " ++ text]
  | .rows headers rows => Console.printTable headers rows
  | other => ["Unexpected message from server: " ++ other.debug]

/-- Where the client is. -/
inductive Phase where
  /-- At the prompt, about to read a line. -/
  | prompting
  /-- In `read_message`. -/
  | waiting
  /-- The loop is over. -/
  | left
deriving DecidableEq

end Client

/-- A client: the lines it did not read yet, what it has printed, the bytes that it wrote to its socket,
how many bytes from the server have arrived, and how many of them it has read. -/
structure Client where
  lines : List String
  printed : List String
  phase : Client.Phase
  sent : Bytes
  arrived : Nat
  position : Nat

namespace Client

/-- A client that has connected. -/
def new (lines : List String) : Client := ⟨lines, [], .prompting, [], 0, 0⟩

/-- The client has left its loop. -/
def leaves (texts : List String) (client : Client) : Client :=
  { client with printed := client.printed ++ texts ++ ["\nBye!"], phase := .left }

/-- From the prompt to the next call that waits: read a line, and print or send. -/
def type_ (client : Client) : Option Client :=
  match client.phase with
  | .prompting =>
      match client.lines with
      | [] => some (client.leaves [Console.prompt])
      | line :: rest =>
          let client := { client with lines := rest, printed := client.printed ++ [Console.prompt] }
          match request line with
          | .nothing => some client
          | .quit => some (client.leaves [])
          | .help => some { client with printed := client.printed ++ help }
          | .send sql =>
              some { client with
                sent := (Protocol.writeMessage (.query sql) ⟨client.sent, []⟩).2.bytes
                phase := .waiting }
  | _ => none

/-- Read the answer from the bytes that have arrived, out of those that the server wrote. `lost` tells
that no more will come. Another error than the end of the input also ends the loop. -/
def hear (outgoing : Bytes) (lost : Bool) (client : Client) : Option Client :=
  match client.phase with
  | .waiting =>
      match Protocol.readMessage ((outgoing.take client.arrived).drop client.position) with
      | .ok (message, rest) =>
          some { client with
            printed := client.printed ++ shown message
            position := client.arrived - rest.length
            phase := .prompting }
      | .error error =>
          if error.kind = .unexpectedEof ∧ lost = false then none else some (client.leaves [])
  | _ => none

end Client

end MukhiDb.Model
