import MukhiDb.Foundation.Medium
import MukhiDb.Foundation.Utf8

/-!
Contract: the wire protocol between client and server (`protocol.rs`).

Owns: the four messages; the frame around a message; the encoding of a result
table, whose row width is the number of headers; and the two readers, which
refuse a short frame, an unknown type and a truncated table.

Does not own: what a message is answered with, the sockets, and the memory that the
announced counts make the reader reserve.
-/

namespace MukhiDb.Model

open MukhiDb.Foundation

/-- A message sent over the wire. -/
inductive Message where
  | query (text : String)
  | ok (text : String)
  | error (text : String)
  | rows (headers : List String) (rows : List (List String))
deriving DecidableEq

namespace Protocol

/-- `MSG_QUERY`. -/
def msgQuery : UInt8 := 0x01

/-- `MSG_OK`. -/
def msgOk : UInt8 := 0x02

/-- `MSG_ERROR`. -/
def msgError : UInt8 := 0x03

/-- `MSG_ROWS`. -/
def msgRows : UInt8 := 0x04

/-! ### Writing -/

/-- A text with its length in front. `as u32` keeps the low 32 bits. -/
def encodeText (text : String) : Bytes :=
  leBytes 4 (utf8Bytes text).length ++ utf8Bytes text

/-- Encode a Rows payload. -/
def encodeRows (headers : List String) (rows : List (List String)) : Bytes :=
  leBytes 4 headers.length ++ headers.flatMap encodeText ++
    (leBytes 4 rows.length ++ rows.flatMap fun row => row.flatMap encodeText)

/-- The type tag of a message. -/
def msgType : Message → UInt8
  | .query _ => msgQuery
  | .ok _ => msgOk
  | .error _ => msgError
  | .rows _ _ => msgRows

/-- The payload of a message. -/
def payload : Message → Bytes
  | .query text => utf8Bytes text
  | .ok text => utf8Bytes text
  | .error text => utf8Bytes text
  | .rows headers rows => encodeRows headers rows

/-- Write one framed message to a stream, which is a file that only grows. -/
def writeMessage (message : Message) : Exec Medium Unit := do
  Medium.append (leBytes 4 ((payload message).length + 1))
  Medium.append [msgType message]
  Medium.append (payload message)
  Medium.touch

/-- Write messages one after the other. -/
def writeAll : List Message → Exec Medium Unit
  | [] => pure ()
  | message :: rest => do
      writeMessage message
      writeAll rest

/-! ### Reading a table -/

/-- A reader of a Rows payload: it moves an offset, and fails with a text. -/
abbrev RowsReader := StateT Nat (Except String)

/-- The closure `read_u32`. -/
def readU32 (buf : Bytes) : RowsReader Nat := fun off =>
  if off + 4 > buf.length then .error "Truncated Rows payload (u32)"
  else .ok (leValue (slice buf off 4), off + 4)

/-- The closure `read_str`. -/
def readStr (buf : Bytes) : RowsReader String := do
  let len ← readU32 buf
  let off ← get
  if off + len > buf.length then throw "Truncated Rows payload (string)"
  else do
    set (off + len)
    pure (fromUtf8Lossy (slice buf off len))

/-- The loop that reads `count` values. -/
def readMany {α : Type} (read : RowsReader α) : (count : Nat) → RowsReader (List α)
  | 0 => pure []
  | count + 1 => do
      let value ← read
      let rest ← readMany read count
      pure (value :: rest)

/-- The body of `decode_rows`. -/
def rowsReader (buf : Bytes) : RowsReader Message := do
  let ncols ← readU32 buf
  let headers ← readMany (readStr buf) ncols
  let nrows ← readU32 buf
  let rows ← readMany (readMany (readStr buf) ncols) nrows
  pure (.rows headers rows)

/-- Decode a Rows payload. What follows the last row is ignored. -/
def decodeRows (buf : Bytes) : Except String Message :=
  (rowsReader buf 0).map Prod.fst

/-! ### Reading a frame -/

/-- The kinds of I/O error that reading a message gives by itself. -/
inductive ErrorKind where
  | unexpectedEof
  | invalidData
deriving DecidableEq, Repr

/-- `std::io::Error`. -/
structure IoError where
  kind : ErrorKind
  message : String
deriving DecidableEq, Repr

/-- A reader of a stream: the state is what has not been read. -/
abbrev StreamReader := StateT Bytes (Except IoError)

/-- Read exactly n bytes from a reader, returning an error on a short read. -/
def readExactBytes (n : Nat) : StreamReader Bytes := fun stream =>
  if n ≤ stream.length then .ok (stream.take n, stream.drop n)
  else .error ⟨.unexpectedEof, "failed to fill whole buffer"⟩

/-- A digit of `{:02X}`. -/
def upperHexDigit (digit : Nat) : Char :=
  if digit < 10 then Char.ofNat (48 + digit) else Char.ofNat (55 + digit)

/-- `{:02X}`. -/
def upperHex (byte : UInt8) : String :=
  String.ofList [upperHexDigit (byte.toNat / 16), upperHexDigit (byte.toNat % 16)]

/-- What a frame of a type and a payload means. -/
def messageOf (type : UInt8) (payload : Bytes) : Except IoError Message :=
  if type = msgQuery then .ok (.query (fromUtf8Lossy payload))
  else if type = msgOk then .ok (.ok (fromUtf8Lossy payload))
  else if type = msgError then .ok (.error (fromUtf8Lossy payload))
  else if type = msgRows then (decodeRows payload).mapError fun text => ⟨.invalidData, text⟩
  else .error ⟨.invalidData, s!"Unknown message type: 0x{upperHex type}"⟩

/-- Read one framed message from a reader. -/
def readMessage : StreamReader Message := do
  let len := leValue (← readExactBytes 4)
  if len < 1 then throw ⟨.invalidData, "Frame length must be at least 1 (type byte)"⟩
  else do
    let type ← readExactBytes 1
    let payload ← readExactBytes (len - 1)
    StateT.lift (messageOf (type.headD 0) payload)

/-- Call `read_message` a number of times. -/
def readAll : (count : Nat) → StreamReader (List Message)
  | 0 => pure []
  | count + 1 => do
      let message ← readMessage
      let rest ← readAll count
      pure (message :: rest)

end Protocol

end MukhiDb.Model
