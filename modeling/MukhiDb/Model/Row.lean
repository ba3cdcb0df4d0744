import MukhiDb.Foundation.Utf8
import MukhiDb.Model.Page

/-!
Contract: values, schemas and rows as bytes (`types.rs`, `row.rs`).

Owns: the two data types and the values of a cell; the size of a row under a
schema; writing a row into a buffer and reading one back, both bounds-checked as
slice indexing is; and how a value is shown in an error text.

Does not own: where rows are stored, conditions on them, and how an error text
escapes characters outside of ASCII.
-/

namespace MukhiDb.Model

open MukhiDb.Foundation

/-- The data types a column can hold. -/
inductive DataType where
  | integer
  | text
deriving DecidableEq, Repr

/-- A single value stored in a cell. -/
inductive Value where
  | integer (n : Int64)
  | text (s : String)
  | null
deriving DecidableEq

/-- A column definition (name + type). -/
structure Column where
  name : String
  dataType : DataType
deriving DecidableEq

/-- A single row of values. -/
structure Row where
  values : List Value
deriving DecidableEq

/-! ### Texts -/

/-- `{:?}` of a data type. -/
def DataType.debug : DataType → String
  | .integer => "Integer"
  | .text => "Text"

/-- A hexadecimal digit of `{:?}`. -/
def lowerHexDigit (digit : Nat) : Char :=
  if digit < 10 then Char.ofNat (48 + digit) else Char.ofNat (87 + digit)

/-- How `{:?}` of a text shows one character. Control characters outside of ASCII and
characters without a glyph are shown as they are. -/
def debugChar (c : Char) : List Char :=
  if c = '\\' then ['\\', '\\']
  else if c = '"' then ['\\', '"']
  else if c = '\n' then ['\\', 'n']
  else if c = '\r' then ['\\', 'r']
  else if c = '\t' then ['\\', 't']
  else if c.toNat = 0 then ['\\', '0']
  else if c.toNat < 16 then ['\\', 'u', '\x7b', lowerHexDigit c.toNat, '\x7d']
  else if c.toNat < 32 ∨ c.toNat = 127 then
    ['\\', 'u', '\x7b', lowerHexDigit (c.toNat / 16), lowerHexDigit (c.toNat % 16), '\x7d']
  else [c]

/-- `{:?}` of a value. -/
def Value.debug : Value → String
  | .integer n => s!"Integer({n})"
  | .text s => String.ofList ("Text(\"".toList ++ s.toList.flatMap debugChar ++ "\")".toList)
  | .null => "Null"

/-! ### Serialized rows -/

/-- The bytes that a value takes in a row. -/
def serializedValueSize : DataType → Value → Nat
  | .integer, _ => 8
  | .text, .text s => 4 + (utf8Bytes s).length
  | .text, _ => 4

/-- `serialized_size`. -/
def serializedSize (row : Row) (columns : List Column) : Nat :=
  ((columns.zip row.values).map fun cell => serializedValueSize cell.1.dataType cell.2).sum

/-- `buf[offset..offset + data.len()].copy_from_slice(data)`. -/
def copyInto (buf : Bytes) (offset : Nat) (data : Bytes) : Except Fault Bytes :=
  if offset + data.length ≤ buf.length then .ok (splice buf offset data) else .error .panic

/-- One round of the loop of `serialize`: the offset and the buffer after a value. -/
def serializeValue (dataType : DataType) (value : Value) (offset : Nat) (buf : Bytes) :
    Except Fault (Nat × Bytes) :=
  match dataType, value with
  | .integer, .integer n => do
      let buf ← copyInto buf offset (i64Bytes n)
      pure (offset + 8, buf)
  | .text, .text s => do
      let bytes := utf8Bytes s
      let buf ← copyInto buf offset (leBytes 4 bytes.length)
      let buf ← copyInto buf (offset + 4) bytes
      pure (offset + 4 + bytes.length, buf)
  | .integer, _ => do
      let buf ← copyInto buf offset (List.replicate 8 0)
      pure (offset + 8, buf)
  | .text, _ => do
      let buf ← copyInto buf offset (List.replicate 4 0)
      pure (offset + 4, buf)

/-- The loop of `serialize`. -/
def serializeCells : List (Column × Value) → (offset : Nat) → Bytes → Except Fault Bytes
  | [], _, buf => pure buf
  | (column, value) :: rest, offset, buf => do
      let (offset, buf) ← serializeValue column.dataType value offset buf
      serializeCells rest offset buf

/-- `serialize`. -/
def serialize (row : Row) (columns : List Column) (buf : Bytes) : Except Fault Bytes :=
  serializeCells (columns.zip row.values) 0 buf

/-- `&buf[offset..offset + width]`. -/
def readFrom (buf : Bytes) (offset width : Nat) : Except Fault Bytes :=
  if offset + width ≤ buf.length then .ok (slice buf offset width) else .error .panic

/-- One round of the loop of `deserialize`: the value at an offset and the offset after it. -/
def deserializeValue (buf : Bytes) (dataType : DataType) (offset : Nat) :
    Except Fault (Value × Nat) :=
  match dataType with
  | .integer => do
      let bytes ← readFrom buf offset 8
      pure (.integer (i64Value bytes), offset + 8)
  | .text => do
      let len := leValue (← readFrom buf offset 4)
      let bytes ← readFrom buf (offset + 4) len
      pure (.text (fromUtf8Lossy bytes), offset + 4 + len)

/-- The loop of `deserialize`. -/
def deserializeCells (buf : Bytes) : List Column → (offset : Nat) → Except Fault (List Value)
  | [], _ => pure []
  | column :: rest, offset => do
      let (value, offset) ← deserializeValue buf column.dataType offset
      let values ← deserializeCells buf rest offset
      pure (value :: values)

/-- `deserialize`. -/
def deserialize (buf : Bytes) (columns : List Column) : Except Fault Row := do
  let values ← deserializeCells buf columns 0
  pure ⟨values⟩

end MukhiDb.Model
