import MukhiDb.Model.Storage

/-!
Contract: rows that pass the checks of an insert, as bytes.

Owns: the bytes of a row; the fact that serializing a row of the right types fills
its buffer with them, and that deserializing them gives the row back; and what the
checks of an insert promise.

Does not own: rows with values of other types.
-/

namespace MukhiDb.Model

open MukhiDb.Foundation

/-- The value has the type of its column. -/
def Typed : Column × Value → Prop
  | (⟨_, .integer⟩, .integer _) => True
  | (⟨_, .text⟩, .text _) => True
  | _ => False

/-- The bytes of a value. -/
def valueBytes : Value → Bytes
  | .integer n => i64Bytes n
  | .text s => leBytes 4 (utf8Bytes s).length ++ utf8Bytes s
  | .null => []

/-- The bytes of a row. -/
def rowBytes (values : List Value) : Bytes := values.flatMap valueBytes

section Cells

variable {cells : List (Column × Value)} {columns : List Column} {values : List Value}

theorem valueBytes_length {cell : Column × Value} (typed : Typed cell) :
    (valueBytes cell.2).length = serializedValueSize cell.1.dataType cell.2 := by
  obtain ⟨⟨name, dataType⟩, value⟩ := cell
  cases dataType with
  | integer =>
      cases value with
      | integer n => exact i64Bytes_length n
      | text s => exact typed.elim
      | null => exact typed.elim
  | text =>
      cases value with
      | integer n => exact typed.elim
      | text s =>
          change (leBytes 4 (utf8Bytes s).length ++ utf8Bytes s).length = 4 + (utf8Bytes s).length
          rw [List.length_append, leBytes_length]
      | null => exact typed.elim

theorem cellBytes_length (typed : ∀ cell ∈ cells, Typed cell) :
    ((cells.map Prod.snd).flatMap valueBytes).length =
      (cells.map fun cell => serializedValueSize cell.1.dataType cell.2).sum := by
  induction cells with
  | nil => rfl
  | cons cell rest inductionHypothesis =>
      rw [List.map_cons, List.flatMap_cons, List.length_append, List.map_cons, List.sum_cons,
        valueBytes_length (typed cell List.mem_cons_self),
        inductionHypothesis fun other member => typed other (List.mem_cons_of_mem _ member)]

theorem map_snd_zip (arity : values.length = columns.length) :
    (columns.zip values).map Prod.snd = values :=
  List.map_snd_zip (Nat.le_of_eq arity)

theorem rowBytes_length (arity : values.length = columns.length)
    (typed : ∀ cell ∈ columns.zip values, Typed cell) :
    (rowBytes values).length = serializedSize ⟨values⟩ columns := by
  have length := cellBytes_length typed
  rw [map_snd_zip arity] at length
  exact length

/-! ### Serializing -/

theorem copyInto_ok {buf data : Bytes} {offset : Nat} (fits : offset + data.length ≤ buf.length) :
    copyInto buf offset data = .ok (splice buf offset data) :=
  if_pos fits

theorem serializeValue_ok {cell : Column × Value} (typed : Typed cell) {buf : Bytes} {offset : Nat}
    (fits : offset + (valueBytes cell.2).length ≤ buf.length) :
    serializeValue cell.1.dataType cell.2 offset buf =
      .ok (offset + (valueBytes cell.2).length, splice buf offset (valueBytes cell.2)) := by
  obtain ⟨⟨name, dataType⟩, value⟩ := cell
  cases dataType with
  | integer =>
      cases value with
      | integer n =>
          have size : (valueBytes (.integer n)).length = 8 := i64Bytes_length n
          dsimp only at fits ⊢
          unfold serializeValue
          dsimp only
          rw [show i64Bytes n = valueBytes (.integer n) from rfl, copyInto_ok fits, size]
          rfl
      | text s => exact typed.elim
      | null => exact typed.elim
  | text =>
      cases value with
      | integer n => exact typed.elim
      | text s =>
          have length : (leBytes 4 (utf8Bytes s).length).length = 4 := leBytes_length _ _
          have size : (valueBytes (.text s)).length = 4 + (utf8Bytes s).length := by
            unfold valueBytes
            rw [List.length_append, length]
          dsimp only at fits ⊢
          rw [size] at fits ⊢
          have first : copyInto buf offset (leBytes 4 (utf8Bytes s).length) =
              .ok (splice buf offset (leBytes 4 (utf8Bytes s).length)) :=
            copyInto_ok (by omega)
          have second : copyInto (splice buf offset (leBytes 4 (utf8Bytes s).length)) (offset + 4)
              (utf8Bytes s) = .ok (splice buf offset (valueBytes (.text s))) := by
            have joined := @splice_splice buf (leBytes 4 (utf8Bytes s).length) (utf8Bytes s) offset
              (by omega)
            rw [length] at joined
            rw [copyInto_ok (by rw [splice_length (by omega)]; omega), joined]
            rfl
          unfold serializeValue
          dsimp only
          rw [first]
          change (do
            let buf ← copyInto (splice buf offset (leBytes 4 (utf8Bytes s).length)) (offset + 4)
              (utf8Bytes s)
            pure (offset + 4 + (utf8Bytes s).length, buf) : Except Fault (Nat × Bytes)) = _
          rw [second, ← Nat.add_assoc]
          rfl
      | null => exact typed.elim

theorem serializeCells_ok (typed : ∀ cell ∈ cells, Typed cell) {buf : Bytes} {offset : Nat}
    (fits : offset + ((cells.map Prod.snd).flatMap valueBytes).length ≤ buf.length) :
    serializeCells cells offset buf =
      .ok (splice buf offset ((cells.map Prod.snd).flatMap valueBytes)) := by
  induction cells generalizing buf offset with
  | nil =>
      have same : splice buf offset [] = buf := by simp [splice]
      exact congrArg Except.ok same.symm
  | cons cell rest inductionHypothesis =>
      rw [List.map_cons, List.flatMap_cons, List.length_append] at fits
      have head := serializeValue_ok (typed cell List.mem_cons_self)
        (by omega : offset + (valueBytes cell.2).length ≤ buf.length)
      have tail := inductionHypothesis
        (fun other member => typed other (List.mem_cons_of_mem _ member))
        (by rw [splice_length (by omega)]; omega :
          offset + (valueBytes cell.2).length + ((rest.map Prod.snd).flatMap valueBytes).length ≤
            (splice buf offset (valueBytes cell.2)).length)
      unfold serializeCells
      rw [head]
      change serializeCells rest (offset + (valueBytes cell.2).length)
        (splice buf offset (valueBytes cell.2)) = _
      rw [tail, splice_splice (by omega), List.map_cons, List.flatMap_cons]

/-- Serializing a row writes its bytes at the start of the buffer. -/
theorem serialize_into (arity : values.length = columns.length)
    (typed : ∀ cell ∈ columns.zip values, Typed cell) {buf : Bytes}
    (fits : serializedSize ⟨values⟩ columns ≤ buf.length) :
    serialize ⟨values⟩ columns buf =
      .ok (rowBytes values ++ buf.drop (serializedSize ⟨values⟩ columns)) := by
  have length := rowBytes_length arity typed
  have cells := @serializeCells_ok (columns.zip values) typed buf 0 (by
    rw [map_snd_zip arity, Nat.zero_add]
    exact length.trans_le fits)
  rw [map_snd_zip arity] at cells
  unfold serialize
  rw [cells, ← length]
  change Except.ok (buf.take 0 ++ rowBytes values ++ buf.drop (0 + (rowBytes values).length)) = _
  rw [List.take_zero, List.nil_append, Nat.zero_add]

/-- Serializing a row fills its buffer. -/
theorem serialize_ok (arity : values.length = columns.length)
    (typed : ∀ cell ∈ columns.zip values, Typed cell) :
    serialize ⟨values⟩ columns (List.replicate (serializedSize ⟨values⟩ columns) 0) =
      .ok (rowBytes values) := by
  have size : (List.replicate (serializedSize ⟨values⟩ columns) (0 : UInt8)).length =
      serializedSize ⟨values⟩ columns :=
    List.length_replicate
  rw [serialize_into arity typed (Nat.le_of_eq size.symm), List.drop_of_length_le (Nat.le_of_eq size),
    List.append_nil]

/-! ### Deserializing -/

theorem readFrom_ahead {buf front tail : Bytes} {offset width : Nat}
    (ahead : Ahead buf offset (front ++ tail)) (size : width = front.length) :
    readFrom buf offset width = .ok front := by
  subst size
  unfold readFrom
  rw [if_pos ahead.length, ahead.slice]

theorem deserializeValue_ok {cell : Column × Value} (typed : Typed cell)
    (short : (valueBytes cell.2).length < 2 ^ 32) {buf tail : Bytes} {offset : Nat}
    (ahead : Ahead buf offset (valueBytes cell.2 ++ tail)) :
    deserializeValue buf cell.1.dataType offset =
      .ok (cell.2, offset + (valueBytes cell.2).length) := by
  obtain ⟨⟨name, dataType⟩, value⟩ := cell
  cases dataType with
  | integer =>
      cases value with
      | integer n =>
          have size : (valueBytes (.integer n)).length = 8 := i64Bytes_length n
          have read : readFrom buf offset 8 = .ok (i64Bytes n) := readFrom_ahead ahead size.symm
          unfold deserializeValue
          dsimp only
          rw [read, size]
          change Except.ok (Value.integer (i64Value (i64Bytes n)), offset + 8) = _
          rw [i64Value_i64Bytes]
      | text s => exact typed.elim
      | null => exact typed.elim
  | text =>
      cases value with
      | integer n => exact typed.elim
      | text s =>
          have length : (leBytes 4 (utf8Bytes s).length).length = 4 := leBytes_length _ _
          have size : (valueBytes (.text s)).length = 4 + (utf8Bytes s).length := by
            unfold valueBytes
            rw [List.length_append, length]
          dsimp only at short ahead ⊢
          rw [size] at short
          unfold valueBytes at ahead
          rw [List.append_assoc] at ahead
          have count : readFrom buf offset 4 = .ok (leBytes 4 (utf8Bytes s).length) :=
            readFrom_ahead ahead length.symm
          have behind := ahead.skip
          rw [length] at behind
          have text : readFrom buf (offset + 4) (utf8Bytes s).length = .ok (utf8Bytes s) :=
            readFrom_ahead behind rfl
          have value : leValue (leBytes 4 (utf8Bytes s).length) = (utf8Bytes s).length := by
            rw [leValue_leBytes_four, Nat.mod_eq_of_lt (by omega)]
          unfold deserializeValue
          dsimp only
          rw [count]
          change (do
            let bytes ← readFrom buf (offset + 4) (leValue (leBytes 4 (utf8Bytes s).length))
            pure (Value.text (fromUtf8Lossy bytes),
              offset + 4 + leValue (leBytes 4 (utf8Bytes s).length)) :
              Except Fault (Value × Nat)) = _
          rw [value, text, size, ← Nat.add_assoc]
          change Except.ok (Value.text (fromUtf8Lossy (utf8Bytes s)), _) = _
          rw [fromUtf8Lossy_utf8Bytes]
      | null => exact typed.elim

theorem deserializeCells_ok (typed : ∀ cell ∈ cells, Typed cell)
    (short : ((cells.map Prod.snd).flatMap valueBytes).length < 2 ^ 32) {buf tail : Bytes}
    {offset : Nat}
    (ahead : Ahead buf offset ((cells.map Prod.snd).flatMap valueBytes ++ tail)) :
    deserializeCells buf (cells.map Prod.fst) offset = .ok (cells.map Prod.snd) := by
  induction cells generalizing offset with
  | nil => rfl
  | cons cell rest inductionHypothesis =>
      rw [List.map_cons, List.flatMap_cons] at short ahead
      rw [List.length_append] at short
      rw [List.append_assoc] at ahead
      have head := deserializeValue_ok (typed cell List.mem_cons_self) (by omega) ahead
      have others := inductionHypothesis
        (fun other member => typed other (List.mem_cons_of_mem _ member)) (by omega) ahead.skip
      rw [List.map_cons, List.map_cons]
      unfold deserializeCells
      rw [head]
      change (do
        let values ← deserializeCells buf (rest.map Prod.fst) (offset + (valueBytes cell.2).length)
        pure (cell.2 :: values) : Except Fault (List Value)) = _
      rw [others]
      rfl

/-- Where the loop of `deserialize` stands after the last column. -/
def deserializeEnd (buf : Bytes) : List Column → (offset : Nat) → Except Fault Nat
  | [], offset => pure offset
  | column :: rest, offset => do
      let (_, offset) ← deserializeValue buf column.dataType offset
      deserializeEnd buf rest offset

theorem deserializeEnd_ok (typed : ∀ cell ∈ cells, Typed cell)
    (short : ((cells.map Prod.snd).flatMap valueBytes).length < 2 ^ 32) {buf tail : Bytes}
    {offset : Nat}
    (ahead : Ahead buf offset ((cells.map Prod.snd).flatMap valueBytes ++ tail)) :
    deserializeEnd buf (cells.map Prod.fst) offset =
      .ok (offset + ((cells.map Prod.snd).flatMap valueBytes).length) := by
  induction cells generalizing offset with
  | nil => rfl
  | cons cell rest inductionHypothesis =>
      rw [List.map_cons, List.flatMap_cons] at short ahead
      rw [List.length_append] at short
      rw [List.append_assoc] at ahead
      have head := deserializeValue_ok (typed cell List.mem_cons_self) (by omega) ahead
      have others := inductionHypothesis
        (fun other member => typed other (List.mem_cons_of_mem _ member)) (by omega) ahead.skip
      rw [List.map_cons, List.map_cons, List.flatMap_cons, List.length_append, ← Nat.add_assoc]
      unfold deserializeEnd
      rw [head]
      exact others

theorem map_fst_zip (arity : values.length = columns.length) :
    (columns.zip values).map Prod.fst = columns :=
  List.map_fst_zip (Nat.le_of_eq arity.symm)

/-- Deserializing the bytes of a row gives the row back. -/
theorem deserialize_ok (arity : values.length = columns.length)
    (typed : ∀ cell ∈ columns.zip values, Typed cell) (short : (rowBytes values).length < 2 ^ 32) :
    deserialize (rowBytes values) columns = .ok ⟨values⟩ := by
  have ahead : Ahead (rowBytes values) 0 (rowBytes values ++ []) := by
    rw [List.append_nil]
    exact Ahead.start _
  have cells := @deserializeCells_ok (columns.zip values) typed (by
    rw [map_snd_zip arity]
    exact short) (rowBytes values) [] 0 (by
    rw [map_snd_zip arity]
    exact ahead)
  rw [map_fst_zip arity, map_snd_zip arity] at cells
  unfold deserialize
  rw [cells]
  rfl

/-! ### The checks of an insert -/

theorem checkTypes_ok {position : Nat} (passed : TableIo.checkTypes cells position = .ok ()) :
    ∀ cell ∈ cells, Typed cell := by
  induction cells generalizing position with
  | nil => exact fun _ member => by cases member
  | cons cell rest inductionHypothesis =>
      obtain ⟨⟨name, dataType⟩, value⟩ := cell
      cases dataType with
      | integer =>
          cases value with
          | integer n =>
              intro other member
              rcases List.mem_cons.mp member with rfl | inside
              · trivial
              · exact inductionHypothesis passed other inside
          | text s => cases passed
          | null => cases passed
      | text =>
          cases value with
          | integer n => cases passed
          | text s =>
              intro other member
              rcases List.mem_cons.mp member with rfl | inside
              · trivial
              · exact inductionHypothesis passed other inside
          | null => cases passed

/-- A row that passed the checks of an insert. -/
structure Accepted (columns : List Column) (values : List Value) : Prop where
  arity : values.length = columns.length
  typed : ∀ cell ∈ columns.zip values, Typed cell
  short : (rowBytes values).length ≤ BTree.maxRowDataSize

/-- What the checks of an insert promise. -/
theorem encodeRow_ok {key : Int64} {buf : Bytes}
    (passed : TableIo.encodeRow columns values = .ok (key, buf)) :
    Accepted columns values ∧ buf = rowBytes values ∧
      key = TableIo.extractKey (columns.zip values) := by
  unfold TableIo.encodeRow at passed
  by_cases arity : values.length = columns.length
  · rw [if_neg (not_not.mpr arity)] at passed
    rcases types : TableIo.checkTypes (columns.zip values) 0 with fault | ⟨⟩
    · rw [types] at passed
      cases passed
    · have typed := checkTypes_ok types
      rw [types] at passed
      have size := rowBytes_length arity typed
      change (if BTree.maxRowDataSize < serializedSize ⟨values⟩ columns then _ else _) = _ at passed
      by_cases large : BTree.maxRowDataSize < serializedSize ⟨values⟩ columns
      · rw [if_pos large] at passed
        cases passed
      · rw [if_neg large, serialize_ok arity typed] at passed
        obtain ⟨rfl, rfl⟩ := Prod.mk.inj (Except.ok.inj passed)
        exact ⟨⟨arity, typed, by omega⟩, rfl, rfl⟩
  · rw [if_pos arity] at passed
    cases passed

/-- A row that passes the checks of an insert takes the bytes that were counted for it: they
are written at the start of the buffer, and reading them gives the values back and ends
where the bytes end. -/
theorem row_round_trip (columns : List Column) (values : List Value)
    (arity : values.length = columns.length)
    (types : TableIo.checkTypes (columns.zip values) 0 = .ok ())
    (small : serializedSize ⟨values⟩ columns ≤ BTree.maxRowDataSize) :
    ∃ bytes : Bytes, bytes.length = serializedSize ⟨values⟩ columns ∧
      TableIo.encodeRow columns values =
        .ok (TableIo.extractKey (columns.zip values), bytes) ∧
      (∀ buf : Bytes, serializedSize ⟨values⟩ columns ≤ buf.length →
        serialize ⟨values⟩ columns buf =
          .ok (bytes ++ buf.drop (serializedSize ⟨values⟩ columns))) ∧
      deserialize bytes columns = .ok ⟨values⟩ ∧
      deserializeEnd bytes columns 0 = .ok bytes.length := by
  have most : BTree.maxRowDataSize = 2030 := by decide
  have typed := checkTypes_ok types
  have length := rowBytes_length arity typed
  have short : (rowBytes values).length < 2 ^ 32 := by omega
  refine ⟨rowBytes values, length, ?_, fun buf fits => serialize_into arity typed fits,
    deserialize_ok arity typed short, ?_⟩
  · unfold TableIo.encodeRow
    rw [if_neg (not_not.mpr arity), types]
    change (if BTree.maxRowDataSize < serializedSize ⟨values⟩ columns then _ else _) = _
    rw [if_neg (Nat.not_lt.mpr small), serialize_ok arity typed]
    rfl
  · have ahead : Ahead (rowBytes values) 0 (rowBytes values ++ []) := by
      rw [List.append_nil]
      exact Ahead.start _
    have ending := @deserializeEnd_ok (columns.zip values) typed (by
      rw [map_snd_zip arity]
      exact short) (rowBytes values) [] 0 (by
      rw [map_snd_zip arity]
      exact ahead)
    rw [map_fst_zip arity, map_snd_zip arity, Nat.zero_add] at ending
    exact ending

theorem row_round_trip_mixed :
    ∃ bytes : Bytes, bytes.length = 14 ∧
      deserialize bytes [⟨"id", .integer⟩, ⟨"name", .text⟩] =
        .ok ⟨[.integer 42, .text "Bo"]⟩ := by
  obtain ⟨bytes, length, -, -, read, -⟩ :=
    row_round_trip [⟨"id", .integer⟩, ⟨"name", .text⟩] [.integer 42, .text "Bo"] rfl rfl (by decide)
  exact ⟨bytes, length, read⟩

/-- Rows that passed the checks are read back. -/
theorem decodeRows_ok {rows : List Row} (accepted : ∀ row ∈ rows, Accepted columns row.values) :
    TableIo.decodeRows columns (rows.map fun row => rowBytes row.values) = .ok rows := by
  have most : BTree.maxRowDataSize = 2030 := by decide
  induction rows with
  | nil => rfl
  | cons row rest inductionHypothesis =>
      have own := accepted row List.mem_cons_self
      have short := own.short
      have head := deserialize_ok own.arity own.typed (by omega)
      have others := inductionHypothesis fun other member =>
        accepted other (List.mem_cons_of_mem _ member)
      rw [List.map_cons]
      unfold TableIo.decodeRows
      rw [head, others]
      rfl

end Cells

end MukhiDb.Model
