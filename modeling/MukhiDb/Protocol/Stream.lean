import MukhiDb.Model.Protocol

/-!
Contract: what is read back from a stream of framed messages.

Owns: reading at an offset behind which a known encoding lies; what decoding an
encoded table yields, whose row count is kept in 32 bits only; and exactly when
a stream of messages is read back as it was written.

Does not own: frames that no writer made.
-/

namespace MukhiDb.Model.Protocol

open MukhiDb.Foundation

/-- A bind whose first reader succeeds continues behind what it read. -/
theorem reader_bind {σ ε α β : Type} {first : StateT σ (Except ε) α}
    {next : α → StateT σ (Except ε) β} {before after : σ} {value : α}
    (ran : first before = .ok (value, after)) : (first >>= next) before = next value after := by
  change (first before >>= fun pair => next pair.1 pair.2) = _
  rw [ran]
  rfl

/-! ### Reading at an offset -/

section Ahead

variable {buf front tail : Bytes} {off : Nat}

theorem readU32_ahead {number : Nat} (ahead : Ahead buf off (leBytes 4 number ++ tail)) :
    readU32 buf off = .ok (number % 2 ^ 32, off + 4) := by
  have fits := ahead.length
  have bytes := ahead.slice
  rw [leBytes_length] at fits bytes
  unfold readU32
  rw [if_neg (by omega), bytes, leValue_leBytes_four]

theorem encodeText_length (text : String) :
    (encodeText text).length = 4 + (utf8Bytes text).length := by
  simp [encodeText]

theorem readStr_ahead {text : String} (short : (utf8Bytes text).length < 2 ^ 32)
    (ahead : Ahead buf off (encodeText text ++ tail)) :
    readStr buf off = .ok (text, off + (encodeText text).length) := by
  unfold encodeText at ahead
  rw [List.append_assoc] at ahead
  have count := readU32_ahead ahead
  have behind := ahead.skip
  rw [leBytes_length] at behind
  rw [Nat.mod_eq_of_lt short] at count
  have fits := behind.length
  have value : fromUtf8Lossy (Foundation.slice buf (off + 4) (utf8Bytes text).length) = text := by
    rw [behind.slice, fromUtf8Lossy_utf8Bytes]
  unfold readStr
  rw [reader_bind count, reader_bind rfl,
    if_neg (by omega), encodeText_length, ← Nat.add_assoc]
  exact congrArg (fun text => Except.ok (text, off + 4 + (utf8Bytes _).length)) value

/-- Reading as many values as were encoded. -/
theorem readMany_ahead {α : Type} {read : RowsReader α} {encode : α → Bytes} {values : List α}
    (each : ∀ value ∈ values, ∀ off tail, Ahead buf off (encode value ++ tail) →
      read off = .ok (value, off + (encode value).length))
    (ahead : Ahead buf off (values.flatMap encode ++ tail)) :
    readMany read values.length off = .ok (values, off + (values.flatMap encode).length) := by
  induction values generalizing off with
  | nil => rfl
  | cons value rest inductionHypothesis =>
      rw [List.flatMap_cons, List.append_assoc] at ahead
      have first := each value List.mem_cons_self off _ ahead
      have others := inductionHypothesis
        (fun other member => each other (List.mem_cons_of_mem _ member)) ahead.skip
      rw [List.length_cons, List.flatMap_cons, List.length_append, ← Nat.add_assoc, readMany,
        reader_bind first, reader_bind others]
      rfl

end Ahead

/-! ### Tables -/

/-- Every row has as many cells as there are headers. -/
def Uniform (headers : List String) (rows : List (List String)) : Prop :=
  ∀ row ∈ rows, row.length = headers.length

theorem length_le_flatMap {α : Type} (encode : α → Bytes) {values : List α} {value : α}
    (member : value ∈ values) : (encode value).length ≤ (values.flatMap encode).length := by
  obtain ⟨front, back, rfl⟩ := List.append_of_mem member
  simp only [List.flatMap_append, List.flatMap_cons, List.length_append]
  omega

theorem count_le_encoded (texts : List String) :
    4 * texts.length ≤ (texts.flatMap encodeText).length := by
  induction texts with
  | nil => exact Nat.le_refl _
  | cons text rest inductionHypothesis =>
      rw [List.flatMap_cons, List.length_append, List.length_cons, encodeText_length]
      omega

section Tables

variable {headers : List String} {rows : List (List String)}
  (small : (encodeRows headers rows).length < 2 ^ 32 - 1) (uniform : Uniform headers rows)

include small

theorem encodeRows_parts :
    4 + (headers.flatMap encodeText).length + 4 +
      (rows.flatMap fun row => row.flatMap encodeText).length < 2 ^ 32 - 1 := by
  have length := small
  unfold encodeRows at length
  simp only [List.length_append, leBytes_length] at length
  omega

theorem header_short {text : String} (member : text ∈ headers) :
    (utf8Bytes text).length < 2 ^ 32 := by
  have parts := encodeRows_parts small
  have within := length_le_flatMap encodeText member
  rw [encodeText_length] at within
  omega

theorem cell_short {row : List String} (member : row ∈ rows) {text : String} (cell : text ∈ row) :
    (utf8Bytes text).length < 2 ^ 32 := by
  have parts := encodeRows_parts small
  have within := length_le_flatMap (fun row => row.flatMap encodeText) member
  have inside := length_le_flatMap encodeText cell
  rw [encodeText_length] at inside
  omega

include uniform

/-- Decoding an encoded table yields its headers, and as many of its rows as the
low 32 bits of their number say. -/
theorem decodeRows_encodeRows :
    decodeRows (encodeRows headers rows) = .ok (.rows headers (rows.take (rows.length % 2 ^ 32))) := by
  have parts := encodeRows_parts small
  have counted := count_le_encoded headers
  have kept : (rows.take (rows.length % 2 ^ 32)).length = rows.length % 2 ^ 32 := by
    rw [List.length_take]
    omega
  have split : rows.flatMap (fun row => row.flatMap encodeText) =
      (rows.take (rows.length % 2 ^ 32)).flatMap (fun row => row.flatMap encodeText) ++
        (rows.drop (rows.length % 2 ^ 32)).flatMap fun row => row.flatMap encodeText := by
    rw [← List.flatMap_append, List.take_append_drop]
  obtain ⟨buf, shape⟩ : ∃ buf, buf = encodeRows headers rows := ⟨_, rfl⟩
  have start : Ahead buf 0 (encodeRows headers rows) := ⟨Nat.zero_le _, shape⟩
  unfold encodeRows at start
  rw [List.append_assoc] at start
  have columns := readU32_ahead start
  rw [Nat.mod_eq_of_lt (by omega)] at columns
  have atHeaders := start.skip
  rw [leBytes_length] at atHeaders
  have names := readMany_ahead (fun text member off tail ahead =>
    readStr_ahead (header_short small member) ahead) atHeaders
  have atCount := atHeaders.skip
  have count := readU32_ahead atCount
  have atRows := atCount.skip
  rw [leBytes_length, split] at atRows
  have row (row : List String) (member : row ∈ rows.take (rows.length % 2 ^ 32)) (off : Nat)
      (tail : Bytes) (ahead : Ahead buf off (row.flatMap encodeText ++ tail)) :
      readMany (readStr buf) headers.length off =
        .ok (row, off + (row.flatMap encodeText).length) := by
    have inside := List.mem_of_mem_take member
    rw [← uniform row inside]
    exact readMany_ahead (fun text cell off tail ahead =>
      readStr_ahead (cell_short small inside cell) ahead) ahead
  have cells := readMany_ahead row atRows
  rw [kept] at cells
  rw [← shape]
  unfold decodeRows rowsReader
  rw [reader_bind columns, reader_bind names, reader_bind count, reader_bind cells]
  rfl

end Tables

/-! ### Frames -/

/-- The frame of a message. -/
def frame (message : Message) : Bytes :=
  leBytes 4 ((payload message).length + 1) ++ ([msgType message] ++ payload message)

/-- What is read back from the frame of a message: a table keeps as many rows as
the low 32 bits of their number say. -/
def received : Message → Message
  | .rows headers rows => .rows headers (rows.take (rows.length % 2 ^ 32))
  | message => message

/-- A message of the kind the executor produces, whose payload is shorter than `2 ^ 32 - 1`. -/
def Sendable (message : Message) : Prop :=
  (payload message).length < 2 ^ 32 - 1 ∧
    ∀ headers rows, message = .rows headers rows → Uniform headers rows

theorem readExactBytes_append (front rest : Bytes) :
    readExactBytes front.length (front ++ rest) = .ok (front, rest) := by
  unfold readExactBytes
  rw [if_pos (by simp), List.take_left, List.drop_left]

theorem messageOf_payload {message : Message} (sendable : Sendable message) :
    messageOf (msgType message) (payload message) = .ok (received message) := by
  cases message with
  | query text => simp [messageOf, msgType, payload, received]
  | ok text => simp [messageOf, msgType, payload, received, msgOk, msgQuery]
  | error text => simp [messageOf, msgType, payload, received, msgOk, msgQuery, msgError]
  | rows headers rows =>
      have decoded := decodeRows_encodeRows sendable.1 (sendable.2 headers rows rfl)
      simp only [messageOf, msgType, payload, received, msgOk, msgQuery, msgError, msgRows, decoded]
      rfl

/-- Reading the frame of a message. -/
theorem readMessage_frame {message : Message} (sendable : Sendable message) (rest : Bytes) :
    readMessage (frame message ++ rest) = .ok (received message, rest) := by
  have short := sendable.1
  have length : leValue (leBytes 4 ((payload message).length + 1)) =
      (payload message).length + 1 := leValue_leBytes_of_lt (by omega)
  have head := readExactBytes_append (leBytes 4 ((payload message).length + 1))
    ([msgType message] ++ payload message ++ rest)
  have type := readExactBytes_append [msgType message] (payload message ++ rest)
  have body := readExactBytes_append (payload message) rest
  rw [leBytes_length] at head
  unfold readMessage frame
  rw [List.append_assoc, reader_bind head, length, if_neg (by omega), Nat.add_sub_cancel,
    List.append_assoc]
  rw [List.length_singleton] at type
  rw [reader_bind type, reader_bind body, List.headD_cons, messageOf_payload sendable]
  rfl

/-- Reading as many messages as were framed. -/
theorem readAll_frames {messages : List Message}
    (sendable : ∀ message ∈ messages, Sendable message) (rest : Bytes) :
    readAll messages.length (messages.flatMap frame ++ rest) =
      .ok (messages.map received, rest) := by
  induction messages with
  | nil => rfl
  | cons message others inductionHypothesis =>
      have first := readMessage_frame (sendable message List.mem_cons_self)
        (others.flatMap frame ++ rest)
      have later := inductionHypothesis fun other member =>
        sendable other (List.mem_cons_of_mem _ member)
      rw [List.flatMap_cons, List.append_assoc, List.length_cons, readAll, reader_bind first,
        reader_bind later]
      rfl

theorem writeMessage_ok (message : Message) (stream : Bytes) :
    writeMessage message ⟨stream, []⟩ = (.ok (), ⟨stream ++ frame message, []⟩) := by
  have appended (stream data : Bytes) :
      Medium.append data ⟨stream, []⟩ = (.ok (), ⟨stream ++ data, []⟩) := rfl
  unfold writeMessage frame
  rw [Exec.bind_ok (appended _ _), Exec.bind_ok (appended _ _), Exec.bind_ok (appended _ _),
    List.append_assoc, List.append_assoc]
  rfl

/-- Writing messages appends their frames. -/
theorem writeAll_ok (messages : List Message) (stream : Bytes) :
    writeAll messages ⟨stream, []⟩ = (.ok (), ⟨stream ++ messages.flatMap frame, []⟩) := by
  induction messages generalizing stream with
  | nil => simp [writeAll]
  | cons message others inductionHypothesis =>
      rw [writeAll, Exec.bind_ok (writeMessage_ok message stream), inductionHypothesis,
        List.flatMap_cons, List.append_assoc]

/-! ### Streams -/

/-- Writing the messages into an empty stream succeeds, and reading once for each
of them returns the messages and leaves nothing of the stream. -/
def RoundTrips (messages : List Message) : Prop :=
  ∃ stream, writeAll messages ⟨[], []⟩ = (.ok (), ⟨stream, []⟩) ∧
    readAll messages.length stream = .ok (messages, [])

/-- The row count of a table fits the 32 bits it is sent in. -/
def CountFits : Message → Prop
  | .rows _ rows => rows.length < 2 ^ 32
  | _ => True

theorem received_eq_iff (message : Message) : received message = message ↔ CountFits message := by
  cases message with
  | query text => simp [received, CountFits]
  | ok text => simp [received, CountFits]
  | error text => simp [received, CountFits]
  | rows headers rows =>
      simp only [received, CountFits, Message.rows.injEq, true_and]
      constructor
      · intro kept
        have lengths := congrArg List.length kept
        rw [List.length_take] at lengths
        have below := Nat.mod_lt rows.length (show 0 < 2 ^ 32 by decide)
        omega
      · intro fits
        rw [Nat.mod_eq_of_lt fits, List.take_length]

/-- What is read from the stream are the received messages. -/
theorem roundTrips_iff_received {messages : List Message}
    (sendable : ∀ message ∈ messages, Sendable message) :
    RoundTrips messages ↔ messages.map received = messages := by
  have written := writeAll_ok messages []
  have read := readAll_frames sendable []
  rw [List.append_nil] at read
  unfold RoundTrips
  rw [written, List.nil_append]
  simp [read]

/-- A stream of messages is read back as it was written exactly when every table in
it has fewer than 2^32 rows. -/
theorem roundTrips_iff {messages : List Message}
    (sendable : ∀ message ∈ messages, Sendable message) :
    RoundTrips messages ↔ ∀ message ∈ messages, CountFits message := by
  have pointwise : messages.map received = messages.map id ↔
      ∀ message ∈ messages, received message = message := List.map_inj_left
  rw [List.map_id] at pointwise
  rw [roundTrips_iff_received sendable, pointwise]
  exact forall₂_congr fun message _ => received_eq_iff message

/-- A query and its answer are read back. -/
theorem roundTrips_iff_answer :
    RoundTrips [.query "SELECT * FROM users", .rows ["id", "name"] [["1", "Zoë"], ["2", "Bo"]]] :=
  (roundTrips_iff (by
    intro message member
    simp only [List.mem_cons, List.not_mem_nil, or_false] at member
    rcases member with rfl | rfl
    · exact ⟨by decide +kernel, fun _ _ impossible => by simp at impossible⟩
    · refine ⟨by decide +kernel, fun headers rows same => ?_⟩
      simp only [Message.rows.injEq] at same
      rw [← same.1, ← same.2]
      simp [Uniform])).mpr (by simp [CountFits])

/-- A table without columns, and with this many rows. -/
def emptyRows (count : Nat) : Message := .rows [] (List.replicate count [])

theorem emptyRows_sendable (count : Nat) : Sendable (emptyRows count) := by
  constructor
  · have cells : ((List.replicate count ([] : List String)).flatMap fun row =>
        row.flatMap encodeText) = [] := by
      rw [List.flatMap_eq_nil_iff]
      intro row member
      rw [List.eq_of_mem_replicate member]
      rfl
    have length : (payload (emptyRows count)).length = 8 := by
      simp only [emptyRows, payload, encodeRows, cells]
      simp
    rw [length]
    decide
  · intro headers rows same row member
    simp only [emptyRows, Message.rows.injEq] at same
    rw [← same.2] at member
    rw [List.eq_of_mem_replicate member, ← same.1]

theorem emptyRows_readBack {count : Nat} (kept : RoundTrips [emptyRows count]) :
    count < 2 ^ 32 := by
  have sendable : ∀ message ∈ [emptyRows count], Sendable message := by
    intro message member
    rw [List.mem_singleton.mp member]
    exact emptyRows_sendable count
  have same := (roundTrips_iff_received sendable).mp kept
  have fits := (received_eq_iff (emptyRows count)).mp (List.head_eq_of_cons_eq same)
  unfold emptyRows CountFits at fits
  simpa using fits

/-- With 2^32 rows all of them are lost on the way. -/
theorem emptyRows_lost :
    ¬ ∀ messages : List Message, (∀ message ∈ messages, Sendable message) → RoundTrips messages := by
  intro always
  have sendable : ∀ message ∈ [emptyRows (2 ^ 32)], Sendable message := by
    intro message member
    rw [List.mem_singleton.mp member]
    exact emptyRows_sendable _
  exact Nat.lt_irrefl _ (emptyRows_readBack (always _ sendable))

end MukhiDb.Model.Protocol
