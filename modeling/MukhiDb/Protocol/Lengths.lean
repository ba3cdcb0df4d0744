import MukhiDb.Protocol.Stream

/-!
Contract: the lengths and counts that `write_message` sends.

Owns: how many bytes a message needs; where its 4-byte counts stand and what they
count; and exactly when the frame of a message that was written announces its own
length, and its table every count, truly.

Does not own: what a reader makes of a frame out of step.
-/

namespace MukhiDb.Model.Protocol

open MukhiDb.Foundation

/-! ### True sizes -/

/-- How many bytes texts need, each with its length in front. -/
def textsSize (texts : List String) : Nat :=
  (texts.map fun text => 4 + (utf8Bytes text).length).sum

/-- How many bytes of payload a message needs. -/
def payloadSize : Message → Nat
  | .query text => (utf8Bytes text).length
  | .ok text => (utf8Bytes text).length
  | .error text => (utf8Bytes text).length
  | .rows headers rows => 8 + textsSize headers + textsSize rows.flatten

/-- The lengths in front of texts that start at an offset: where each stands, and the true one. -/
def textFields (off : Nat) : List String → List (Nat × Nat)
  | [] => []
  | text :: rest =>
      (off, (utf8Bytes text).length) :: textFields (off + 4 + (utf8Bytes text).length) rest

/-- The counts in the payload of a message: where each stands, and the true one. They are the
column count, the header lengths, the row count and the cell lengths. -/
def countFields : Message → List (Nat × Nat)
  | .rows headers rows =>
      (0, headers.length) :: textFields 4 headers ++
        (4 + textsSize headers, rows.length) :: textFields (8 + textsSize headers) rows.flatten
  | _ => []

theorem encodeTexts_length (texts : List String) :
    (texts.flatMap encodeText).length = textsSize texts := by
  rw [List.length_flatMap]
  exact congrArg List.sum (List.map_congr_left fun text _ => encodeText_length text)

/-- The cells of a table are encoded in one row. -/
theorem encodeRows_flatten (headers : List String) (rows : List (List String)) :
    encodeRows headers rows = leBytes 4 headers.length ++ (headers.flatMap encodeText ++
      (leBytes 4 rows.length ++ rows.flatten.flatMap encodeText)) := by
  have cells : rows.flatten.flatMap encodeText = rows.flatMap fun row => row.flatMap encodeText := by
    rw [← List.flatMap_id, List.flatMap_assoc]
    rfl
  unfold encodeRows
  rw [List.append_assoc, cells]

theorem payload_length (message : Message) : (payload message).length = payloadSize message := by
  cases message with
  | query text => rfl
  | ok text => rfl
  | error text => rfl
  | rows headers rows =>
      simp only [payload, payloadSize, encodeRows_flatten, List.length_append, leBytes_length,
        encodeTexts_length]
      omega

theorem text_le_textsSize {texts : List String} {text : String} (member : text ∈ texts) :
    (utf8Bytes text).length + 4 ≤ textsSize texts := by
  have within := length_le_flatMap encodeText member
  rw [encodeText_length, encodeTexts_length] at within
  omega

/-! ### Fields in a stream -/

section Fields

variable {stream tail : Bytes} {base off : Nat}

/-- The 4-byte count at an offset behind a base. -/
def fieldAt (stream : Bytes) (base off : Nat) : Nat := leValue (slice stream (base + off) 4)

theorem fieldAt_ahead {number : Nat} (ahead : Ahead stream (base + off) (leBytes 4 number ++ tail)) :
    fieldAt stream base off = number % 2 ^ 32 := by
  have bytes := ahead.slice
  rw [leBytes_length] at bytes
  unfold fieldAt
  rw [bytes, leValue_leBytes_four]

/-- Short texts announce their lengths. -/
theorem textFields_ahead {texts : List String}
    (short : ∀ text ∈ texts, (utf8Bytes text).length < 2 ^ 32)
    (ahead : Ahead stream (base + off) (texts.flatMap encodeText ++ tail)) :
    ∀ field ∈ textFields off texts, fieldAt stream base field.1 = field.2 := by
  induction texts generalizing off with
  | nil => exact fun _ member => absurd member List.not_mem_nil
  | cons text rest inductionHypothesis =>
      have next := ahead
      rw [List.flatMap_cons, List.append_assoc] at ahead next
      have skipped := next.skip
      rw [encodeText_length, Nat.add_assoc, ← Nat.add_assoc off] at skipped
      unfold encodeText at ahead
      rw [List.append_assoc] at ahead
      have own := fieldAt_ahead ahead
      rw [Nat.mod_eq_of_lt (short text List.mem_cons_self)] at own
      exact List.forall_mem_cons.mpr ⟨own, inductionHypothesis
        (fun other member => short other (List.mem_cons_of_mem _ member)) skipped⟩

end Fields

/-! ### Frames that were written -/

/-- A message that was written has put its whole frame into the stream. -/
theorem writeMessage_returned {message : Message} {medium after : Medium}
    (written : writeMessage message medium = (.ok (), after)) :
    after.bytes = medium.bytes ++ frame message := by
  obtain ⟨⟨⟩, length, first, written⟩ := Exec.bind_eq_ok.mp written
  obtain ⟨⟨⟩, type, second, written⟩ := Exec.bind_eq_ok.mp written
  obtain ⟨⟨⟩, body, third, written⟩ := Exec.bind_eq_ok.mp written
  rw [Medium.perform_returned written, id, Medium.perform_returned third,
    Medium.perform_returned second, Medium.perform_returned first, List.append_assoc,
    List.append_assoc]
  rfl

/-- The frame that was written from `start` on announces how many bytes follow its length, and
every count in the payload of its message is the true one. -/
def InStep (message : Message) (start : Nat) (stream : Bytes) : Prop :=
  fieldAt stream start 0 = stream.length - (start + 4) ∧
    ∀ field ∈ countFields message, fieldAt stream (start + 5) field.1 = field.2

theorem frame_ahead (message : Message) (front : Bytes) :
    Ahead (front ++ frame message) (front.length + 0)
      (leBytes 4 (payloadSize message + 1) ++ ([msgType message] ++ payload message)) := by
  have start := (Ahead.start (front ++ frame message)).skip
  rw [Nat.zero_add] at start
  rw [← payload_length]
  exact start

theorem frame_length (message : Message) : (frame message).length = payloadSize message + 5 := by
  simp only [frame, List.length_append, leBytes_length, List.length_singleton, payload_length]
  omega

/-- What a frame announces about its length. -/
theorem frame_fieldAt (message : Message) (front : Bytes) :
    fieldAt (front ++ frame message) front.length 0 = (payloadSize message + 1) % 2 ^ 32 :=
  fieldAt_ahead (frame_ahead message front)

/-- The counts of a table whose payload is short are true, if the row count is. -/
theorem rows_countFields {headers : List String} {rows : List (List String)} {stream : Bytes}
    {base : Nat} (short : payloadSize (.rows headers rows) < 2 ^ 32) (counted : rows.length < 2 ^ 32)
    (ahead : Ahead stream (base + 0) (encodeRows headers rows)) :
    ∀ field ∈ countFields (.rows headers rows), fieldAt stream base field.1 = field.2 := by
  have columns : 4 * headers.length ≤ textsSize headers := by
    rw [← encodeTexts_length]
    exact count_le_encoded headers
  change 8 + textsSize headers + textsSize rows.flatten < 2 ^ 32 at short
  rw [encodeRows_flatten] at ahead
  have atHeaders := ahead.skip
  rw [leBytes_length, Nat.add_zero] at atHeaders
  have atCount := atHeaders.skip
  rw [encodeTexts_length, Nat.add_assoc] at atCount
  have atCells := atCount.skip
  have shifted : base + (4 + textsSize headers) + 4 = base + (8 + textsSize headers) := by omega
  rw [leBytes_length, shifted, ← List.append_nil (List.flatMap _ _)] at atCells
  have columnCount := fieldAt_ahead ahead
  rw [Nat.mod_eq_of_lt (by omega)] at columnCount
  have headerLengths := textFields_ahead (fun text member => by
    have := text_le_textsSize member
    omega) atHeaders
  have rowCount := fieldAt_ahead atCount
  rw [Nat.mod_eq_of_lt counted] at rowCount
  have cellLengths := textFields_ahead (fun text member => by
    have := text_le_textsSize member
    omega) atCells
  exact List.forall_mem_append.mpr ⟨List.forall_mem_cons.mpr ⟨columnCount, headerLengths⟩,
    List.forall_mem_cons.mpr ⟨rowCount, cellLengths⟩⟩

/-- The row count that a table announces. -/
theorem rows_fieldAt {headers : List String} {rows : List (List String)} {stream : Bytes} {base : Nat}
    (ahead : Ahead stream (base + 0) (encodeRows headers rows)) :
    fieldAt stream base (4 + textsSize headers) = rows.length % 2 ^ 32 := by
  rw [encodeRows_flatten] at ahead
  have atHeaders := ahead.skip
  rw [leBytes_length, Nat.add_zero] at atHeaders
  have atCount := atHeaders.skip
  rw [encodeTexts_length, Nat.add_assoc] at atCount
  exact fieldAt_ahead atCount

theorem payload_ahead (message : Message) (front : Bytes) :
    Ahead (front ++ frame message) (front.length + 5 + 0) (payload message) := by
  have behind := (frame_ahead message front).skip
  rw [leBytes_length] at behind
  exact behind.skip

theorem mod_eq_iff (number : Nat) : number % 2 ^ 32 = number ↔ number < 2 ^ 32 :=
  Nat.mod_eq_iff_lt (by decide)

/-- The counts of a frame are true if its message fits, and only if its rows do. -/
theorem countFields_frame (message : Message) (front : Bytes) :
    (payloadSize message < 2 ^ 32 → CountFits message → ∀ field ∈ countFields message,
      fieldAt (front ++ frame message) (front.length + 5) field.1 = field.2) ∧
    ((∀ field ∈ countFields message,
      fieldAt (front ++ frame message) (front.length + 5) field.1 = field.2) → CountFits message) := by
  have ahead := payload_ahead message front
  cases message with
  | query text => exact ⟨fun _ _ _ member => absurd member List.not_mem_nil, fun _ => trivial⟩
  | ok text => exact ⟨fun _ _ _ member => absurd member List.not_mem_nil, fun _ => trivial⟩
  | error text => exact ⟨fun _ _ _ member => absurd member List.not_mem_nil, fun _ => trivial⟩
  | rows headers rows =>
      refine ⟨fun short counted => rows_countFields short counted ahead, fun all => ?_⟩
      have rowCount := all (4 + textsSize headers, rows.length)
        (List.mem_append_right _ List.mem_cons_self)
      rw [rows_fieldAt ahead] at rowCount
      exact (mod_eq_iff _).mp rowCount

/-- What was written is in step exactly when the message fits a frame of fewer than `2 ^ 32` bytes
and, for a table, the number of rows fits its 32 bits. -/
theorem writeMessage_inStep_iff {message : Message} {medium after : Medium}
    (written : writeMessage message medium = (.ok (), after)) :
    InStep message medium.bytes.length after.bytes ↔
      payloadSize message + 1 < 2 ^ 32 ∧ CountFits message := by
  have stream := writeMessage_returned written
  have counts := countFields_frame message medium.bytes
  have total : after.bytes.length - (medium.bytes.length + 4) = payloadSize message + 1 := by
    rw [stream, List.length_append, frame_length]
    omega
  unfold InStep
  rw [total, stream, frame_fieldAt, mod_eq_iff]
  constructor
  · rintro ⟨short, all⟩
    exact ⟨short, counts.2 all⟩
  · rintro ⟨short, counted⟩
    exact ⟨short, counts.1 (Nat.lt_of_succ_lt short) counted⟩

/-- A table of two rows is in step behind what the stream held. -/
theorem writeMessage_inStep_iff_table :
    InStep (.rows ["id", "name"] [["1", "ann"], ["2", "bob"]]) 2
      ([1, 2] ++ frame (.rows ["id", "name"] [["1", "ann"], ["2", "bob"]])) :=
  (@writeMessage_inStep_iff _ ⟨[1, 2], []⟩ ⟨_, []⟩ (writeMessage_ok _ _)).mpr
    ⟨by decide, show 2 < 2 ^ 32 by decide⟩

/-! ### A join that is too large -/

/-- A table with one column, and with this many rows of one digit. -/
def ones (count : Nat) : Message := .rows ["id"] (List.replicate count ["1"])

theorem payloadSize_ones (count : Nat) : payloadSize (ones count) = 14 + count * 5 := by
  have cells : (List.replicate count (List.replicate 1 "1")).flatten = List.replicate count "1" := by
    rw [List.flatten_replicate_replicate, Nat.mul_one]
  have one : 4 + (utf8Bytes "1").length = 5 := by decide
  have size : textsSize (List.replicate count "1") = count * 5 := by
    unfold textsSize
    rw [List.map_replicate, one, List.sum_replicate_nat]
  change 8 + textsSize ["id"] + textsSize (List.replicate count (List.replicate 1 "1")).flatten = _
  rw [cells, size]
  rfl

theorem ones_inStep {count : Nat} (inStep : InStep (ones count) 0 ([] ++ frame (ones count))) :
    count * 5 + 15 < 2 ^ 32 := by
  have announced := frame_fieldAt (ones count) []
  have length := inStep.1
  rw [List.nil_append] at length announced
  rw [List.length_nil] at announced
  rw [announced, frame_length, payloadSize_ones] at length
  omega

/-- `2 ^ 30` rows of five bytes each are sent under a length that is too small. -/
theorem ones_outOfStep :
    ¬ ∀ (message : Message) (medium after : Medium), writeMessage message medium = (.ok (), after) →
      InStep message medium.bytes.length after.bytes := fun always =>
  absurd (ones_inStep (always (ones (2 ^ 30)) ⟨[], []⟩ _ (writeMessage_ok _ _))) (by decide)

end MukhiDb.Model.Protocol
