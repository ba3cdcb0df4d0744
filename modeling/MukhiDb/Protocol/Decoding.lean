import MukhiDb.Protocol.Stream

/-!
Contract: what `decode_rows` makes of a payload, whoever wrote it.

Owns: the readers with their slicing checked, which record the bytes of every
string field; that they take no range outside the payload; that a table read from
well-formed texts has full rows and that the payload starts with its encoding;
and how many headers, rows and cells the bytes of a payload account for.

Does not own: frames, and memory reserved before a value is read.
-/

namespace MukhiDb.Model.Protocol

open MukhiDb.Foundation

/-! ### Checked readers -/

/-- Where a checked reader stands: its offset, and the string fields behind it. -/
structure Reading where
  off : Nat
  fields : List Bytes
deriving DecidableEq, Repr

/-- `buf[off..off + count]`, which panics when the range leaves the payload. -/
def index (buf : Bytes) (off count : Nat) : Exec Reading Bytes :=
  if off + count ≤ buf.length then pure (slice buf off count) else Exec.throw .panic

/-- The closure `read_u32` with its slicing checked. -/
def checkedU32 (buf : Bytes) : Exec Reading Nat := do
  let reading ← Exec.get
  if reading.off + 4 > buf.length then Exec.throw (.error "Truncated Rows payload (u32)")
  else do
    let bytes ← index buf reading.off 4
    Exec.modify fun reading => { reading with off := reading.off + 4 }
    pure (leValue bytes)

/-- The closure `read_str` with its slicing checked. -/
def checkedStr (buf : Bytes) : Exec Reading String := do
  let len ← checkedU32 buf
  let reading ← Exec.get
  if reading.off + len > buf.length then Exec.throw (.error "Truncated Rows payload (string)")
  else do
    let field ← index buf reading.off len
    Exec.modify fun reading => ⟨reading.off + len, reading.fields ++ [field]⟩
    pure (fromUtf8Lossy field)

/-- The loop that reads `count` values. -/
def checkedMany {α : Type} (read : Exec Reading α) : (count : Nat) → Exec Reading (List α)
  | 0 => pure []
  | count + 1 => do
      let value ← read
      let rest ← checkedMany read count
      pure (value :: rest)

/-- The body of `decode_rows` with its slicing checked. -/
def checkedRows (buf : Bytes) : Exec Reading Message := do
  let ncols ← checkedU32 buf
  let headers ← checkedMany (checkedStr buf) ncols
  let nrows ← checkedU32 buf
  let rows ← checkedMany (checkedMany (checkedStr buf) ncols) nrows
  pure (.rows headers rows)

/-- `decode_rows` from the start of its payload, with its slicing checked. -/
def checkedDecode (buf : Bytes) : Except Fault Message × Reading := checkedRows buf ⟨0, []⟩

/-! ### The checks never fail -/

/-- A checked reader returns what the reader returns, and stops with the same
errors: none of its checks fails. -/
structure Follows {α : Type} (checked : Exec Reading α) (reader : RowsReader α) : Prop where
  failed : ∀ {reading : Reading} {text : String}, reader reading.off = .error text →
    (checked reading).1 = .error (.error text)
  returned : ∀ {reading : Reading} {value : α} {off : Nat},
    reader reading.off = .ok (value, off) → ∃ fields, checked reading = (.ok value, ⟨off, fields⟩)

/-- A bind that returned has run its first reader and then the next one. -/
theorem reader_bind_eq_ok {σ ε α β : Type} {first : StateT σ (Except ε) α}
    {next : α → StateT σ (Except ε) β} {before after : σ} {value : β}
    (ran : (first >>= next) before = .ok (value, after)) :
    ∃ middle between, first before = .ok (middle, between) ∧
      next middle between = .ok (value, after) := by
  rcases head : first before with text | ⟨middle, between⟩
  · change (first before >>= fun pair => next pair.1 pair.2) = _ at ran
    rw [head] at ran
    cases ran
  · rw [reader_bind head] at ran
    exact ⟨middle, between, rfl, ran⟩

theorem reader_bind_error {σ ε α β : Type} {first : StateT σ (Except ε) α}
    {next : α → StateT σ (Except ε) β} {before : σ} {text : ε}
    (ran : first before = .error text) : (first >>= next) before = .error text := by
  change (first before >>= fun pair => next pair.1 pair.2) = _
  rw [ran]
  rfl

theorem Follows.pure {α : Type} (value : α) : Follows (pure value) (pure value) where
  failed same := nomatch same
  returned same := by
    cases same
    exact ⟨_, rfl⟩

theorem Follows.bind {α β : Type} {checked : Exec Reading α} {reader : RowsReader α}
    {checkedNext : α → Exec Reading β} {next : α → RowsReader β} (head : Follows checked reader)
    (tail : ∀ value, Follows (checkedNext value) (next value)) :
    Follows (checked >>= checkedNext) (reader >>= next) where
  failed {reading text} same := by
    rcases first : reader reading.off with other | ⟨value, off⟩
    · rw [reader_bind_error first] at same
      rw [Exec.run_bind]
      have stopped := head.failed first
      rcases ran : checked reading with ⟨outcome, after⟩
      rw [ran] at stopped
      dsimp only at stopped
      rw [stopped]
      exact congrArg (fun text => Except.error (Fault.error text)) (Except.error.inj same)
    · rw [reader_bind first] at same
      obtain ⟨fields, ran⟩ := head.returned first
      rw [Exec.bind_ok ran]
      exact (tail value).failed same
  returned {reading value off} same := by
    obtain ⟨middle, between, first, second⟩ := reader_bind_eq_ok same
    obtain ⟨fields, ran⟩ := head.returned first
    rw [Exec.bind_ok ran]
    exact (tail middle).returned second

theorem index_ok {buf : Bytes} {off count : Nat} (within : off + count ≤ buf.length)
    (reading : Reading) : index buf off count reading = (.ok (slice buf off count), reading) := by
  unfold index
  rw [if_pos within]
  rfl

theorem checkedU32_error {buf : Bytes} {reading : Reading}
    (short : reading.off + 4 > buf.length) :
    checkedU32 buf reading = (.error (.error "Truncated Rows payload (u32)"), reading) := by
  unfold checkedU32
  rw [Exec.bind_ok (Exec.run_get reading), if_pos short]
  rfl

theorem checkedU32_ok {buf : Bytes} {reading : Reading} (fits : reading.off + 4 ≤ buf.length) :
    checkedU32 buf reading =
      (.ok (leValue (slice buf reading.off 4)), ⟨reading.off + 4, reading.fields⟩) := by
  unfold checkedU32
  rw [Exec.bind_ok (Exec.run_get reading), if_neg (Nat.not_lt.mpr fits),
    Exec.bind_ok (index_ok fits reading)]
  rfl

theorem checkedU32_follows (buf : Bytes) : Follows (checkedU32 buf) (readU32 buf) where
  failed {reading text} same := by
    unfold readU32 at same
    split at same
    · next short =>
        rw [checkedU32_error short]
        cases same
        rfl
    · cases same
  returned {reading value off} same := by
    unfold readU32 at same
    split at same
    · cases same
    · next fits =>
        rw [checkedU32_ok (Nat.not_lt.mp fits)]
        cases same
        exact ⟨_, rfl⟩

/-- What `read_str` does behind the length. -/
theorem checkedStr_follows (buf : Bytes) : Follows (checkedStr buf) (readStr buf) := by
  refine (checkedU32_follows buf).bind fun len => ⟨?_, ?_⟩
  · intro reading text same
    rw [reader_bind rfl] at same
    rw [Exec.bind_ok (Exec.run_get reading)]
    split at same
    · next long =>
        rw [if_pos long]
        cases same
        rfl
    · cases same
  · intro reading value off same
    rw [reader_bind rfl] at same
    rw [Exec.bind_ok (Exec.run_get reading)]
    split at same
    · cases same
    · next fits =>
        rw [if_neg fits, Exec.bind_ok (index_ok (Nat.not_lt.mp fits) reading)]
        cases same
        exact ⟨_, rfl⟩

theorem checkedMany_follows {α : Type} {checked : Exec Reading α} {reader : RowsReader α}
    (each : Follows checked reader) (count : Nat) :
    Follows (checkedMany checked count) (readMany reader count) := by
  induction count with
  | zero => exact .pure []
  | succ count inductionHypothesis =>
      exact each.bind fun value => inductionHypothesis.bind fun rest => .pure (value :: rest)

theorem checkedRows_follows (buf : Bytes) : Follows (checkedRows buf) (rowsReader buf) :=
  (checkedU32_follows buf).bind fun ncols =>
    (checkedMany_follows (checkedStr_follows buf) ncols).bind fun headers =>
      (checkedU32_follows buf).bind fun nrows =>
        (checkedMany_follows (checkedMany_follows (checkedStr_follows buf) ncols) nrows).bind
          fun rows => .pure (Message.rows headers rows)

/-- The checked decoder returns what `decode_rows` returns. -/
theorem checkedDecode_result (buf : Bytes) :
    (checkedDecode buf).1 = (decodeRows buf).mapError .error := by
  unfold checkedDecode decodeRows
  rcases read : rowsReader buf 0 with text | ⟨message, off⟩
  · exact (checkedRows_follows buf).failed read
  · obtain ⟨fields, ran⟩ := @(checkedRows_follows buf).returned ⟨0, []⟩ _ _ read
    rw [ran]
    rfl

/-! ### What was read -/

/-- The bytes of some text. -/
def WellFormed (bytes : Bytes) : Prop := ∃ text, utf8Bytes text = bytes

/-- What a reader returned is encoded in the bytes it passed, if the fields it read
are well formed. -/
def Reads {α : Type} (buf : Bytes) (encode : α → Bytes) (checked : Exec Reading α) : Prop :=
  ∀ {reading after : Reading} {value : α}, checked reading = (.ok value, after) →
    reading.fields <+: after.fields ∧ ((∀ field ∈ after.fields, WellFormed field) →
      buf.take after.off = buf.take reading.off ++ encode value)

theorem checkedU32_reads (buf : Bytes) : Reads buf (leBytes 4) (checkedU32 buf) := by
  intro reading after value ran
  by_cases short : reading.off + 4 > buf.length
  · rw [checkedU32_error short] at ran
    cases ran
  · have fits := Nat.not_lt.mp short
    rw [checkedU32_ok fits] at ran
    cases ran
    have bytes := leBytes_leValue (slice buf reading.off 4)
    rw [slice_length fits] at bytes
    exact ⟨List.prefix_refl _, fun _ => by rw [bytes, List.take_add]; rfl⟩

theorem checkedStr_reads (buf : Bytes) : Reads buf encodeText (checkedStr buf) := by
  intro reading after value ran
  obtain ⟨len, counted, first, ran⟩ := Exec.bind_eq_ok.mp ran
  have number := checkedU32_reads buf first
  rw [Exec.bind_ok (Exec.run_get counted)] at ran
  split at ran
  · cases ran
  · next fits =>
      rw [Exec.bind_ok (index_ok (Nat.not_lt.mp fits) counted)] at ran
      cases ran
      refine ⟨number.1.trans (List.prefix_append _ _), fun wellFormed => ?_⟩
      dsimp only at wellFormed ⊢
      obtain ⟨text, bytes⟩ := wellFormed _ (List.mem_append_right _ List.mem_cons_self)
      have length := congrArg List.length bytes
      rw [slice_length (Nat.not_lt.mp fits)] at length
      have counts := number.2 fun field member => wellFormed field (List.mem_append_left _ member)
      have passed : buf.take (counted.off + len) =
          buf.take counted.off ++ slice buf counted.off len := List.take_add
      rw [passed, counts, ← bytes, fromUtf8Lossy_utf8Bytes]
      unfold encodeText
      rw [length, List.append_assoc]

theorem checkedMany_reads {α : Type} {buf : Bytes} {encode : α → Bytes}
    {checked : Exec Reading α} (each : Reads buf encode checked) (count : Nat) :
    Reads buf (fun values => values.flatMap encode) (checkedMany checked count) := by
  induction count with
  | zero =>
      intro reading after value ran
      cases ran
      exact ⟨List.prefix_refl _, fun _ => (List.append_nil _).symm⟩
  | succ count inductionHypothesis =>
      intro reading after values ran
      obtain ⟨value, middle, first, ran⟩ := Exec.bind_eq_ok.mp ran
      obtain ⟨rest, last, second, ran⟩ := Exec.bind_eq_ok.mp ran
      cases ran
      have head := each first
      have tail := inductionHypothesis second
      refine ⟨head.1.trans tail.1, fun wellFormed => ?_⟩
      have rest := tail.2 wellFormed
      rw [head.2 fun field member => wellFormed field (tail.1.subset member)] at rest
      rw [rest, List.append_assoc]
      rfl

/-! ### Counts -/

theorem checkedMany_length {α : Type} {checked : Exec Reading α} {count : Nat}
    {reading after : Reading} {values : List α}
    (ran : checkedMany checked count reading = (.ok values, after)) : values.length = count := by
  induction count generalizing reading values with
  | zero =>
      cases ran
      rfl
  | succ count inductionHypothesis =>
      obtain ⟨value, middle, first, ran⟩ := Exec.bind_eq_ok.mp ran
      obtain ⟨rest, last, second, ran⟩ := Exec.bind_eq_ok.mp ran
      cases ran
      rw [List.length_cons, inductionHypothesis second]

theorem checkedMany_forall {α : Type} {checked : Exec Reading α} {good : α → Prop}
    (each : ∀ {reading after value}, checked reading = (.ok value, after) → good value)
    {count : Nat} {reading after : Reading} {values : List α}
    (ran : checkedMany checked count reading = (.ok values, after)) :
    ∀ value ∈ values, good value := by
  induction count generalizing reading values with
  | zero =>
      cases ran
      exact fun _ member => absurd member List.not_mem_nil
  | succ count inductionHypothesis =>
      obtain ⟨value, middle, first, ran⟩ := Exec.bind_eq_ok.mp ran
      obtain ⟨rest, last, second, ran⟩ := Exec.bind_eq_ok.mp ran
      cases ran
      exact List.forall_mem_cons.mpr ⟨each first, inductionHypothesis second⟩

/-- The four parts in which a table is read. -/
structure ReadParts (buf : Bytes) (headers : List String) (rows : List (List String))
    (after : Reading) where
  (columns names counted : Reading)
  columnCount : checkedU32 buf ⟨0, []⟩ = (.ok headers.length, columns)
  header : checkedMany (checkedStr buf) headers.length columns = (.ok headers, names)
  rowCount : checkedU32 buf names = (.ok rows.length, counted)
  cells : checkedMany (checkedMany (checkedStr buf) headers.length) rows.length counted =
    (.ok rows, after)

theorem checkedDecode_parts {buf : Bytes} {headers : List String} {rows : List (List String)}
    {after : Reading} (ran : checkedDecode buf = (.ok (.rows headers rows), after)) :
    Nonempty (ReadParts buf headers rows after) := by
  obtain ⟨ncols, columns, first, ran⟩ := Exec.bind_eq_ok.mp ran
  obtain ⟨names, named, second, ran⟩ := Exec.bind_eq_ok.mp ran
  obtain ⟨nrows, counted, third, ran⟩ := Exec.bind_eq_ok.mp ran
  obtain ⟨table, last, fourth, ran⟩ := Exec.bind_eq_ok.mp ran
  cases ran
  obtain rfl := checkedMany_length second
  obtain rfl := checkedMany_length fourth
  exact ⟨⟨columns, named, counted, first, second, third, fourth⟩⟩

namespace ReadParts

variable {buf : Bytes} {headers : List String} {rows : List (List String)} {after : Reading}
  (parts : ReadParts buf headers rows after)

include parts

theorem uniform : Uniform headers rows :=
  checkedMany_forall (fun ran => checkedMany_length ran) parts.cells

/-- The payload starts with the encoding of the table. -/
theorem encoded (wellFormed : ∀ field ∈ after.fields, WellFormed field) :
    encodeRows headers rows <+: buf := by
  have columnCount := checkedU32_reads buf parts.columnCount
  have header := checkedMany_reads (checkedStr_reads buf) _ parts.header
  have rowCount := checkedU32_reads buf parts.rowCount
  have cells := checkedMany_reads (checkedMany_reads (checkedStr_reads buf) _) _ parts.cells
  have counted (field : Bytes) (member : field ∈ parts.counted.fields) : WellFormed field :=
    wellFormed field (cells.1.subset member)
  have names (field : Bytes) (member : field ∈ parts.names.fields) : WellFormed field :=
    counted field (rowCount.1.subset member)
  have columns (field : Bytes) (member : field ∈ parts.columns.fields) : WellFormed field :=
    names field (header.1.subset member)
  have whole : buf.take after.off = encodeRows headers rows := by
    rw [cells.2 wellFormed, rowCount.2 counted, header.2 names, columnCount.2 columns,
      List.take_zero, List.nil_append, List.append_assoc]
    rfl
  exact whole ▸ List.take_prefix _ _

end ReadParts

/-- A table that was decoded was decoded by the checked reader. -/
theorem checkedDecode_of_decodeRows {buf : Bytes} {message : Message}
    (decoded : decodeRows buf = .ok message) :
    checkedDecode buf = (.ok message, (checkedDecode buf).2) := by
  have same := checkedDecode_result buf
  rw [decoded] at same
  exact Prod.ext same rfl

/-- Decoding takes no range outside the payload; and if every string field that was read is
well formed, a decoded table has as many cells in every row as it has headers, and the payload
starts with its encoding. -/
theorem decodeRows_sound (buf : Bytes) :
    (checkedDecode buf).1 = (decodeRows buf).mapError .error ∧
      ∀ headers rows, decodeRows buf = .ok (.rows headers rows) →
        (∀ field ∈ (checkedDecode buf).2.fields, WellFormed field) →
          Uniform headers rows ∧ encodeRows headers rows <+: buf := by
  refine ⟨checkedDecode_result buf, fun headers rows decoded wellFormed => ?_⟩
  obtain ⟨parts⟩ := checkedDecode_parts (checkedDecode_of_decodeRows decoded)
  exact ⟨parts.uniform, parts.encoded wellFormed⟩

/-- One user, and a byte that no field covers. -/
theorem decodeRows_sound_user :
    Uniform ["id", "name"] [["7", "Zoë"]] ∧ encodeRows ["id", "name"] [["7", "Zoë"]] <+:
      encodeRows ["id", "name"] [["7", "Zoë"]] ++ [0xFF] :=
  (decodeRows_sound (encodeRows ["id", "name"] [["7", "Zoë"]] ++ [0xFF])).2 _ _
    (by decide +kernel) (by
      have fields : (checkedDecode (encodeRows ["id", "name"] [["7", "Zoë"]] ++ [0xFF])).2.fields =
          ["id", "name", "7", "Zoë"].map utf8Bytes := by decide +kernel
      rw [fields]
      exact List.forall_mem_map.mpr fun text _ => ⟨text, rfl⟩)

/-! ### How much a payload can announce -/

/-- A reader that returned has passed at least `width` bytes, all inside the payload. -/
def Passes {α : Type} (buf : Bytes) (width : Nat) (checked : Exec Reading α) : Prop :=
  ∀ {reading after : Reading} {value : α}, checked reading = (.ok value, after) →
    reading.off ≤ buf.length → reading.off + width ≤ after.off ∧ after.off ≤ buf.length

theorem checkedU32_passes (buf : Bytes) : Passes buf 4 (checkedU32 buf) := by
  intro reading after value ran within
  by_cases short : reading.off + 4 > buf.length
  · rw [checkedU32_error short] at ran
    cases ran
  · rw [checkedU32_ok (Nat.not_lt.mp short)] at ran
    cases ran
    exact ⟨Nat.le_refl _, Nat.not_lt.mp short⟩

theorem checkedStr_passes (buf : Bytes) : Passes buf 4 (checkedStr buf) := by
  intro reading after value ran within
  obtain ⟨len, counted, first, ran⟩ := Exec.bind_eq_ok.mp ran
  have number := checkedU32_passes buf first within
  rw [Exec.bind_ok (Exec.run_get counted)] at ran
  split at ran
  · cases ran
  · next fits =>
      rw [Exec.bind_ok (index_ok (Nat.not_lt.mp fits) counted)] at ran
      cases ran
      exact ⟨Nat.le_add_right_of_le number.1, Nat.not_lt.mp fits⟩

theorem checkedMany_passes {α : Type} {buf : Bytes} {width : Nat} {checked : Exec Reading α}
    (each : Passes buf width checked) (count : Nat) :
    Passes buf (count * width) (checkedMany checked count) := by
  induction count with
  | zero =>
      intro reading after value ran within
      cases ran
      rw [Nat.zero_mul]
      exact ⟨Nat.le_refl _, within⟩
  | succ count inductionHypothesis =>
      intro reading after values ran within
      obtain ⟨value, middle, first, ran⟩ := Exec.bind_eq_ok.mp ran
      obtain ⟨rest, last, second, ran⟩ := Exec.bind_eq_ok.mp ran
      cases ran
      have head := each first within
      have tail := inductionHypothesis second head.2
      rw [Nat.succ_mul]
      omega

/-- Every header and every cell of a decoded table takes four bytes at least. -/
theorem ReadParts.size {buf : Bytes} {headers : List String} {rows : List (List String)}
    {after : Reading} (parts : ReadParts buf headers rows after) :
    8 + headers.length * 4 + rows.length * (headers.length * 4) ≤ buf.length := by
  have columns := checkedU32_passes buf parts.columnCount (Nat.zero_le _)
  have names := checkedMany_passes (checkedStr_passes buf) _ parts.header columns.2
  have counted := checkedU32_passes buf parts.rowCount names.2
  have cells := checkedMany_passes (checkedMany_passes (checkedStr_passes buf) _) _ parts.cells
    counted.2
  dsimp only at columns
  omega

/-- A decoded table has no more headers, rows or cells than the payload has bytes. -/
def Proportionate (buf : Bytes) : Prop :=
  ∀ headers rows, decodeRows buf = .ok (.rows headers rows) →
    headers.length ≤ buf.length ∧ rows.length ≤ buf.length ∧
      (rows.map List.length).sum ≤ buf.length

theorem sum_lengths {headers : List String} {rows : List (List String)}
    (uniform : Uniform headers rows) :
    (rows.map List.length).sum = rows.length * headers.length := by
  have same : rows.map List.length = List.replicate rows.length headers.length := by
    refine List.eq_replicate_iff.mpr ⟨List.length_map _, ?_⟩
    exact List.forall_mem_map.mpr uniform
  rw [same, List.sum_replicate_nat]

/-- Rows without cells take no bytes. -/
theorem readMany_nothing {α : Type} (read : RowsReader α) (count off : Nat) :
    readMany (readMany read 0) count off = .ok (List.replicate count [], off) := by
  induction count with
  | zero => rfl
  | succ count inductionHypothesis =>
      have first : readMany read 0 off = .ok ([], off) := rfl
      rw [readMany.eq_2, reader_bind first, reader_bind inductionHypothesis]
      rfl

theorem decodeRows_noColumns {buf : Bytes} (long : 8 ≤ buf.length)
    (columns : leValue (slice buf 0 4) = 0) :
    decodeRows buf = .ok (.rows [] (List.replicate (leValue (slice buf 4 4)) [])) := by
  have first : readU32 buf 0 = .ok (0, 4) := by
    unfold readU32
    rw [if_neg (by omega), columns]
  have second : readU32 buf 4 = .ok (leValue (slice buf 4 4), 8) := if_neg (by omega)
  unfold decodeRows rowsReader
  rw [reader_bind first, reader_bind rfl, reader_bind second, reader_bind (readMany_nothing _ _ _)]
  rfl

/-- What is decoded is no larger than what was sent exactly when a payload that announces no
columns announces no more rows than it has bytes. -/
theorem proportionate_iff (buf : Bytes) :
    Proportionate buf ↔ (8 ≤ buf.length → leValue (slice buf 0 4) = 0 →
      leValue (slice buf 4 4) ≤ buf.length) := by
  constructor
  · intro proportionate long columns
    have bounds := proportionate _ _ (decodeRows_noColumns long columns)
    rw [List.length_replicate] at bounds
    exact bounds.2.1
  · intro announced headers rows decoded
    obtain ⟨parts⟩ := checkedDecode_parts (checkedDecode_of_decodeRows decoded)
    have size := parts.size
    rw [sum_lengths parts.uniform]
    have cells : rows.length * headers.length ≤ rows.length * (headers.length * 4) :=
      Nat.mul_le_mul_left _ (Nat.le_mul_of_pos_right _ (by decide))
    refine ⟨by omega, ?_, by omega⟩
    by_cases some : headers.length = 0
    · have columns : leValue (slice buf 0 4) = 0 := by
        have counted := parts.columnCount
        rw [checkedU32_ok (by dsimp only; omega), some] at counted
        exact Except.ok.inj (congrArg Prod.fst counted)
      rw [decodeRows_noColumns (by omega) columns] at decoded
      cases decoded
      rw [List.length_replicate]
      exact announced (by omega) columns
    · have row : rows.length ≤ rows.length * (headers.length * 4) :=
        Nat.le_mul_of_pos_right _ (by omega)
      omega

/-- A frame of thirteen bytes, eight of them its payload, brings nine rows. -/
theorem nine_rows_of_eight_bytes :
    readMessage [9, 0, 0, 0, 4, 0, 0, 0, 0, 9, 0, 0, 0] =
        .ok (.rows [] (List.replicate 9 []), []) ∧
      ¬ ∀ buf, Proportionate buf := by
  refine ⟨by decide +kernel, fun always => ?_⟩
  have decoded : decodeRows [0, 0, 0, 0, 9, 0, 0, 0] = .ok (.rows [] (List.replicate 9 [])) :=
    decodeRows_noColumns (by decide) (by decide)
  exact absurd (always _ _ _ decoded).2.1 (by decide)

end MukhiDb.Model.Protocol
