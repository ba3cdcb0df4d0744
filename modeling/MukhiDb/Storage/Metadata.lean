import MukhiDb.BTree.PageParts
import MukhiDb.Model.Storage

/-!
Contract: what is read from a metadata page that was written.

Owns: the bytes of the metadata; the fact that writing it puts exactly these bytes
at the start of the page; and reading them back, with the names cut to 255 bytes.

Does not own: metadata that does not fit in a page, which is refused.
-/

namespace MukhiDb.Model

open MukhiDb.Foundation

/-- The length of a name in the metadata. -/
def Column.storedLength (column : Column) : Nat := min (utf8Bytes column.name).length 255

/-- The column that is read back: its name was cut to 255 bytes. -/
def Column.stored (column : Column) : Column :=
  ⟨fromUtf8Lossy ((utf8Bytes column.name).take column.storedLength), column.dataType⟩

/-- The bytes of a column. -/
def Column.bytes (column : Column) : Bytes :=
  leBytes 2 column.storedLength ++ (utf8Bytes column.name).take column.storedLength ++
    [column.dataType.tag]

/-- The bytes of the metadata. -/
def metadataBytes (rootPage : Nat) (columns : List Column) : Bytes :=
  leBytes 4 rootPage ++ leBytes 4 columns.length ++ columns.flatMap Column.bytes

/-- A short name is read back as it is. -/
theorem Column.stored_short {column : Column} (short : (utf8Bytes column.name).length ≤ 255) :
    column.stored = column := by
  have whole : column.storedLength = (utf8Bytes column.name).length := Nat.min_eq_left short
  unfold Column.stored
  rw [whole, List.take_length, fromUtf8Lossy_utf8Bytes]

/-- The name is read back as it is: it is short, or it was cut inside of a replacement
character at its end. -/
def Column.NameKept (column : Column) : Prop :=
  (utf8Bytes column.name).length ≤ 255 ∨
    ∃ front, column.name.toList = front ++ ['\uFFFD'] ∧
      (front.flatMap String.utf8EncodeChar).length < 255

theorem Column.stored_eq_iff {column : Column} : column.stored = column ↔ column.NameKept := by
  by_cases short : (utf8Bytes column.name).length ≤ 255
  · exact iff_of_true (Column.stored_short short) (Or.inl short)
  · have cut : column.storedLength = 255 := Nat.min_eq_right (Nat.le_of_not_le short)
    have read := fromUtf8Lossy_take_iff column.name (Nat.lt_of_not_le short)
    unfold Column.NameKept
    rw [or_iff_right short, ← read]
    unfold Column.stored
    rw [cut]
    exact ⟨fun same => congrArg Column.name same, fun same => by rw [same]⟩

theorem map_stored_iff {columns : List Column} :
    columns.map Column.stored = columns ↔ ∀ column ∈ columns, column.NameKept := by
  induction columns with
  | nil => simp
  | cons column rest inductionHypothesis =>
      rw [List.map_cons, List.cons_eq_cons, inductionHypothesis, Column.stored_eq_iff,
        List.forall_mem_cons]

section Metadata

variable {page after : Page} {columns : List Column} {rootPage off : Nat} {tail : Bytes}

theorem storedName_length (column : Column) :
    ((utf8Bytes column.name).take column.storedLength).length = column.storedLength :=
  List.length_take_of_le (Nat.min_le_left _ _)

theorem columnBytes_length (column : Column) :
    column.bytes.length = column.storedLength + 3 := by
  unfold Column.bytes
  rw [List.length_append, List.length_append, leBytes_length, storedName_length,
    List.length_singleton]
  omega

/-! ### Writing -/

/-- What a write inside the page means. -/
theorem write_bytes {data : Bytes} (written : page.write off data = .ok after) :
    off + data.length ≤ pageSize ∧ after.bytes = splice page.bytes off data := by
  unfold Page.write at written
  by_cases fits : off + data.length ≤ pageSize
  · rw [dif_pos fits] at written
    exact ⟨fits, (congrArg Page.bytes (Except.ok.inj written)).symm⟩
  · rw [dif_neg fits] at written
    cases written

/-- A page write whose result goes on. -/
theorem write_bind {data : Bytes} {next : Page → Except Fault Page}
    (written : (page.write off data >>= next) = .ok after) :
    ∃ middle, off + data.length ≤ pageSize ∧ middle.bytes = splice page.bytes off data ∧
      next middle = .ok after := by
  rcases first : page.write off data with fault | middle
  · rw [first] at written
    cases written
  · rw [first] at written
    obtain ⟨fits, bytes⟩ := write_bytes first
    exact ⟨middle, fits, bytes, written⟩

theorem writeColumns_bytes (inside : off ≤ pageSize)
    (written : writeColumns columns off page = .ok after) :
    off + (columns.flatMap Column.bytes).length ≤ pageSize ∧
      after.bytes = splice page.bytes off (columns.flatMap Column.bytes) := by
  induction columns generalizing off page with
  | nil =>
      obtain rfl := Except.ok.inj written
      exact ⟨inside, by simp [splice]⟩
  | cons column rest inductionHypothesis =>
      have size := page.size
      have nameLength := storedName_length column
      unfold writeColumns at written
      obtain ⟨first, firstFits, firstBytes, written⟩ := write_bind written
      obtain ⟨second, secondFits, secondBytes, written⟩ := write_bind written
      obtain ⟨third, thirdFits, thirdBytes, written⟩ := write_bind written
      change second.bytes = splice first.bytes (off + 2)
        ((utf8Bytes column.name).take column.storedLength) at secondBytes
      change off + 2 + ((utf8Bytes column.name).take column.storedLength).length ≤ pageSize at secondFits
      change third.bytes = splice second.bytes (off + 2 + column.storedLength)
        [column.dataType.tag] at thirdBytes
      change off + 2 + column.storedLength + 1 ≤ pageSize at thirdFits
      rw [leBytes_length] at firstFits
      obtain ⟨fits, bytes⟩ := inductionHypothesis thirdFits written
      have joinFirst := @splice_splice page.bytes (leBytes 2 column.storedLength)
        ((utf8Bytes column.name).take column.storedLength) off
        (by rw [leBytes_length]; omega)
      rw [leBytes_length] at joinFirst
      have joinSecond := @splice_splice page.bytes
        (leBytes 2 column.storedLength ++ (utf8Bytes column.name).take column.storedLength)
        [column.dataType.tag] off
        (by rw [List.length_append, leBytes_length, List.length_singleton]; omega)
      rw [List.length_append, leBytes_length, nameLength, ← Nat.add_assoc] at joinSecond
      have own : third.bytes = splice page.bytes off column.bytes := by
        rw [thirdBytes, secondBytes, firstBytes]
        change splice (splice (splice page.bytes off (leBytes 2 column.storedLength)) (off + 2) _)
          _ _ = _
        rw [joinFirst, joinSecond]
        rfl
      have length := columnBytes_length column
      have place : off + 2 + column.storedLength + 1 = off + column.bytes.length := by omega
      rw [List.flatMap_cons, List.length_append]
      change off + 2 + column.storedLength + 1 + _ ≤ pageSize at fits
      change after.bytes = splice third.bytes (off + 2 + column.storedLength + 1) _ at bytes
      refine ⟨by omega, ?_⟩
      rw [bytes, own, place, splice_splice (by omega)]

/-- Writing the metadata puts its bytes at the start of the page. -/
theorem encodeMetadata_bytes (written : encodeMetadata rootPage columns page = .ok after) :
    (metadataBytes rootPage columns).length ≤ pageSize ∧
      after.bytes = splice page.bytes 0 (metadataBytes rootPage columns) := by
  have size := page.size
  have whole : pageSize = 4096 := rfl
  unfold encodeMetadata at written
  obtain ⟨first, firstFits, firstBytes, written⟩ := write_bind written
  obtain ⟨second, secondFits, secondBytes, written⟩ := write_bind written
  obtain ⟨fits, bytes⟩ := writeColumns_bytes (by decide) written
  unfold metaColsOffset at fits bytes
  have length : (leBytes 4 rootPage ++ leBytes 4 columns.length).length = 8 := by
    rw [List.length_append, leBytes_length, leBytes_length]
  have joinFirst := @splice_splice page.bytes (leBytes 4 rootPage) (leBytes 4 columns.length) 0
    (by rw [leBytes_length, leBytes_length]; omega)
  rw [leBytes_length] at joinFirst
  have own : second.bytes =
      splice page.bytes 0 (leBytes 4 rootPage ++ leBytes 4 columns.length) := by
    rw [secondBytes, firstBytes]
    exact joinFirst
  unfold metadataBytes
  rw [List.length_append, length]
  refine ⟨fits, ?_⟩
  rw [bytes, own, ← @splice_splice page.bytes _ (columns.flatMap Column.bytes) 0 (by omega), length]

/-- A page write stops only if it does not fit. -/
theorem write_bind_error {data : Bytes} {next : Page → Except Fault Page} {fault : Fault}
    (stopped : (page.write off data >>= next) = .error fault) :
    fault = .panic ∨ ∃ middle, page.write off data = .ok middle ∧ next middle = .error fault := by
  rcases first : page.write off data with other | middle
  · rw [first] at stopped
    obtain rfl := Except.error.inj stopped
    unfold Page.write at first
    split at first
    · cases first
    · exact Or.inl (Except.error.inj first).symm
  · rw [first] at stopped
    exact Or.inr ⟨middle, rfl, stopped⟩

theorem writeColumns_panic {fault : Fault} (stopped : writeColumns columns off page = .error fault) :
    fault = .panic := by
  induction columns generalizing off page with
  | nil => cases stopped
  | cons column rest inductionHypothesis =>
      unfold writeColumns at stopped
      rcases write_bind_error stopped with panicked | ⟨_, -, stopped⟩
      · exact panicked
      rcases write_bind_error stopped with panicked | ⟨_, -, stopped⟩
      · exact panicked
      rcases write_bind_error stopped with panicked | ⟨_, -, stopped⟩
      · exact panicked
      exact inductionHypothesis stopped

/-- Writing metadata can only panic. -/
theorem encodeMetadata_panic {fault : Fault}
    (stopped : encodeMetadata rootPage columns page = .error fault) : fault = .panic := by
  unfold encodeMetadata at stopped
  rcases write_bind_error stopped with panicked | ⟨_, -, stopped⟩
  · exact panicked
  rcases write_bind_error stopped with panicked | ⟨_, -, stopped⟩
  · exact panicked
  exact writeColumns_panic stopped

theorem writeColumns_ok (fits : off + (columns.flatMap Column.bytes).length ≤ pageSize) :
    ∃ after, writeColumns columns off page = .ok after := by
  induction columns generalizing off page with
  | nil => exact ⟨page, rfl⟩
  | cons column rest inductionHypothesis =>
      have nameLength := storedName_length column
      rw [List.flatMap_cons, List.length_append, columnBytes_length] at fits
      obtain ⟨first, wroteLength, -⟩ := @Page.write_ok page off (leBytes 2 column.storedLength)
        (by rw [leBytes_length]; omega)
      obtain ⟨second, wroteName, -⟩ := @Page.write_ok first (off + 2)
        ((utf8Bytes column.name).take column.storedLength) (by omega)
      obtain ⟨third, wroteTag, -⟩ := @Page.write_ok second (off + 2 + column.storedLength)
        [column.dataType.tag] (by rw [List.length_singleton]; omega)
      obtain ⟨after, written⟩ := @inductionHypothesis third (off + 2 + column.storedLength + 1)
        (by omega)
      refine ⟨after, ?_⟩
      unfold writeColumns
      change (page.write off (leBytes 2 column.storedLength) >>= _) = _
      rw [wroteLength, ok_bind]
      change (first.write (off + 2) ((utf8Bytes column.name).take column.storedLength) >>= _) = _
      rw [wroteName, ok_bind]
      change (second.write (off + 2 + column.storedLength) [column.dataType.tag] >>= _) = _
      rw [wroteTag, ok_bind]
      exact written

/-- Metadata that fits in a page is written. -/
theorem encodeMetadata_ok (fits : (metadataBytes rootPage columns).length ≤ pageSize) :
    ∃ after, encodeMetadata rootPage columns page = .ok after := by
  unfold metadataBytes at fits
  rw [List.length_append, List.length_append, leBytes_length, leBytes_length] at fits
  obtain ⟨first, wroteRoot, -⟩ := @Page.write_ok page metaRootOffset (leBytes 4 rootPage)
    (by rw [leBytes_length]; decide)
  obtain ⟨second, wroteCount, -⟩ := @Page.write_ok first metaNcolsOffset (leBytes 4 columns.length)
    (by rw [leBytes_length]; decide)
  obtain ⟨after, written⟩ := @writeColumns_ok second columns metaColsOffset fits
  refine ⟨after, ?_⟩
  unfold encodeMetadata
  rw [wroteRoot, ok_bind, wroteCount, ok_bind]
  exact written

/-! ### Reading -/

theorem read_ahead {front : Bytes} {width : Nat} (ahead : Ahead page.bytes off (front ++ tail))
    (size : width = front.length) : page.read off width = .ok front := by
  subst size
  have fits := ahead.length
  rw [page.size] at fits
  rw [Page.read_ok fits, ahead.slice]

theorem dataTypeOf_tag (dataType : DataType) : dataTypeOf dataType.tag = .ok dataType := by
  cases dataType <;> rfl

theorem readColumns_ahead
    (ahead : Ahead page.bytes off (columns.flatMap Column.bytes ++ tail)) :
    readColumns page columns.length off = .ok (columns.map Column.stored) := by
  induction columns generalizing off with
  | nil => rfl
  | cons column rest inductionHypothesis =>
      have nameLength := storedName_length column
      have cut : column.storedLength ≤ 255 := Nat.min_le_right _ _
      have number : leValue (leBytes 2 column.storedLength) = column.storedLength :=
        leValue_leBytes_of_lt (Nat.lt_of_le_of_lt cut (by decide))
      rw [List.flatMap_cons, List.append_assoc] at ahead
      have others := inductionHypothesis ahead.skip
      rw [columnBytes_length] at others
      unfold Column.bytes at ahead
      rw [List.append_assoc, List.append_assoc] at ahead
      have first : page.read off 2 = .ok (leBytes 2 column.storedLength) :=
        read_ahead ahead (leBytes_length _ _).symm
      have behindLength := ahead.skip
      rw [leBytes_length] at behindLength
      have second : page.read (off + 2) column.storedLength =
          .ok ((utf8Bytes column.name).take column.storedLength) :=
        read_ahead behindLength nameLength.symm
      have behindName := behindLength.skip
      rw [nameLength] at behindName
      have third : page.read (off + 2 + column.storedLength) 1 = .ok [column.dataType.tag] :=
        read_ahead behindName rfl
      have place : off + 2 + column.storedLength + 1 = off + (column.storedLength + 3) := by omega
      rw [List.length_cons]
      unfold readColumns
      rw [first, ok_bind, number]
      dsimp only
      rw [second, ok_bind, third, ok_bind, List.headD_cons, dataTypeOf_tag, ok_bind, place, others]
      rfl

/-- Metadata that was written is read back, with the names cut. -/
theorem decodeMetadata_encoded (written : encodeMetadata rootPage columns page = .ok after) :
    decodeMetadata after = .ok (rootPage % 2 ^ 32, columns.map Column.stored) := by
  obtain ⟨fits, bytes⟩ := encodeMetadata_bytes written
  have ahead : Ahead after.bytes 0 (metadataBytes rootPage columns ++
      page.bytes.drop (0 + (metadataBytes rootPage columns).length)) := by
    rw [bytes]
    exact Ahead.splice (Nat.zero_le _)
  have few : columns.length < 2 ^ 32 := by
    have most : columns.length ≤ (columns.flatMap Column.bytes).length := by
      rw [List.length_flatMap]
      have each : ∀ length ∈ columns.map fun column => column.bytes.length, 1 ≤ length := by
        intro length member
        obtain ⟨column, -, rfl⟩ := List.mem_map.mp member
        rw [columnBytes_length]
        omega
      have total := List.length_le_sum_of_one_le _ each
      rwa [List.length_map] at total
    have whole : pageSize = 4096 := rfl
    unfold metadataBytes at fits
    rw [List.length_append] at fits
    omega
  unfold metadataBytes at ahead
  rw [List.append_assoc, List.append_assoc] at ahead
  have first : after.read metaRootOffset 4 = .ok (leBytes 4 rootPage) :=
    read_ahead ahead (leBytes_length _ _).symm
  have behindRoot := ahead.skip
  rw [leBytes_length] at behindRoot
  have second : after.read metaNcolsOffset 4 = .ok (leBytes 4 columns.length) :=
    read_ahead behindRoot (leBytes_length _ _).symm
  have behindCount := behindRoot.skip
  rw [leBytes_length] at behindCount
  have third : readColumns after columns.length metaColsOffset = .ok (columns.map Column.stored) :=
    readColumns_ahead behindCount
  unfold decodeMetadata
  rw [first, ok_bind, second, ok_bind, leValue_leBytes_four, leValue_leBytes_four,
    Nat.mod_eq_of_lt few]
  dsimp only
  rw [third]
  rfl

end Metadata

end MukhiDb.Model
