import MukhiDb.Pager.Crash
import MukhiDb.Pager.Opening

/-!
Contract: what the files of a crashed commit hold.

Owns: the records that recovery finds in the log, which depend only on whether
the commit record is whole; the pages of a `.db` file whose last write is torn;
and what the files read as after recovery, since replaying a transaction again
overwrites the part of it that reached the file.

Does not own: sequences of crashes, and the claim that a crash is harmless.
-/

namespace MukhiDb.Model

open MukhiDb.Foundation

/-! ### The log -/

/-- A log that ends with a whole record. -/
def WholeLog (log : Bytes) : Prop := log.length % recordSize = 0

theorem WholeLog.length_eq {log : Bytes} (whole : WholeLog log) :
    log.length = log.length / recordSize * recordSize :=
  (Nat.div_mul_cancel (Nat.dvd_of_mod_eq_zero whole)).symm

theorem wholeLog_nil : WholeLog [] := rfl

theorem WholeLog.append {front back : Bytes} (whole : WholeLog front) (wholeBack : WholeLog back) :
    WholeLog (front ++ back) := by
  unfold WholeLog at *
  rw [List.length_append, Nat.add_mod, whole, wholeBack, Nat.zero_add, Nat.zero_mod]

/-- Records after a whole log are scanned after it. -/
theorem scanLog_append {front : Bytes} (whole : WholeLog front) (back : Bytes) :
    scanLog (front ++ back) = (wholeRecords back).foldl Wal.Scan.add (scanLog front) := by
  unfold scanLog
  rw [wholeRecords_append whole.length_eq, List.foldl_append]

/-- The whole records of records followed by a torn one. -/
theorem wholeRecords_flatten {records : List Bytes} {torn : Bytes}
    (sizes : ∀ record ∈ records, record.length = recordSize) (short : torn.length < recordSize) :
    wholeRecords (records.flatten ++ torn) = records := by
  induction records with
  | nil => exact wholeRecords_short short
  | cons record rest inductionHypothesis =>
      have size := sizes record List.mem_cons_self
      rw [List.flatten_cons, List.append_assoc, wholeRecords_append (size.trans (Nat.one_mul _).symm),
        wholeRecords_single size, inductionHypothesis fun other member =>
          sizes other (List.mem_cons_of_mem _ member), List.singleton_append]

theorem wholeLog_flatten {records : List Bytes}
    (sizes : ∀ record ∈ records, record.length = recordSize) : WholeLog records.flatten := by
  induction records with
  | nil => exact wholeLog_nil
  | cons record rest inductionHypothesis =>
      have head : WholeLog record := by
        unfold WholeLog
        rw [sizes record List.mem_cons_self, Nat.mod_self]
      rw [List.flatten_cons]
      exact head.append (inductionHypothesis fun other member =>
        sizes other (List.mem_cons_of_mem _ member))

/-- The record that a whole page record stands for. -/
def loggedRecord (txnId : Nat) (write : Nat × Page) : Nat × WalRecord :=
  (txnId % 2 ^ 64, ⟨write.1 % 2 ^ 32, write.2⟩)

theorem foldl_add_pageRecords (found : Wal.Scan) (txnId : Nat) (writes : List (Nat × Page)) :
    (writes.map fun write => Wal.pageRecord txnId write.1 write.2).foldl Wal.Scan.add found =
      { found with pages := found.pages ++ writes.map (loggedRecord txnId) } := by
  induction writes generalizing found with
  | nil => simp
  | cons write rest inductionHypothesis =>
      rw [List.map_cons, List.foldl_cons, found.add_pageRecord, inductionHypothesis]
      simp [loggedRecord]

/-- All records of the transaction, the commit record included, are whole. -/
def Sealed (writes : List (Nat × Page)) (calls bytes : Nat) : Prop :=
  2 * writes.length + 2 ≤ calls ∨ (calls = 2 * writes.length + 1 ∧ recordSize ≤ bytes)

instance (writes : List (Nat × Page)) (calls bytes : Nat) : Decidable (Sealed writes calls bytes) :=
  inferInstanceAs (Decidable (_ ∨ _))

/-- A cut-off sequence of appends is a number of whole records and a torn one. -/
theorem stoppedAppends_shape {records : List Bytes}
    (sizes : ∀ record ∈ records, record.length = recordSize) (calls bytes : Nat) :
    ∃ count torn, stoppedAppends records calls bytes = (records.take count).flatten ++ torn ∧
      torn.length < recordSize ∧ (bytes = 0 → torn = []) ∧ (count < records.length ↔
        calls + 1 < 2 * records.length ∨ calls + 1 = 2 * records.length ∧ bytes < recordSize) := by
  induction records generalizing calls with
  | nil => exact ⟨0, [], rfl, recordSize_pos, fun _ => rfl, by simp⟩
  | cons record rest inductionHypothesis =>
      have size := sizes record List.mem_cons_self
      match calls with
      | 0 =>
          refine ⟨0, [], rfl, recordSize_pos, fun _ => rfl, ?_⟩
          simp only [List.length_cons]
          omega
      | 1 =>
          by_cases enough : recordSize ≤ bytes
          · refine ⟨1, [], ?_, recordSize_pos, fun _ => rfl, ?_⟩
            · simp [stoppedAppends, List.take_of_length_le (size.trans_le enough)]
            · simp only [List.length_cons]
              omega
          · refine ⟨0, record.take bytes, rfl, ?_, ?_, ?_⟩
            · rw [List.length_take]
              omega
            · rintro rfl
              rfl
            · simp only [List.length_cons]
              omega
      | calls + 2 =>
          obtain ⟨count, torn, shape, short, none, whole⟩ := inductionHypothesis
            (fun other member => sizes other (List.mem_cons_of_mem _ member)) calls
          refine ⟨count + 1, torn, ?_, short, none, ?_⟩
          · rw [stoppedAppends, shape, List.take_succ_cons, List.flatten_cons, List.append_assoc]
          · simp only [List.length_cons]
            omega

theorem txnRecords_sizes (txnId : Nat) (writes : List (Nat × Page)) :
    ∀ record ∈ txnRecords txnId writes, record.length = recordSize := by
  intro record member
  simp only [txnRecords, List.mem_append, List.mem_map, List.mem_singleton] at member
  rcases member with ⟨write, -, rfl⟩ | rfl
  · exact pageRecord_length _ _ _
  · exact commitRecord_length _

/-- A log whose transaction was cut off before its commit record was whole: some
of its page records, and no commit record of it. -/
theorem scanLog_unsealed {log : Bytes} (whole : WholeLog log) (txnId : Nat)
    {writes : List (Nat × Page)} {calls bytes : Nat} (early : ¬ Sealed writes calls bytes) :
    ∃ count, scanLog (log ++ stoppedAppends (txnRecords txnId writes) calls bytes) =
      { scanLog log with
        pages := (scanLog log).pages ++ (writes.take count).map (loggedRecord txnId) } := by
  have sizes := txnRecords_sizes txnId writes
  obtain ⟨count, torn, shape, short, -, cut⟩ := stoppedAppends_shape sizes calls bytes
  unfold Sealed at early
  rw [Pager.txnRecords_length] at cut
  have few : count ≤ writes.length := by omega
  refine ⟨count, ?_⟩
  rw [scanLog_append whole, shape, wholeRecords_flatten
    (fun record member => sizes record (List.mem_of_mem_take member)) short, txnRecords,
    List.take_append_of_le_length (by simpa using few), ← List.map_take, foldl_add_pageRecords]

/-- A log whose transaction has its commit record: all of it. -/
theorem scanLog_sealed {log : Bytes} (whole : WholeLog log) (txnId : Nat)
    {writes : List (Nat × Page)} {calls bytes : Nat} (late : Sealed writes calls bytes) :
    scanLog (log ++ stoppedAppends (txnRecords txnId writes) calls bytes) =
      ⟨txnId % 2 ^ 64 :: (scanLog log).committed,
        (scanLog log).pages ++ writes.map (loggedRecord txnId)⟩ := by
  have sizes := txnRecords_sizes txnId writes
  obtain ⟨count, torn, shape, short, -, cut⟩ := stoppedAppends_shape sizes calls bytes
  unfold Sealed at late
  rw [Pager.txnRecords_length] at cut
  have all : (txnRecords txnId writes).take count = txnRecords txnId writes :=
    List.take_of_length_le (by rw [Pager.txnRecords_length]; omega)
  rw [scanLog_append whole, shape, all, wholeRecords_flatten sizes short, txnRecords,
    List.foldl_append, foldl_add_pageRecords, List.foldl_cons, List.foldl_nil,
    Wal.Scan.add_commitRecord]

/-- Without torn writes the log stays whole. -/
theorem wholeLog_stopped {log : Bytes} (whole : WholeLog log) (txnId : Nat)
    (writes : List (Nat × Page)) (calls : Nat) :
    WholeLog (log ++ stoppedAppends (txnRecords txnId writes) calls 0) := by
  have sizes := txnRecords_sizes txnId writes
  obtain ⟨count, torn, shape, -, none, -⟩ := stoppedAppends_shape sizes calls 0
  rw [shape, none rfl, List.append_nil]
  exact whole.append (wholeLog_flatten fun record member =>
    sizes record (List.mem_of_mem_take member))

/-! ### The `.db` file -/

/-- The cut-off call is a page write that extends the file, and only a part of the
page is written. -/
def TornExtension (disk : Disk) (writes : List (Nat × Page)) (calls bytes : Nat) : Prop :=
  ∃ position write, writes[position]? = some write ∧
    calls = 2 * writes.length + 3 + (2 * position + 1) ∧ disk.pageCount ≤ write.1 ∧
    0 < bytes ∧ bytes < pageSize

/-- Either whole pages were written, or the last one is torn. -/
theorem stoppedWrites_cases (disk : Disk) (writes : List (Nat × Page)) (calls bytes : Nat) :
    (∃ count, stoppedWrites disk writes calls bytes = (disk.putAll (writes.take count)).db ∧
      ∀ position, calls = 2 * position + 1 → writes[position]? = none) ∨
    ∃ position write, writes[position]? = some write ∧ calls = 2 * position + 1 ∧
      stoppedWrites disk writes calls bytes =
        ((disk.putAll (writes.take position)).tear write.1 write.2 bytes).db := by
  induction writes generalizing disk calls with
  | nil => exact Or.inl ⟨0, rfl, fun _ _ => rfl⟩
  | cons write rest inductionHypothesis =>
      match calls with
      | 0 => exact Or.inl ⟨0, rfl, fun _ impossible => by omega⟩
      | 1 => exact Or.inr ⟨0, write, rfl, rfl, rfl⟩
      | calls + 2 =>
          rcases inductionHypothesis (disk.put write.1 write.2) calls with
            ⟨count, shape, even⟩ | ⟨position, torn, found, odd, shape⟩
          · refine Or.inl ⟨count + 1, shape, fun position same => ?_⟩
            obtain ⟨before, rfl⟩ : ∃ before, position = before + 1 := ⟨position - 1, by omega⟩
            rw [List.getElem?_cons_succ]
            exact even before (by omega)
          · exact Or.inr ⟨position + 1, torn, by rwa [List.getElem?_cons_succ], by omega, shape⟩

section File

variable {disk : Disk} (aligned : disk.Aligned) {writes : List (Nat × Page)}

include aligned

/-- Nothing past the new page was written before it. -/
theorem Disk.Aligned.pageCount_take (sorted : writes.Pairwise fun left right => left.1 < right.1)
    {position : Nat} {write : Nat × Page} (found : writes[position]? = some write) :
    (disk.putAll (writes.take position)).pageCount ≤ write.1 ↔ disk.pageCount ≤ write.1 := by
  obtain ⟨inside, rfl⟩ := List.getElem?_eq_some_iff.mp found
  rw [aligned.pageCount_putAll_le]
  refine and_iff_left fun other member => ?_
  obtain ⟨before, below, rfl⟩ := List.mem_take_iff_getElem.mp member
  exact List.pairwise_iff_getElem.mp sorted before position _ inside (by omega)

/-- The file ends on a page boundary, and pages apart from the writes are as before. -/
theorem Disk.Aligned.stoppedWrites_intact
    (sorted : writes.Pairwise fun left right => left.1 < right.1) {calls bytes : Nat}
    (intact : ¬ TornExtension disk writes calls bytes) (log : Bytes) :
    Disk.Aligned ⟨stoppedWrites disk writes (calls - (2 * writes.length + 3)) bytes, log⟩ ∧
      ∀ index, (∀ write ∈ writes, write.1 ≠ index) →
        Disk.page ⟨stoppedWrites disk writes (calls - (2 * writes.length + 3)) bytes, log⟩ index =
          disk.page index := by
  have partly (count : Nat) : (disk.putAll (writes.take count)).Aligned ∧
      ∀ index, (∀ write ∈ writes, write.1 ≠ index) →
        (disk.putAll (writes.take count)).page index = disk.page index :=
    ⟨aligned.putAll _, fun index apart => aligned.page_putAll_of_apart fun write member =>
      apart write (List.mem_of_mem_take member)⟩
  rcases stoppedWrites_cases disk writes (calls - (2 * writes.length + 3)) bytes with
    ⟨count, shape, -⟩ | ⟨position, write, found, odd, shape⟩
  · rw [shape]
    exact partly count
  · rw [shape]
    by_cases none : bytes = 0
    · rw [none, Disk.tear_none]
      exact partly position
    by_cases whole : pageSize ≤ bytes
    · have one : writes.take (position + 1) = writes.take position ++ [write] := by
        rw [List.take_add_one, found, Option.toList_some]
      rw [Disk.tear_whole _ _ whole]
      have written := partly (position + 1)
      rw [one, Disk.putAll_append] at written
      exact written
    · have inside : write.1 < (disk.putAll (writes.take position)).pageCount := by
        by_contra past
        refine intact ⟨position, write, found, by omega, ?_, by omega, by omega⟩
        exact (aligned.pageCount_take sorted found).mp (Nat.le_of_not_lt past)
      have positive : 0 < bytes := Nat.pos_of_ne_zero none
      have short : bytes < pageSize := Nat.lt_of_not_le whole
      refine ⟨(partly position).1.tear_inside positive short inside, fun index apart => ?_⟩
      have other : index ≠ write.1 := fun same =>
        apart write (List.mem_of_getElem? found) same.symm
      exact (Disk.page_tear positive short inside other).trans ((partly position).2 index apart)

/-- A torn page past the end leaves a file that ends inside a page. -/
theorem Disk.Aligned.stoppedWrites_torn
    (sorted : writes.Pairwise fun left right => left.1 < right.1) {calls bytes : Nat}
    (torn : TornExtension disk writes calls bytes) (log : Bytes) :
    ¬ Disk.Aligned ⟨stoppedWrites disk writes (calls - (2 * writes.length + 3)) bytes, log⟩ := by
  obtain ⟨position, write, found, count, past, positive, short⟩ := torn
  rcases stoppedWrites_cases disk writes (calls - (2 * writes.length + 3)) bytes with
    ⟨-, -, even⟩ | ⟨other, found', found'', odd, shape⟩
  · rw [even position (by omega)] at found
    contradiction
  · obtain rfl : other = position := by omega
    obtain rfl : found' = write := Option.some.inj (found''.symm.trans found)
    rw [shape]
    exact (aligned.putAll _).tear_past positive short
      ((aligned.pageCount_take sorted found).mpr past)

end File

/-! ### Opening after a crash -/

/-- What a file reads as after recovery. -/
theorem Disk.recovered_page (disk : Disk) :
    disk.recovered.page = (disk.putAll ((recoveredRecords disk.log).map WalRecord.write)).page := by
  unfold Disk.recovered
  split
  · next none => rw [none]; rfl
  · rfl

/-- A cut-off transaction whose id no commit record in the log bears recovers nothing. -/
theorem recoveredRecords_unsealed {log : Bytes} (whole : WholeLog log)
    (idle : recoveredRecords log = []) {txnId : Nat} {writes : List (Nat × Page)}
    {calls bytes : Nat} (early : ¬ Sealed writes calls bytes)
    (unsealed : txnId % 2 ^ 64 ∉ (scanLog log).committed) :
    recoveredRecords (log ++ stoppedAppends (txnRecords txnId writes) calls bytes) = [] := by
  obtain ⟨count, scan⟩ := scanLog_unsealed whole txnId early
  unfold recoveredRecords Wal.Scan.records at idle ⊢
  rw [List.map_eq_nil_iff, List.filter_eq_nil_iff] at idle ⊢
  rw [scan]
  intro page member
  rcases List.mem_append.mp member with old | new
  · exact idle page old
  · obtain ⟨write, -, rfl⟩ := List.mem_map.mp new
    rw [decide_eq_true_eq]
    exact unsealed

/-- A sealed transaction whose id no page record in the log bears recovers its own writes. -/
theorem recoveredRecords_sealed {log : Bytes} (whole : WholeLog log)
    (idle : recoveredRecords log = []) {txnId : Nat} {writes : List (Nat × Page)}
    {calls bytes : Nat} (late : Sealed writes calls bytes)
    (fresh : ∀ page ∈ (scanLog log).pages, page.1 ≠ txnId % 2 ^ 64)
    (small : ∀ write ∈ writes, write.1 < 2 ^ 32) :
    (recoveredRecords (log ++ stoppedAppends (txnRecords txnId writes) calls bytes)).map
      WalRecord.write = writes := by
  unfold recoveredRecords Wal.Scan.records at idle ⊢
  rw [List.map_eq_nil_iff, List.filter_eq_nil_iff] at idle
  rw [scanLog_sealed whole txnId late]
  have old : (scanLog log).pages.filter (fun page =>
      page.1 ∈ txnId % 2 ^ 64 :: (scanLog log).committed) = [] := by
    rw [List.filter_eq_nil_iff]
    intro page member
    have other := fresh page member
    have uncommitted := idle page member
    rw [decide_eq_true_eq] at uncommitted ⊢
    rw [List.mem_cons, not_or]
    exact ⟨other, uncommitted⟩
  have new : (writes.map (loggedRecord txnId)).filter (fun page =>
      page.1 ∈ txnId % 2 ^ 64 :: (scanLog log).committed) = writes.map (loggedRecord txnId) := by
    rw [List.filter_eq_self]
    intro page member
    obtain ⟨write, -, rfl⟩ := List.mem_map.mp member
    simp [loggedRecord]
  dsimp only
  rw [List.filter_append, old, new, List.nil_append, List.map_map, List.map_map]
  conv_rhs => rw [← List.map_id writes]
  refine List.map_congr_left fun write member => ?_
  simp only [Function.comp_apply, loggedRecord, WalRecord.write, id_eq,
    Nat.mod_eq_of_lt (small write member)]

namespace PagerIo

variable {state : PagerIo}

theorem mem_commitWrites {write : Nat × Page} :
    write ∈ state.commitWrites ↔
      write.1 < maxPages ∧ state.pager.dirty write.1 = true ∧
        state.pager.pages write.1 = some write.2 := by
  unfold commitWrites
  rw [mem_dirtyPages, mem_pageIndices]

/-- Only the pages below the last dirty one have to be looked at. -/
theorem commitWrites_eq {bound : Nat} (below : bound ≤ maxPages)
    (clean : ∀ index, bound ≤ index → state.pager.dirty index = false) :
    state.commitWrites = state.dirtyPages (List.range bound) := by
  obtain ⟨rest, whole⟩ := Nat.exists_eq_add_of_le below
  unfold commitWrites dirtyPages pageIndices
  rw [whole, List.range_add, List.filterMap_append]
  refine List.append_right_eq_self.mpr (List.filterMap_eq_nil_iff.mpr fun index member => ?_)
  obtain ⟨offset, -, rfl⟩ := List.mem_map.mp member
  rw [clean _ (Nat.le_add_right _ _)]
  rfl

theorem commitWrites_sorted (state : PagerIo) :
    state.commitWrites.Pairwise fun left right => left.1 < right.1 := by
  have indexed : ∀ index write, (if state.pager.dirty index then
      (state.pager.pages index).map fun page => (index, page) else none) = some write →
      write.1 = index := by
    intro index write found
    split at found
    · obtain ⟨page, -, rfl⟩ := Option.map_eq_some_iff.mp found
      rfl
    · contradiction
  unfold commitWrites dirtyPages pageIndices
  refine List.Pairwise.filterMap _ ?_ List.pairwise_lt_range
  intro first second before write found write' found'
  rw [indexed first write found, indexed second write' found']
  exact before

/-- No record that is left in the log can be mistaken for one of the commit that
stops here: below its commit record no commit record of its id, past it no page
record of its id. -/
structure IdUnused (state : PagerIo) (calls bytes : Nat) : Prop where
  commits : ¬ Sealed state.commitWrites calls bytes →
    state.pager.wal.txnId % 2 ^ 64 ∉ (scanLog state.disk.log).committed
  pages : Sealed state.commitWrites calls bytes → calls ≤ 4 * state.commitWrites.length + 5 →
    ∀ page ∈ (scanLog state.disk.log).pages, page.1 ≠ state.pager.wal.txnId % 2 ^ 64

theorem idUnused_of_empty (empty : state.disk.log = []) (calls bytes : Nat) :
    state.IdUnused calls bytes := by
  have scan : scanLog state.disk.log = ⟨[], []⟩ := by
    rw [empty]
    rfl
  refine ⟨fun _ => ?_, fun _ _ => ?_⟩
  · rw [scan]
    exact List.not_mem_nil
  · rw [scan]
    intro page member
    exact absurd member List.not_mem_nil

/-- What the files of a crashed commit read as after recovery. -/
theorem Coherent.crashed_recovered (coherent : state.Coherent) (whole : WholeLog state.disk.log)
    (idle : recoveredRecords state.disk.log = []) {calls bytes : Nat}
    (unused : state.IdUnused calls bytes)
    (intact : ¬ TornExtension state.disk state.commitWrites calls bytes) :
    (state.crashed calls bytes).Aligned ∧ (state.crashed calls bytes).recovered.page =
      if Sealed state.commitWrites calls bytes then state.view else state.disk.page := by
  have aligned : state.disk.Aligned := coherent.fileAligned
  obtain ⟨alignedAfter, others⟩ := aligned.stoppedWrites_intact state.commitWrites_sorted intact
    (state.crashed calls bytes).log
  refine ⟨alignedAfter, ?_⟩
  rw [Disk.recovered_page]
  by_cases late : Sealed state.commitWrites calls bytes
  · rw [if_pos late, ← coherent.consistent.committed_page]
    have small : ∀ write ∈ state.commitWrites, write.1 < 2 ^ 32 := fun write member =>
      (mem_commitWrites.mp member).1.trans (by decide)
    by_cases kept : calls ≤ 4 * state.commitWrites.length + 5
    · have log : (state.crashed calls bytes).log = state.disk.log ++
          stoppedAppends (txnRecords state.pager.wal.txnId state.commitWrites) calls bytes :=
        if_pos kept
      rw [log, recoveredRecords_sealed whole idle late (unused.pages late kept) small]
      exact Disk.Aligned.page_putAll_congr alignedAfter aligned others
    · have log : (state.crashed calls bytes).log = [] := if_neg kept
      have applied : (state.crashed calls bytes).db = (state.disk.putAll state.commitWrites).db :=
        stoppedWrites_all _ _ _ (by omega)
      have crashed : state.crashed calls bytes = state.committed.disk :=
        congrArg₂ Disk.mk applied log
      rw [log, crashed]
      rfl
  · rw [if_neg late]
    have late' := late
    unfold Sealed at late'
    have log : (state.crashed calls bytes).log = state.disk.log ++
        stoppedAppends (txnRecords state.pager.wal.txnId state.commitWrites) calls bytes :=
      if_pos (by omega)
    rw [log, recoveredRecords_unsealed whole idle late (unused.commits late)]
    have untouched : (state.crashed calls bytes).db = state.disk.db := by
      unfold crashed
      rw [show calls - (2 * state.commitWrites.length + 3) = 0 by omega]
      exact stoppedWrites_none _ _ _
    have crashed : state.crashed calls bytes = ⟨state.disk.db, (state.crashed calls bytes).log⟩ :=
      congrArg (Disk.mk · _) untouched
    rw [crashed]
    rfl

end PagerIo

end MukhiDb.Model
