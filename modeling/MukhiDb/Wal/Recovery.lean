import Mathlib.Data.List.Basic
import MukhiDb.Model.Wal

/-!
Contract: what recovery reads out of a log file when I/O succeeds.

Owns: the whole records of a byte string, with a torn tail left out; the fields
of an encoded record; and recovery as a function of the log bytes.

Does not own: how a log comes about, and the replay of what was recovered.
-/

namespace MukhiDb.Model

open MukhiDb.Foundation

/-! ### Whole records -/

/-- The whole records of a log, in order. A torn tail is not a record. -/
def wholeRecords (log : Bytes) : List Bytes :=
  (List.range (log.length / recordSize)).map fun index => slice log (index * recordSize) recordSize

theorem recordSize_pos : 0 < recordSize := by decide

theorem wholeRecords_length (log : Bytes) :
    (wholeRecords log).length = log.length / recordSize := by
  simp [wholeRecords]

/-- Records appended to whole records follow them. -/
theorem wholeRecords_append {front back : Bytes} {count : Nat}
    (whole : front.length = count * recordSize) :
    wholeRecords (front ++ back) = wholeRecords front ++ wholeRecords back := by
  have size : (front ++ back).length / recordSize = count + back.length / recordSize := by
    rw [List.length_append, whole, Nat.add_comm, Nat.add_mul_div_right _ _ recordSize_pos,
      Nat.add_comm]
  unfold wholeRecords
  rw [size, whole, Nat.mul_div_cancel _ recordSize_pos, List.range_add, List.map_append,
    List.map_map]
  refine congrArg₂ HAppend.hAppend ?_ ?_
  · refine List.map_congr_left fun index member => ?_
    have below := List.mem_range.mp member
    have fits : index * recordSize + recordSize ≤ front.length := by
      rw [whole, ← Nat.succ_mul]
      exact Nat.mul_le_mul_right _ below
    apply List.ext_getElem?
    intro position
    simp only [slice_getElem?]
    split
    · rw [List.getElem?_append_left (by omega)]
    · rfl
  · refine List.map_congr_left fun index _ => ?_
    apply List.ext_getElem?
    intro position
    simp only [Function.comp_apply, slice_getElem?]
    split
    · rw [Nat.add_mul, List.getElem?_append_right (by omega), whole]
      congr 1
      omega
    · rfl

/-- A tail shorter than a record holds none. -/
theorem wholeRecords_short {tail : Bytes} (short : tail.length < recordSize) :
    wholeRecords tail = [] := by
  unfold wholeRecords
  rw [Nat.div_eq_of_lt short]
  rfl

/-- One record is one whole record. -/
theorem wholeRecords_single {record : Bytes} (size : record.length = recordSize) :
    wholeRecords record = [record] := by
  unfold wholeRecords
  rw [size, Nat.div_self recordSize_pos]
  simp [slice, ← size]

/-! ### Encoded records -/

theorem pageRecord_length (txnId pageNum : Nat) (data : Page) :
    (Wal.pageRecord txnId pageNum data).length = recordSize := by
  simp [Wal.pageRecord, data.size, recordSize]
  omega

theorem commitRecord_length (txnId : Nat) : (Wal.commitRecord txnId).length = recordSize := by
  simp [Wal.commitRecord, recordSize]
  omega

/-- Adding an encoded commit record. -/
theorem Wal.Scan.add_commitRecord (found : Wal.Scan) (txnId : Nat) :
    found.add (Wal.commitRecord txnId) =
      { found with committed := txnId % 2 ^ 64 :: found.committed } := by
  have id : leValue (slice (Wal.commitRecord txnId) 1 8) = txnId % 2 ^ 64 := by
    have field : slice (Wal.commitRecord txnId) 1 8 = leBytes 8 txnId := by
      simp [Wal.commitRecord, slice]
    rw [field, leValue_leBytes_eight]
  unfold Wal.Scan.add
  rw [dif_pos (commitRecord_length txnId)]
  dsimp only
  rw [if_pos (by rfl), id]

/-- Adding an encoded page record. -/
theorem Wal.Scan.add_pageRecord (found : Wal.Scan) (txnId pageNum : Nat) (data : Page) :
    found.add (Wal.pageRecord txnId pageNum data) =
      { found with pages := found.pages ++ [(txnId % 2 ^ 64, ⟨pageNum % 2 ^ 32, data⟩)] } := by
  have id : leValue (slice (Wal.pageRecord txnId pageNum data) 1 8) = txnId % 2 ^ 64 := by
    have field : slice (Wal.pageRecord txnId pageNum data) 1 8 = leBytes 8 txnId := by
      simp [Wal.pageRecord, slice]
    rw [field, leValue_leBytes_eight]
  have number : leValue (slice (Wal.pageRecord txnId pageNum data) 9 4) = pageNum % 2 ^ 32 := by
    have field : slice (Wal.pageRecord txnId pageNum data) 9 4 = leBytes 4 pageNum := by
      simp [Wal.pageRecord, slice]
    rw [field, leValue_leBytes_four]
  have page (size) : Wal.recordPage (Wal.pageRecord txnId pageNum data) size = data := by
    apply Page.ext
    have passed : (leBytes 8 txnId).drop 12 = [] := List.drop_eq_nil_of_le (by simp)
    simp [Wal.recordPage, Wal.pageRecord, slice, List.drop_append, passed, ← data.size]
  unfold Wal.Scan.add
  rw [dif_pos (pageRecord_length txnId pageNum data)]
  dsimp only
  rw [if_neg (by rw [Wal.pageRecord, List.headD_cons]; decide), if_pos (by rfl), id, number, page]

/-! ### Recovery -/

/-- What recovery collects from a log. -/
def scanLog (log : Bytes) : Wal.Scan :=
  (wholeRecords log).foldl Wal.Scan.add ⟨[], []⟩

/-- The page writes that recovery returns for a log. -/
def recoveredRecords (log : Bytes) : List WalRecord := (scanLog log).records

theorem recoveredRecords_nil : recoveredRecords [] = [] := by
  rfl

private theorem recoverLoop_ok {state : WalIo} (quiet : state.schedule = []) :
    ∀ (fuel index : Nat) (found : Wal.Scan),
      index ≤ (wholeRecords state.log).length →
      (wholeRecords state.log).length < index + fuel →
      Wal.recoverLoop fuel (index * recordSize) found state =
        (.ok (((wholeRecords state.log).drop index).foldl Wal.Scan.add found), state)
  | 0, _, _, reached, enough => by omega
  | fuel + 1, index, found, reached, enough => by
      have count := wholeRecords_length state.log
      have readBack : Wal.onLog (Medium.readAt (index * recordSize) recordSize) state =
          (.ok (if index * recordSize + recordSize ≤ state.log.length then
            some (slice state.log (index * recordSize) recordSize) else none), state) := by
        unfold Wal.onLog
        rw [Exec.run_zoom, @Medium.readAt_ok ⟨state.log, state.schedule⟩ quiet]
      unfold Wal.recoverLoop
      rw [Exec.bind_ok readBack]
      by_cases more : index < (wholeRecords state.log).length
      · have fits : index * recordSize + recordSize ≤ state.log.length := by
          rw [← Nat.succ_mul]
          exact (Nat.le_div_iff_mul_le recordSize_pos).mp (count ▸ more)
        have head : (wholeRecords state.log).drop index =
            slice state.log (index * recordSize) recordSize ::
              (wholeRecords state.log).drop (index + 1) := by
          rw [List.drop_eq_getElem_cons more]
          congr 1
          simp [wholeRecords]
        rw [if_pos fits, head, List.foldl_cons]
        have next := recoverLoop_ok quiet fuel (index + 1)
          (found.add (slice state.log (index * recordSize) recordSize)) more (by omega)
        rw [Nat.succ_mul] at next
        exact next
      · have outside : ¬ index * recordSize + recordSize ≤ state.log.length := by
          rw [← Nat.succ_mul]
          intro fits
          exact more (count ▸ (Nat.le_div_iff_mul_le recordSize_pos).mpr fits)
        rw [if_neg outside, List.drop_eq_nil_of_le (by omega)]
        rfl

/-- Recovery is a function of the log bytes, and changes nothing. -/
theorem recover_ok {state : WalIo} (quiet : state.schedule = []) :
    Wal.recover state = (.ok (recoveredRecords state.log), state) := by
  have length : Wal.onLog Medium.length state = (.ok state.log.length, state) := by
    unfold Wal.onLog
    rw [Exec.run_zoom, @Medium.length_ok ⟨state.log, state.schedule⟩ quiet]
  have touched : Wal.onLog Medium.touch state = (.ok (), state) := by
    unfold Wal.onLog
    rw [Exec.run_zoom, @Medium.touch_ok ⟨state.log, state.schedule⟩ quiet]
  unfold Wal.recover
  rw [Exec.bind_ok length]
  by_cases empty : state.log.length = 0
  · rw [if_pos empty, List.eq_nil_of_length_eq_zero empty]
    rfl
  · have fuel : (wholeRecords state.log).length < 0 + (state.log.length + 1) := by
      rw [wholeRecords_length]
      have := Nat.div_le_self state.log.length recordSize
      omega
    have looped := recoverLoop_ok quiet (state.log.length + 1) 0 ⟨[], []⟩ (Nat.zero_le _) fuel
    rw [Nat.zero_mul] at looped
    rw [if_neg empty, Exec.bind_ok touched, Exec.bind_ok looped]
    rfl

end MukhiDb.Model
