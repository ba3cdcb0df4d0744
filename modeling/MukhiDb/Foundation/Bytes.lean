import Mathlib.Algebra.Order.Ring.Nat
import Mathlib.Tactic.Common

/-!
Contract: byte strings, their little-endian numbers, and writes into the middle
of them.

Owns: `leBytes` and `leValue`, which are inverse on a fixed width; `slice`;
`splice`, which replaces bytes in place; and `overwrite`, which first fills the
gap with zeros when the write starts past the end.

Does not own: files, pages, or what the bytes mean.
-/

namespace MukhiDb.Foundation

/-- A byte string. -/
abbrev Bytes := List UInt8

/-! ### Little-endian numbers -/

/-- The `width` low bytes of `value`, least significant first. -/
def leBytes : (width : Nat) → (value : Nat) → Bytes
  | 0, _ => []
  | width + 1, value => UInt8.ofNat (value % 256) :: leBytes width (value / 256)

/-- The number whose bytes, least significant first, are given. -/
def leValue : Bytes → Nat
  | [] => 0
  | byte :: rest => byte.toNat + 256 * leValue rest

@[simp] theorem leBytes_length (width value : Nat) : (leBytes width value).length = width := by
  induction width generalizing value with
  | zero => rfl
  | succ width inductionHypothesis => simp [leBytes, inductionHypothesis]

theorem leValue_leBytes (width value : Nat) :
    leValue (leBytes width value) = value % 256 ^ width := by
  induction width generalizing value with
  | zero => simp [leBytes, leValue, Nat.mod_one]
  | succ width inductionHypothesis =>
      have head : (UInt8.ofNat (value % 256)).toNat = value % 256 := by
        rw [UInt8.toNat_ofNat']
        omega
      rw [leBytes, leValue, head, inductionHypothesis, Nat.pow_succ', Nat.mod_mul]

/-- A number that fits its width is read back. -/
theorem leValue_leBytes_of_lt {width value : Nat} (fits : value < 256 ^ width) :
    leValue (leBytes width value) = value := by
  rw [leValue_leBytes, Nat.mod_eq_of_lt fits]

/-- Four bytes keep the low 32 bits. -/
theorem leValue_leBytes_four (value : Nat) : leValue (leBytes 4 value) = value % 2 ^ 32 := by
  have width : 256 ^ 4 = 2 ^ 32 := by decide
  rw [leValue_leBytes, width]

/-- Eight bytes keep the low 64 bits. -/
theorem leValue_leBytes_eight (value : Nat) : leValue (leBytes 8 value) = value % 2 ^ 64 := by
  have width : 256 ^ 8 = 2 ^ 64 := by decide
  rw [leValue_leBytes, width]

theorem leValue_lt (bytes : Bytes) : leValue bytes < 256 ^ bytes.length := by
  induction bytes with
  | nil => simp [leValue]
  | cons byte rest inductionHypothesis =>
      have head := byte.toNat_lt
      simp only [leValue, List.length_cons, Nat.pow_succ']
      omega

/-- Bytes are the little-endian bytes of their number. -/
theorem leBytes_leValue (bytes : Bytes) : leBytes bytes.length (leValue bytes) = bytes := by
  induction bytes with
  | nil => rfl
  | cons byte rest inductionHypothesis =>
      have small := byte.toNat_lt
      have head : (byte.toNat + 256 * leValue rest) % 256 = byte.toNat := by omega
      have tail : (byte.toNat + 256 * leValue rest) / 256 = leValue rest := by omega
      rw [List.length_cons, leBytes, leValue, head, tail, inductionHypothesis]
      simp

/-! ### Slices -/

/-- The `count` bytes that start at `offset`, fewer at the end of the string. -/
def slice (bytes : Bytes) (offset count : Nat) : Bytes :=
  (bytes.drop offset).take count

theorem slice_length {bytes : Bytes} {offset count : Nat} (fits : offset + count ≤ bytes.length) :
    (slice bytes offset count).length = count := by
  simp only [slice, List.length_take, List.length_drop]
  omega

theorem slice_getElem? (bytes : Bytes) (offset count index : Nat) :
    (slice bytes offset count)[index]? = if index < count then bytes[offset + index]? else none := by
  simp only [slice, List.getElem?_take, List.getElem?_drop]

/-- A slice of a slice. -/
theorem slice_slice {bytes : Bytes} {offset count inner width : Nat}
    (fits : inner + width ≤ count) :
    slice (slice bytes offset count) inner width = slice bytes (offset + inner) width := by
  apply List.ext_getElem?
  intro index
  simp only [slice_getElem?]
  split <;> rename_i below
  · rw [if_pos (by omega), Nat.add_assoc]
  · rfl

/-- A slice in two pieces. -/
theorem slice_add (bytes : Bytes) (offset first second : Nat)
    (fits : offset + first ≤ bytes.length) :
    slice bytes offset (first + second) =
      slice bytes offset first ++ slice bytes (offset + first) second := by
  apply List.ext_getElem?
  intro index
  have length := slice_length fits
  by_cases below : index < first
  · rw [List.getElem?_append_left (by omega)]
    simp only [slice_getElem?]
    rw [if_pos below, if_pos (by omega)]
  · rw [List.getElem?_append_right (by omega), length]
    simp only [slice_getElem?]
    have same : offset + first + (index - first) = offset + index := by omega
    rw [same]
    split <;> rename_i bound
    · rw [if_pos (by omega)]
    · rw [if_neg (by omega)]

/-! ### Writing in place -/

/-- Replace the bytes from `offset` on by `data`. -/
def splice (bytes : Bytes) (offset : Nat) (data : Bytes) : Bytes :=
  bytes.take offset ++ data ++ bytes.drop (offset + data.length)

theorem splice_length {bytes data : Bytes} {offset : Nat} (start : offset ≤ bytes.length) :
    (splice bytes offset data).length = max bytes.length (offset + data.length) := by
  simp only [splice, List.length_append, List.length_take, List.length_drop]
  omega

theorem splice_getElem? {bytes data : Bytes} {offset : Nat} (start : offset ≤ bytes.length)
    (index : Nat) :
    (splice bytes offset data)[index]? =
      if index < offset then bytes[index]?
      else if index < offset + data.length then data[index - offset]?
      else bytes[index]? := by
  have taken : (bytes.take offset).length = offset := by
    simp only [List.length_take]
    omega
  unfold splice
  rw [List.append_assoc]
  split
  · next below =>
      rw [List.getElem?_append_left (by omega), List.getElem?_take_of_lt below]
  · next notBelow =>
      rw [List.getElem?_append_right (by omega), taken]
      split
      · next within => rw [List.getElem?_append_left (by omega)]
      · next beyond =>
          rw [List.getElem?_append_right (by omega), List.getElem?_drop]
          congr 1
          omega

/-- What was written is read back. -/
theorem slice_splice_same {bytes data : Bytes} {offset : Nat} (start : offset ≤ bytes.length) :
    slice (splice bytes offset data) offset data.length = data := by
  apply List.ext_getElem?
  intro index
  rw [slice_getElem?]
  split
  · next below =>
      rw [splice_getElem? start, if_neg (by omega), if_pos (by omega), Nat.add_sub_cancel_left]
  · next beyond => rw [List.getElem?_eq_none (by omega)]

/-- Bytes apart from the write stay. -/
theorem slice_splice_disjoint {bytes data : Bytes} {offset other width : Nat}
    (start : offset ≤ bytes.length)
    (apart : other + width ≤ offset ∨ offset + data.length ≤ other) :
    slice (splice bytes offset data) other width = slice bytes other width := by
  apply List.ext_getElem?
  intro index
  simp only [slice_getElem?]
  split
  · next below =>
      rw [splice_getElem? start]
      rcases apart with before | after
      · rw [if_pos (by omega)]
      · rw [if_neg (by omega), if_neg (by omega)]
  · rfl

/-- Two writes in a row are one. -/
theorem splice_splice {bytes first second : Bytes} {offset : Nat}
    (fits : offset + first.length + second.length ≤ bytes.length) :
    splice (splice bytes offset first) (offset + first.length) second =
      splice bytes offset (first ++ second) := by
  have length : (splice bytes offset first).length = bytes.length := by
    rw [splice_length (by omega)]
    omega
  apply List.ext_getElem?
  intro index
  rw [splice_getElem? (by omega), splice_getElem? (by omega), splice_getElem? (by omega),
    List.length_append, List.getElem?_append]
  split
  · split
    · rfl
    · next past => rw [if_pos (by omega), if_pos (by omega)]
  · split
    · rw [if_neg (by omega), if_pos (by omega), if_neg (by omega)]
      congr 1
      omega
    · rw [if_neg (by omega), if_neg (by omega), if_neg (by omega)]

/-! ### Writing past the end -/

/-- Write `data` at `offset`, filling a gap after the old end with zeros.
Writing no bytes changes nothing. -/
def overwrite (bytes : Bytes) (offset : Nat) (data : Bytes) : Bytes :=
  if data = [] then bytes
  else splice (bytes ++ List.replicate (offset - bytes.length) 0) offset data

@[simp] theorem overwrite_nil (bytes : Bytes) (offset : Nat) : overwrite bytes offset [] = bytes := by
  simp [overwrite]

private theorem padded_start (bytes : Bytes) (offset : Nat) :
    offset ≤ (bytes ++ List.replicate (offset - bytes.length) (0 : UInt8)).length := by
  simp only [List.length_append, List.length_replicate]
  omega

theorem overwrite_length {bytes data : Bytes} {offset : Nat} (some : data ≠ []) :
    (overwrite bytes offset data).length = max bytes.length (offset + data.length) := by
  unfold overwrite
  rw [if_neg some, splice_length (padded_start bytes offset)]
  simp only [List.length_append, List.length_replicate]
  have := List.length_pos_iff.mpr some
  omega

theorem overwrite_getElem? {bytes data : Bytes} {offset : Nat} (some : data ≠ []) (index : Nat) :
    (overwrite bytes offset data)[index]? =
      if index < offset then (if index < bytes.length then bytes[index]? else Option.some 0)
      else if index < offset + data.length then data[index - offset]?
      else bytes[index]? := by
  unfold overwrite
  rw [if_neg some, splice_getElem? (padded_start bytes offset)]
  split
  · next below =>
      split
      · next inside => rw [List.getElem?_append_left inside]
      · next outside =>
          rw [List.getElem?_append_right (by omega), List.getElem?_replicate, if_pos (by omega)]
  · next notBelow =>
      split
      · rfl
      · next beyond =>
          by_cases inside : index < bytes.length
          · rw [List.getElem?_append_left inside]
          · rw [List.getElem?_append_right (by omega), List.getElem?_replicate, if_neg (by omega),
              List.getElem?_eq_none (by omega)]

/-- What was written is read back. -/
theorem slice_overwrite_same (bytes data : Bytes) (offset : Nat) :
    slice (overwrite bytes offset data) offset data.length = data := by
  by_cases none : data = []
  · subst none
    simp [slice]
  · unfold overwrite
    rw [if_neg none, slice_splice_same (padded_start bytes offset)]

/-- Bytes of the old string apart from the write stay. -/
theorem slice_overwrite_disjoint {bytes data : Bytes} {offset other width : Nat}
    (inside : other + width ≤ bytes.length)
    (apart : other + width ≤ offset ∨ offset + data.length ≤ other) :
    slice (overwrite bytes offset data) other width = slice bytes other width := by
  by_cases none : data = []
  · simp [none]
  · apply List.ext_getElem?
    intro index
    simp only [slice_getElem?]
    split
    · next below =>
        rw [overwrite_getElem? none]
        rcases apart with before | after
        · rw [if_pos (by omega), if_pos (by omega)]
        · rw [if_neg (by omega), if_neg (by omega)]
    · rfl

/-! ### Reading on -/

/-- `tail` is what lies behind the offset. -/
structure Ahead (buf : Bytes) (off : Nat) (tail : Bytes) : Prop where
  within : off ≤ buf.length
  rest : buf.drop off = tail

section Ahead

variable {buf front tail : Bytes} {off : Nat}

theorem Ahead.start (buf : Bytes) : Ahead buf 0 buf := ⟨Nat.zero_le _, rfl⟩

theorem Ahead.length (ahead : Ahead buf off (front ++ tail)) :
    off + front.length ≤ buf.length := by
  have total := congrArg List.length ahead.rest
  have within := ahead.within
  rw [List.length_drop, List.length_append] at total
  omega

/-- Past the front lies the tail. -/
theorem Ahead.skip (ahead : Ahead buf off (front ++ tail)) :
    Ahead buf (off + front.length) tail where
  within := ahead.length
  rest := by rw [← List.drop_drop, ahead.rest, List.drop_left]

theorem Ahead.slice (ahead : Ahead buf off (front ++ tail)) :
    slice buf off front.length = front := by
  unfold Foundation.slice
  rw [ahead.rest, List.take_left]

/-- Behind the start of a write lies what was written. -/
theorem Ahead.splice {bytes data : Bytes} {offset : Nat} (start : offset ≤ bytes.length) :
    Ahead (Foundation.splice bytes offset data) offset
      (data ++ bytes.drop (offset + data.length)) where
  within := by
    rw [splice_length start]
    omega
  rest := by
    unfold Foundation.splice
    rw [List.append_assoc]
    exact List.drop_left' (List.length_take_of_le start)

end Ahead

end MukhiDb.Foundation
