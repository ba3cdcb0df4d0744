import MukhiDb.Model.BTree

/-!
Contract: reads and writes on a page, and the loops over a page, when they stay
inside of it.

Owns: `part`, the bytes at a position; `put`, the total write; every read and
write of the source as one of the two; reading what was written and what is apart
from it; and one lemma for each loop: a search is a slot, a collection is a list,
and a shift moves every entry of a table one place up.

Does not own: the two page layouts.
-/

namespace MukhiDb.Model

open MukhiDb.Foundation

namespace Page

variable {page : Page} {offset width other : Nat} {data : Bytes}

/-- The bytes at a position. -/
def part (page : Page) (offset width : Nat) : Bytes := slice page.bytes offset width

theorem splice_size (page : Page) {offset : Nat} {data : Bytes}
    (fits : offset + data.length ≤ pageSize) :
    (splice page.bytes offset data).length = pageSize := by
  have size := page.size
  rw [splice_length (by omega)]
  omega

/-- Write inside the page; a write past the end changes nothing. -/
def put (page : Page) (offset : Nat) (data : Bytes) : Page :=
  if fits : offset + data.length ≤ pageSize then
    ⟨splice page.bytes offset data, page.splice_size fits⟩
  else page

theorem number_eq (page : Page) (offset width : Nat) :
    page.number offset width = leValue (page.part offset width) := rfl

theorem key_eq (page : Page) (offset : Nat) : page.key offset = i64Value (page.part offset 8) := rfl

theorem part_length (fits : offset + width ≤ pageSize) : (page.part offset width).length = width :=
  slice_length (by rw [page.size]; exact fits)

theorem part_add (first second : Nat) (fits : offset + first ≤ pageSize) :
    page.part offset (first + second) = page.part offset first ++ page.part (offset + first) second :=
  slice_add page.bytes offset first second (by rw [page.size]; exact fits)

theorem put_bytes (fits : offset + data.length ≤ pageSize) :
    (page.put offset data).bytes = splice page.bytes offset data := by
  unfold put
  rw [dif_pos fits]

/-- What was written is read back. -/
theorem part_put_same (fits : offset + data.length ≤ pageSize) (size : width = data.length) :
    (page.put offset data).part offset width = data := by
  have start : offset ≤ page.bytes.length := by
    rw [page.size]
    omega
  unfold part
  rw [put_bytes fits, size]
  exact slice_splice_same start

/-- Bytes apart from the write stay. -/
theorem part_put_apart (apart : other + width ≤ offset ∨ offset + data.length ≤ other) :
    (page.put offset data).part other width = page.part other width := by
  by_cases fits : offset + data.length ≤ pageSize
  · have start : offset ≤ page.bytes.length := by
      rw [page.size]
      omega
    unfold part
    rw [put_bytes fits]
    exact slice_splice_disjoint start apart
  · unfold put
    rw [dif_neg fits]

/-- The byte at a position is a part of width one. -/
theorem byte_eq (page : Page) (offset : Nat) : page.byte offset = (page.part offset 1).headD 0 := by
  unfold byte part slice
  rw [List.getD_eq_getElem?_getD, List.headD_eq_head?_getD, List.head?_eq_getElem?, List.getElem?_take,
    if_pos Nat.zero_lt_one, List.getElem?_drop, Nat.add_zero]

/-! ### Reads and writes of the source -/

theorem write_eq_put (fits : offset + data.length ≤ pageSize) :
    page.write offset data = .ok (page.put offset data) := by
  unfold write put
  rw [dif_pos fits, dif_pos fits]

end Page

section Access

variable {page : Page} {offset : Nat}

theorem writeU16_eq (value : Nat) (fits : offset + 2 ≤ pageSize) :
    writeU16 page offset value = .ok (page.put offset (leBytes 2 value)) :=
  Page.write_eq_put (by rw [leBytes_length]; exact fits)

theorem writeU32_eq (value : Nat) (fits : offset + 4 ≤ pageSize) :
    writeU32 page offset value = .ok (page.put offset (leBytes 4 value)) :=
  Page.write_eq_put (by rw [leBytes_length]; exact fits)

theorem writeI64_eq (value : Int64) (fits : offset + 8 ≤ pageSize) :
    writeI64 page offset value = .ok (page.put offset (i64Bytes value)) :=
  Page.write_eq_put (by rw [i64Bytes_length]; exact fits)

theorem number_put_same {width value : Nat} (fits : offset + width ≤ pageSize)
    (small : value < 256 ^ width) : (page.put offset (leBytes width value)).number offset width =
      value := by
  rw [Page.number_eq, Page.part_put_same (by rw [leBytes_length]; exact fits)
    (leBytes_length width value).symm, leValue_leBytes_of_lt small]

theorem key_put_same {value : Int64} (fits : offset + 8 ≤ pageSize) :
    (page.put offset (i64Bytes value)).key offset = value := by
  rw [Page.key_eq, Page.part_put_same (by rw [i64Bytes_length]; exact fits)
    (i64Bytes_length value).symm, i64Value_i64Bytes]

end Access

namespace BTree

/-! ### Searching and collecting -/

/-- A search ends at the slot of the key. -/
theorem searchFrom_ok {τ : Type} {keyAt : Nat → Except Fault Int64} {key : Int64}
    {entries : List (Int64 × τ)} {index : Nat}
    (found : ∀ i (inside : i < entries.length), keyAt (index + i) = .ok (entries[i]).1) :
    searchFrom keyAt key entries.length index = .ok (index + slot entries key) := by
  induction entries generalizing index with
  | nil => rfl
  | cons entry rest inductionHypothesis =>
      have head : keyAt index = .ok entry.1 := found 0 (Nat.succ_pos _)
      have tail := @inductionHypothesis (index + 1) fun i inside => by
        have next := found (i + 1) (Nat.succ_lt_succ inside)
        rw [Nat.add_assoc, Nat.add_comm 1 i]
        exact next
      rw [List.length_cons, searchFrom, head]
      change (if entry.1 < key then _ else _) = _
      rw [slot]
      split
      · rw [tail, Nat.add_assoc, Nat.add_comm 1]
      · rfl

/-- A collection is the list of its items. -/
theorem collectFrom_ok {α : Type} {item : Nat → Except Fault α} {items : List α} {index : Nat}
    (found : ∀ i (inside : i < items.length), item (index + i) = .ok items[i]) :
    collectFrom item items.length index = .ok items := by
  induction items generalizing index with
  | nil => rfl
  | cons head rest inductionHypothesis =>
      have first : item index = .ok head := found 0 (Nat.succ_pos _)
      have tail := @inductionHypothesis (index + 1) fun i inside => by
        have next := found (i + 1) (Nat.succ_lt_succ inside)
        rw [Nat.add_assoc, Nat.add_comm 1 i]
        exact next
      rw [List.length_cons, collectFrom, first]
      change (do let rest ← collectFrom item rest.length (index + 1); pure (head :: rest)) = _
      rw [tail]
      rfl

/-! ### Shifting -/

/-- One step of a shift: the entry at `i` is copied to the place above it. -/
def CopiesUp (body : Nat → Page → Except Fault Page) (base stride i : Nat) : Prop :=
  ∀ page : Page, ∃ after, body i page = .ok after ∧
    after.part (base + (i + 1) * stride) stride = page.part (base + i * stride) stride ∧
    ∀ other width, other + width ≤ base + (i + 1) * stride ∨ base + (i + 2) * stride ≤ other →
      after.part other width = page.part other width

/-- A shift moves the entries `start..start + count` of a table one place up and leaves
the bytes apart from them alone. -/
theorem forDown_shift {body : Nat → Page → Except Fault Page} {base stride start count : Nat}
    (copies : ∀ i, start ≤ i → i < start + count → CopiesUp body base stride i) (page : Page) :
    ∃ after, forDown body start count page = .ok after ∧
      (∀ i, start ≤ i → i < start + count →
        after.part (base + (i + 1) * stride) stride = page.part (base + i * stride) stride) ∧
      ∀ other width,
        other + width ≤ base + (start + 1) * stride ∨ base + (start + count + 1) * stride ≤ other →
        after.part other width = page.part other width := by
  induction count generalizing page with
  | zero => exact ⟨page, rfl, fun i above below => absurd below (by omega), fun _ _ _ => rfl⟩
  | succ count inductionHypothesis =>
      obtain ⟨middle, copied, moved, kept⟩ := copies (start + count) (by omega) (by omega) page
      obtain ⟨after, shifted, movedBelow, keptBelow⟩ := inductionHypothesis
        (fun i above below => copies i above (by omega)) middle
      have steps : ∀ low high, low ≤ high → base + low * stride ≤ base + high * stride :=
        fun low high le => Nat.add_le_add_left (Nat.mul_le_mul_right stride le) base
      have next : ∀ i, base + (i + 1) * stride = base + i * stride + stride := fun i => by
        rw [Nat.add_mul, Nat.one_mul, Nat.add_assoc]
      refine ⟨after, ?_, fun i above below => ?_, fun other width apart => ?_⟩
      · rw [forDown, copied]
        exact shifted
      · by_cases last : i = start + count
        · subst last
          rw [keptBelow _ _ (Or.inr (Nat.le_refl _)), moved]
        · rw [movedBelow i above (by omega)]
          refine kept _ _ (Or.inl ?_)
          rw [← next]
          exact steps (i + 1) (start + count + 1) (by omega)
      · have low := steps (start + 1) (start + count + 1) (by omega)
        have high := steps (start + count + 1) (start + count + 2) (by omega)
        have same : start + (count + 1) + 1 = start + count + 2 := by omega
        rw [same] at apart
        rw [keptBelow other width (by omega), kept other width (by omega)]

end BTree

end MukhiDb.Model
