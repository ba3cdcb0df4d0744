import Mathlib.Order.Lattice
import MukhiDb.Pager.Contents

/-!
Contract: whole-page writes to a `.db` file.

Owns: the effect of writing one page, and a list of pages in order, on the page
map and the page count of the file. A write past the end fills the pages between
with zeros, which is what they read as before.

Does not own: which pages are written, or when.
-/

namespace MukhiDb.Model

open MukhiDb.Foundation

namespace Disk

/-- The file ends on a page boundary. -/
def Aligned (disk : Disk) : Prop := disk.db.length % pageSize = 0

/-- Write one page. -/
def put (disk : Disk) (index : Nat) (page : Page) : Disk :=
  { disk with db := overwrite disk.db (index * pageSize) page.bytes }

/-- Write pages in order. -/
def putAll (disk : Disk) (writes : List (Nat × Page)) : Disk :=
  writes.foldl (fun disk write => disk.put write.1 write.2) disk

variable {disk : Disk} {index : Nat} {page : Page}

theorem Aligned.length_eq (aligned : disk.Aligned) :
    disk.db.length = disk.pageCount * pageSize :=
  (Nat.div_mul_cancel (Nat.dvd_of_mod_eq_zero aligned)).symm

theorem page_bytes_ne_nil (page : Page) : page.bytes ≠ [] := by
  intro empty
  have size := page.size
  rw [empty] at size
  exact absurd size (by decide)

theorem put_length (disk : Disk) (index : Nat) (page : Page) :
    (disk.put index page).db.length = max disk.db.length ((index + 1) * pageSize) := by
  unfold put
  dsimp only
  rw [overwrite_length (page_bytes_ne_nil page), page.size, Nat.succ_mul]

@[simp] theorem put_log (disk : Disk) (index : Nat) (page : Page) :
    (disk.put index page).log = disk.log := rfl

theorem Aligned.put (aligned : disk.Aligned) (index : Nat) (page : Page) :
    (disk.put index page).Aligned := by
  unfold Aligned
  rw [put_length, aligned.length_eq, Nat.mul_max_mul_right, Nat.mul_mod_left]

theorem Aligned.pageCount_put (aligned : disk.Aligned) (index : Nat) (page : Page) :
    (disk.put index page).pageCount = max disk.pageCount (index + 1) := by
  have length := put_length disk index page
  rw [aligned.length_eq, Nat.mul_max_mul_right] at length
  rw [pageCount, length, Nat.mul_div_cancel _ pageSize_pos]

/-- Writing a page changes that page and no other. -/
theorem Aligned.page_put (aligned : disk.Aligned) (index : Nat) (page : Page) :
    (disk.put index page).page = Function.update disk.page index page := by
  have count := aligned.pageCount_put index page
  funext other
  by_cases same : other = index
  · subst same
    rw [Function.update_self]
    apply Page.ext
    have inside : other < (disk.put other page).pageCount := by omega
    rw [page_of_lt inside]
    have written := slice_overwrite_same disk.db page.bytes (other * pageSize)
    rw [page.size] at written
    exact written
  · rw [Function.update_of_ne same]
    have apart : other * pageSize + pageSize ≤ index * pageSize ∨
        index * pageSize + page.bytes.length ≤ other * pageSize := by
      rw [page.size, ← Nat.succ_mul, ← Nat.succ_mul]
      rcases Nat.lt_or_gt_of_ne same with before | after
      · exact Or.inl (Nat.mul_le_mul_right _ before)
      · exact Or.inr (Nat.mul_le_mul_right _ after)
    by_cases inside : other < disk.pageCount
    · -- a page of the old file
      apply Page.ext
      have fits : other * pageSize + pageSize ≤ disk.db.length := by
        rw [← Nat.succ_mul]
        exact (disk.page_inside_iff other).mpr inside
      rw [page_of_lt (by omega), page_of_lt inside]
      exact slice_overwrite_disjoint fits apart
    · rw [page_of_le (Nat.le_of_not_lt inside)]
      by_cases gap : other < index
      · -- a page of the gap that the write filled with zeros
        apply Page.ext
        rw [page_of_lt (by omega)]
        apply List.ext_getElem?
        intro position
        rw [slice_getElem?]
        change _ = (List.replicate pageSize (0 : UInt8))[position]?
        rw [List.getElem?_replicate]
        split
        · next below =>
            have outside : disk.db.length ≤ other * pageSize := by
              rw [aligned.length_eq]
              exact Nat.mul_le_mul_right _ (Nat.le_of_not_lt inside)
            have before : other * pageSize + pageSize ≤ index * pageSize := by
              rw [← Nat.succ_mul]
              exact Nat.mul_le_mul_right _ gap
            change (overwrite disk.db (index * pageSize) page.bytes)[_]? = _
            rw [overwrite_getElem? (page_bytes_ne_nil page), if_pos (by omega),
              if_neg (by omega)]
        · rfl
      · exact page_of_le (by omega)

@[simp] theorem putAll_log (disk : Disk) (writes : List (Nat × Page)) :
    (disk.putAll writes).log = disk.log := by
  induction writes generalizing disk with
  | nil => rfl
  | cons write rest inductionHypothesis =>
      exact (inductionHypothesis (disk.put write.1 write.2)).trans (put_log disk _ _)

theorem putAll_cons (disk : Disk) (write : Nat × Page) (rest : List (Nat × Page)) :
    disk.putAll (write :: rest) = (disk.put write.1 write.2).putAll rest := rfl

theorem putAll_append (disk : Disk) (left right : List (Nat × Page)) :
    disk.putAll (left ++ right) = (disk.putAll left).putAll right :=
  List.foldl_append

/-- The log plays no part in page writes. -/
theorem putAll_db (db log other : Bytes) (writes : List (Nat × Page)) :
    (putAll ⟨db, log⟩ writes).db = (putAll ⟨db, other⟩ writes).db := by
  induction writes generalizing db with
  | nil => rfl
  | cons write rest inductionHypothesis => exact inductionHypothesis _

theorem Aligned.putAll (aligned : disk.Aligned) (writes : List (Nat × Page)) :
    (disk.putAll writes).Aligned := by
  induction writes generalizing disk with
  | nil => exact aligned
  | cons write rest inductionHypothesis => exact inductionHypothesis (aligned.put write.1 write.2)

/-- The page map after writing pages in order: the last write of a page wins. -/
theorem Aligned.page_putAll (aligned : disk.Aligned) (writes : List (Nat × Page)) :
    (disk.putAll writes).page =
      writes.foldl (fun pages write => Function.update pages write.1 write.2) disk.page := by
  induction writes generalizing disk with
  | nil => rfl
  | cons write rest inductionHypothesis =>
      rw [putAll_cons, inductionHypothesis (aligned.put write.1 write.2),
        aligned.page_put write.1 write.2, List.foldl_cons]

/-- Pages that agree wherever no page is written agree after the writes. -/
theorem Aligned.page_putAll_congr {other : Disk} (aligned : disk.Aligned)
    (alignedOther : other.Aligned) {writes : List (Nat × Page)}
    (same : ∀ index, (∀ write ∈ writes, write.1 ≠ index) → disk.page index = other.page index) :
    (disk.putAll writes).page = (other.putAll writes).page := by
  induction writes generalizing disk other with
  | nil => exact funext fun index => same index (by simp)
  | cons write rest inductionHypothesis =>
      refine inductionHypothesis (aligned.put _ _) (alignedOther.put _ _) fun index apart => ?_
      rw [aligned.page_put, alignedOther.page_put]
      by_cases written : index = write.1
      · subst written
        rw [Function.update_self, Function.update_self]
      · rw [Function.update_of_ne written, Function.update_of_ne written]
        refine same index fun found member => ?_
        rcases List.mem_cons.mp member with rfl | later
        · exact Ne.symm written
        · exact apart found later

/-- A page that is not written stays. -/
theorem Aligned.page_putAll_of_apart (aligned : disk.Aligned) {writes : List (Nat × Page)}
    {index : Nat} (apart : ∀ write ∈ writes, write.1 ≠ index) :
    (disk.putAll writes).page index = disk.page index := by
  induction writes generalizing disk with
  | nil => rfl
  | cons write rest inductionHypothesis =>
      rw [putAll_cons, inductionHypothesis (aligned.put _ _)
        fun other member => apart other (List.mem_cons_of_mem _ member), aligned.page_put,
        Function.update_of_ne (apart write List.mem_cons_self).symm]

theorem Aligned.pageCount_putAll_le (aligned : disk.Aligned) (writes : List (Nat × Page))
    (bound : Nat) :
    (disk.putAll writes).pageCount ≤ bound ↔
      disk.pageCount ≤ bound ∧ ∀ write ∈ writes, write.1 < bound := by
  induction writes generalizing disk with
  | nil => simp [Disk.putAll]
  | cons write rest inductionHypothesis =>
      rw [putAll_cons, inductionHypothesis (aligned.put write.1 write.2),
        aligned.pageCount_put write.1 write.2]
      simp only [List.mem_cons, forall_eq_or_imp, max_le_iff, Nat.lt_iff_add_one_le, and_assoc]

/-- Files of whole pages with the same pages are the same. -/
theorem Aligned.db_ext {other : Disk} (aligned : disk.Aligned) (alignedOther : other.Aligned)
    (count : disk.pageCount = other.pageCount) (pages : disk.page = other.page) :
    disk.db = other.db := by
  have length : disk.db.length = other.db.length := by
    rw [aligned.length_eq, alignedOther.length_eq, count]
  apply List.ext_getElem?
  intro position
  by_cases inside : position < disk.db.length
  · have within : position / pageSize < disk.pageCount :=
      Nat.div_lt_of_lt_mul (by rw [Nat.mul_comm, ← aligned.length_eq]; exact inside)
    have part (db : Bytes) : (slice db (position / pageSize * pageSize) pageSize)[position % pageSize]? =
        db[position]? := by
      rw [slice_getElem?, if_pos (Nat.mod_lt _ pageSize_pos), Nat.div_add_mod']
    have same := congrArg Page.bytes (congrFun pages (position / pageSize))
    rw [page_of_lt within, page_of_lt (count ▸ within)] at same
    rw [← part disk.db, ← part other.db]
    exact congrArg (·[position % pageSize]?) same
  · rw [List.getElem?_eq_none (Nat.le_of_not_lt inside),
      List.getElem?_eq_none (length ▸ Nat.le_of_not_lt inside)]

/-- Page writes may be begun before they are all made. -/
theorem Aligned.putAll_again (aligned : disk.Aligned) {part writes : List (Nat × Page)}
    (among : ∀ write ∈ part, write ∈ writes) :
    (disk.putAll part).putAll writes = disk.putAll writes := by
  have count : ((disk.putAll part).putAll writes).pageCount = (disk.putAll writes).pageCount := by
    refine eq_of_forall_ge_iff fun bound => ?_
    rw [(aligned.putAll part).pageCount_putAll_le, aligned.pageCount_putAll_le,
      aligned.pageCount_putAll_le]
    exact ⟨fun all => ⟨all.1.1, all.2⟩,
      fun all => ⟨⟨all.1, fun write member => all.2 write (among write member)⟩, all.2⟩⟩
  have pages : ((disk.putAll part).putAll writes).page = (disk.putAll writes).page :=
    (aligned.putAll part).page_putAll_congr aligned fun index apart =>
      aligned.page_putAll_of_apart fun write member => apart write (among write member)
  have db := ((aligned.putAll part).putAll writes).db_ext (aligned.putAll writes) count pages
  have log : ((disk.putAll part).putAll writes).log = (disk.putAll writes).log := by simp
  exact congrArg₂ Disk.mk db log

/-! ### Torn page writes -/

/-- Write the first `bytes` bytes of a page. -/
def tear (disk : Disk) (index : Nat) (page : Page) (bytes : Nat) : Disk :=
  { disk with db := overwrite disk.db (index * pageSize) (page.bytes.take bytes) }

theorem tear_none (disk : Disk) (index : Nat) (page : Page) : disk.tear index page 0 = disk := by
  unfold tear
  rw [List.take_zero, overwrite_nil]

theorem tear_whole (disk : Disk) (index : Nat) {page : Page} {bytes : Nat}
    (whole : pageSize ≤ bytes) : disk.tear index page bytes = disk.put index page := by
  unfold tear put
  rw [List.take_of_length_le (page.size.trans_le whole)]

section Partial

variable {bytes : Nat} (some : 0 < bytes) (partway : bytes < pageSize)

include some partway

theorem tear_length (disk : Disk) (index : Nat) (page : Page) :
    (disk.tear index page bytes).db.length = max disk.db.length (index * pageSize + bytes) := by
  have size : (page.bytes.take bytes).length = bytes := by
    rw [List.length_take, page.size]
    omega
  have written : page.bytes.take bytes ≠ [] := by
    intro empty
    rw [empty] at size
    exact absurd size (by simp; omega)
  unfold tear
  dsimp only
  rw [overwrite_length written, size]

/-- A torn write inside the file keeps its length. -/
theorem Aligned.tear_inside (aligned : disk.Aligned) (inside : index < disk.pageCount) :
    (disk.tear index page bytes).Aligned := by
  have fits := (disk.page_inside_iff index).mpr inside
  rw [Nat.succ_mul] at fits
  unfold Aligned
  rw [tear_length some partway, max_eq_left (by omega)]
  exact aligned

/-- A torn write past the end leaves a file that ends inside a page. -/
theorem Aligned.tear_past (aligned : disk.Aligned) (past : disk.pageCount ≤ index) :
    ¬ (disk.tear index page bytes).Aligned := by
  have starts : disk.db.length ≤ index * pageSize := by
    rw [aligned.length_eq]
    exact Nat.mul_le_mul_right _ past
  unfold Aligned
  rw [tear_length some partway, max_eq_right (by omega), Nat.add_comm, Nat.add_mul_mod_self_right,
    Nat.mod_eq_of_lt partway]
  omega

/-- A torn write inside the file leaves the other pages. -/
theorem page_tear (inside : index < disk.pageCount) {other : Nat} (apart : other ≠ index) :
    (disk.tear index page bytes).page other = disk.page other := by
  have fits := (disk.page_inside_iff index).mpr inside
  rw [Nat.succ_mul] at fits
  have sameLength : (disk.tear index page bytes).db.length = disk.db.length := by
    rw [tear_length some partway, max_eq_left (by omega)]
  have sameCount : (disk.tear index page bytes).pageCount = disk.pageCount := by
    unfold pageCount
    rw [sameLength]
  by_cases within : other < disk.pageCount
  · apply Page.ext
    have fitsOther := (disk.page_inside_iff other).mpr within
    rw [Nat.succ_mul] at fitsOther
    rw [page_of_lt (by omega), page_of_lt within]
    refine slice_overwrite_disjoint fitsOther ?_
    have size : (page.bytes.take bytes).length ≤ pageSize := by
      rw [List.length_take]
      omega
    rcases Nat.lt_or_gt_of_ne apart with before | after
    · refine Or.inl ?_
      rw [← Nat.succ_mul]
      exact Nat.mul_le_mul_right _ before
    · refine Or.inr (Nat.le_trans (Nat.add_le_add_left size _) ?_)
      rw [← Nat.succ_mul]
      exact Nat.mul_le_mul_right _ after
  · rw [page_of_le (by omega), page_of_le (Nat.le_of_not_lt within)]

end Partial

end Disk

end MukhiDb.Model
