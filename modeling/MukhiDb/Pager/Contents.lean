import Mathlib.Order.MinMax
import MukhiDb.Model.Pager

/-!
Contract: what the pages of an open pager read as.

Owns: the page map of the `.db` file and the working page map seen through the
cache; coherence, the joint invariant of cache, dirty bits, `file_length` and
the real file length; gaps, which are pages below `file_length` that are neither
cached nor in the file; and the preservation of coherence by every operation that
only loads or modifies pages, whatever its outcome.

Does not own: commit, rollback and reopening.
-/

namespace MukhiDb.Model

open MukhiDb.Foundation

/-! ### Page maps -/

/-- Number of whole pages in the `.db` file. -/
def Disk.pageCount (disk : Disk) : Nat := disk.db.length / pageSize

/-- A page of the `.db` file, zeros past its end. -/
def Disk.page (disk : Disk) (index : Nat) : Page :=
  if inside : (index + 1) * pageSize ≤ disk.db.length then
    ⟨slice disk.db (index * pageSize) pageSize, slice_length (by
      rw [Nat.add_mul, Nat.one_mul] at inside
      exact inside)⟩
  else Page.zero

namespace PagerIo

/-- The working contents of a page: the cache entry, else the file. -/
def view (state : PagerIo) (index : Nat) : Page :=
  (state.pager.pages index).getD (state.disk.page index)

/-- Number of pages up to `file_length`. -/
def count (state : PagerIo) : Nat := state.pager.fileLength / pageSize

/-- Every coming I/O call succeeds. -/
def Quiet (state : PagerIo) : Prop := state.schedule = []

/-- A page below `file_length` that loading cannot find. -/
def Gap (state : PagerIo) (index : Nat) : Prop :=
  state.pager.pages index = none ∧ index < state.count ∧ state.disk.pageCount ≤ index

/-- The joint invariant of cache, dirty bits and the two lengths. -/
structure Coherent (state : PagerIo) : Prop where
  fileAligned : state.disk.db.length % pageSize = 0
  lengthAligned : state.pager.fileLength % pageSize = 0
  longer : state.disk.db.length ≤ state.pager.fileLength
  clean : ∀ index page, state.pager.pages index = some page → state.pager.dirty index = false →
    page = state.disk.page index
  dirtyCached : ∀ index, state.pager.dirty index = true → state.pager.pages index ≠ none
  dirtyBelow : ∀ index, state.pager.dirty index = true → index < state.count ∧ index < maxPages
  lastDirty : state.disk.pageCount < state.count → state.pager.dirty (state.count - 1) = true

/-- What is left of coherence when a rollback fails: the length may be too large. -/
structure Consistent (state : PagerIo) : Prop where
  fileAligned : state.disk.db.length % pageSize = 0
  longer : state.disk.db.length ≤ state.pager.fileLength
  clean : ∀ index page, state.pager.pages index = some page → state.pager.dirty index = false →
    page = state.disk.page index
  dirtyCached : ∀ index, state.pager.dirty index = true → state.pager.pages index ≠ none
  dirtyBelow : ∀ index, state.pager.dirty index = true → index < state.count ∧ index < maxPages

theorem Coherent.consistent {state : PagerIo} (coherent : state.Coherent) : state.Consistent where
  fileAligned := coherent.fileAligned
  longer := coherent.longer
  clean := coherent.clean
  dirtyCached := coherent.dirtyCached
  dirtyBelow := coherent.dirtyBelow

/-- What an operation that only loads or modifies pages leaves alone. -/
structure Frame (before after : PagerIo) : Prop where
  disk : after.disk = before.disk
  schedule : after.schedule = before.schedule
  wal : after.pager.wal = before.pager.wal
  inTransaction : after.pager.inTransaction = before.pager.inTransaction

theorem Frame.refl (state : PagerIo) : Frame state state := ⟨rfl, rfl, rfl, rfl⟩

theorem Frame.trans {first second third : PagerIo} (left : Frame first second)
    (right : Frame second third) : Frame first third :=
  ⟨right.disk.trans left.disk, right.schedule.trans left.schedule, right.wal.trans left.wal,
    right.inTransaction.trans left.inTransaction⟩

theorem Frame.quiet {before after : PagerIo} (frame : Frame before after) (quiet : before.Quiet) :
    after.Quiet :=
  frame.schedule.trans quiet

end PagerIo

open PagerIo

/-! ### Lengths -/

theorem pageSize_pos : 0 < pageSize := by decide

theorem Disk.page_inside_iff (disk : Disk) (index : Nat) :
    (index + 1) * pageSize ≤ disk.db.length ↔ index < disk.pageCount := by
  unfold Disk.pageCount
  rw [Nat.lt_iff_add_one_le, Nat.le_div_iff_mul_le pageSize_pos]

theorem Disk.page_of_lt {disk : Disk} {index : Nat} (inside : index < disk.pageCount) :
    (disk.page index).bytes = slice disk.db (index * pageSize) pageSize := by
  unfold Disk.page
  rw [dif_pos ((disk.page_inside_iff index).mpr inside)]

theorem Disk.page_of_le {disk : Disk} {index : Nat} (past : disk.pageCount ≤ index) :
    disk.page index = Page.zero := by
  unfold Disk.page
  rw [dif_neg]
  rw [disk.page_inside_iff]
  omega

theorem PagerIo.within_iff (state : PagerIo) (index : Nat) :
    (index + 1) * pageSize ≤ state.pager.fileLength ↔ index < state.count := by
  unfold PagerIo.count
  rw [Nat.lt_iff_add_one_le, Nat.le_div_iff_mul_le pageSize_pos]

namespace PagerIo

variable {state : PagerIo}

theorem Coherent.fileLength_eq (coherent : state.Coherent) :
    state.pager.fileLength = state.count * pageSize := by
  unfold count
  exact (Nat.div_mul_cancel (Nat.dvd_of_mod_eq_zero coherent.lengthAligned)).symm

theorem Coherent.dbLength_eq (coherent : state.Coherent) :
    state.disk.db.length = state.disk.pageCount * pageSize := by
  unfold Disk.pageCount
  exact (Nat.div_mul_cancel (Nat.dvd_of_mod_eq_zero coherent.fileAligned)).symm

theorem Coherent.pageCount_le (coherent : state.Coherent) : state.disk.pageCount ≤ state.count :=
  Nat.div_le_div_right coherent.longer

theorem Coherent.view_past (coherent : state.Coherent) {index : Nat} (past : state.count ≤ index) :
    state.view index = Page.zero := by
  have pastFile : state.disk.pageCount ≤ index := le_trans coherent.pageCount_le past
  unfold view
  cases cached : state.pager.pages index with
  | none => exact Disk.page_of_le pastFile
  | some page =>
      have clean : state.pager.dirty index = false := by
        by_contra dirty
        have below := (coherent.dirtyBelow index (by simpa using dirty)).1
        omega
      rw [Option.getD_some, coherent.clean index page cached clean]
      exact Disk.page_of_le pastFile

/-! ### The two state changes of loading and modifying -/

theorem view_cachePage (index : Nat) (page : Page) (state : PagerIo) :
    (Pager.cachePage index page state).view = Function.update state.view index page := by
  funext other
  by_cases same : other = index
  · subst same
    simp [view, Pager.cachePage]
  · simp [view, Pager.cachePage, Function.update_of_ne same]

theorem frame_cachePage (index : Nat) (page : Page) (state : PagerIo) :
    Frame state (Pager.cachePage index page state) := ⟨rfl, rfl, rfl, rfl⟩

/-- Caching what a page reads as anyway keeps the state coherent. -/
theorem Coherent.cache_view (coherent : state.Coherent) (index : Nat) :
    (Pager.cachePage index (state.view index) state).Coherent := by
  refine { coherent with clean := ?_, dirtyCached := ?_ }
  · intro other page cached clean
    by_cases same : other = index
    · subst same
      simp only [Pager.cachePage, Function.update_self, Option.some.injEq] at cached
      subst cached
      unfold view
      cases before : state.pager.pages other with
      | none => rfl
      | some page => exact coherent.clean other page before clean
    · simp only [Pager.cachePage, Function.update_of_ne same] at cached
      exact coherent.clean other page cached clean
  · intro other dirty
    by_cases same : other = index
    · subst same
      simp [Pager.cachePage]
    · simp only [Pager.cachePage, Function.update_of_ne same]
      exact coherent.dirtyCached other dirty

/-- A dirty page may hold anything. -/
theorem Consistent.cache_dirty (consistent : state.Consistent) {index : Nat}
    (dirty : state.pager.dirty index = true) (page : Page) :
    (Pager.cachePage index page state).Consistent := by
  refine { consistent with clean := ?_, dirtyCached := ?_ }
  · intro other found cached clean
    have different : other ≠ index := by
      rintro rfl
      simp only [Pager.cachePage] at clean
      rw [dirty] at clean
      contradiction
    simp only [Pager.cachePage, Function.update_of_ne different] at cached
    exact consistent.clean other found cached clean
  · intro other dirtyOther
    by_cases same : other = index
    · subst same
      simp [Pager.cachePage]
    · simp only [Pager.cachePage, Function.update_of_ne same]
      exact consistent.dirtyCached other dirtyOther

theorem Coherent.cache_dirty (coherent : state.Coherent) {index : Nat}
    (dirty : state.pager.dirty index = true) (page : Page) :
    (Pager.cachePage index page state).Coherent :=
  let consistent := coherent.consistent.cache_dirty dirty page
  { coherent with clean := consistent.clean, dirtyCached := consistent.dirtyCached }

theorem view_markDirty (index : Nat) (state : PagerIo) :
    (Pager.markDirty index state).view = state.view := rfl

theorem frame_markDirty (index : Nat) (state : PagerIo) :
    Frame state (Pager.markDirty index state) := ⟨rfl, rfl, rfl, rfl⟩

theorem Coherent.count_markDirty (coherent : state.Coherent) (index : Nat) :
    (Pager.markDirty index state).count = max state.count (index + 1) := by
  have aligned := coherent.fileLength_eq
  have lengths : (Pager.markDirty index state).pager.fileLength =
      max state.count (index + 1) * pageSize := by
    simp only [Pager.markDirty]
    rw [aligned, Nat.mul_max_mul_right]
  rw [count, lengths, Nat.mul_div_cancel _ pageSize_pos]

theorem Consistent.markDirty (consistent : state.Consistent) {index : Nat} (below : index < maxPages)
    (cached : state.pager.pages index ≠ none) : (Pager.markDirty index state).Consistent where
  fileAligned := consistent.fileAligned
  longer := consistent.longer.trans (le_max_left _ _)
  clean := by
    intro other page found clean
    have different : other ≠ index := by
      rintro rfl
      simp [Pager.markDirty] at clean
    simp only [Pager.markDirty, Function.update_of_ne different] at clean
    exact consistent.clean other page found clean
  dirtyCached := by
    intro other dirty
    by_cases same : other = index
    · subst same
      exact cached
    · simp only [Pager.markDirty, Function.update_of_ne same] at dirty
      exact consistent.dirtyCached other dirty
  dirtyBelow := by
    intro other dirty
    rw [← PagerIo.within_iff]
    by_cases same : other = index
    · subst same
      exact ⟨le_max_right _ _, below⟩
    · simp only [Pager.markDirty, Function.update_of_ne same] at dirty
      have old := consistent.dirtyBelow other dirty
      rw [← PagerIo.within_iff] at old
      exact ⟨old.1.trans (le_max_left _ _), old.2⟩

theorem Coherent.markDirty (coherent : state.Coherent) {index : Nat} (below : index < maxPages)
    (cached : state.pager.pages index ≠ none) : (Pager.markDirty index state).Coherent := by
  have counts := coherent.count_markDirty index
  have aligned := coherent.fileLength_eq
  have consistent := coherent.consistent.markDirty below cached
  refine
    { fileAligned := consistent.fileAligned
      lengthAligned := ?_
      longer := consistent.longer
      clean := consistent.clean
      dirtyCached := consistent.dirtyCached
      dirtyBelow := consistent.dirtyBelow
      lastDirty := ?_ }
  · simp only [Pager.markDirty]
    rw [aligned, Nat.mul_max_mul_right, Nat.mul_mod_left]
  · rw [counts]
    intro grown
    by_cases last : index + 1 ≤ state.count
    · rw [max_eq_left last] at grown ⊢
      have dirty := coherent.lastDirty grown
      by_cases same : state.count - 1 = index
      · simp [Pager.markDirty, same]
      · simp only [Pager.markDirty, Function.update_of_ne same]
        exact dirty
    · rw [max_eq_right (by omega)]
      simp [Pager.markDirty]

end PagerIo

end MukhiDb.Model
