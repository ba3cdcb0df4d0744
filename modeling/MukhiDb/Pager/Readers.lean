import MukhiDb.Pager.Access
import MukhiDb.Pager.Opening
import MukhiDb.Foundation.Runs
import MukhiDb.Pager.Reading

/-!
Contract: readers that scan one table at the same time.

Owns: the critical sections of `read_page`, with the cursor of the file that the
readers share; the system whose steps are these sections in any order; and the
invariant that the cache keeps its entries and gains only what a lone reader
would read.

Does not own: writers, which the read lock keeps out, and I/O calls that fail.
-/

namespace MukhiDb.Model

open MukhiDb.Foundation

/-! ### The critical sections of `read_page` -/

/-- A pager that several readers share. `cursor` is the position of its file handle. -/
structure SharedPager where
  pager : Pager
  disk : Disk
  cursor : Nat

namespace SharedPager

/-- The pager as one reader alone has it. -/
def alone (shared : SharedPager) : PagerIo := ⟨shared.pager, shared.disk, []⟩

/-- `file.seek(SeekFrom::Start(offset))`. -/
def seek (offset : Nat) : Exec SharedPager Unit :=
  Exec.modify fun shared => { shared with cursor := offset }

/-- `file.read_exact(&mut buf)` of one page at the cursor. A short read stops at the
end of the file. -/
def readExact : Exec SharedPager Page := fun shared =>
  if fits : shared.cursor + pageSize ≤ shared.disk.db.length then
    (.ok ⟨slice shared.disk.db shared.cursor pageSize, slice_length fits⟩,
      { shared with cursor := shared.cursor + pageSize })
  else
    (.error (.error "failed to fill whole buffer"),
      { shared with cursor := max shared.cursor shared.disk.db.length })

/-- The section that holds the file lock, entered for pages up to `file_length`. -/
def readFile (pageNum : Nat) : Exec SharedPager Page := do
  let shared ← Exec.get
  if (pageNum + 1) * pageSize ≤ shared.pager.fileLength then
    seek (pageNum * pageSize)
    readExact
  else pure Page.zero

/-- The section that stores a page in the cache. -/
def insert (pageNum : Nat) (page : Page) (shared : SharedPager) : SharedPager :=
  { shared with
    pager := { shared.pager with pages := Function.update shared.pager.pages pageNum (some page) } }

end SharedPager

/-- Where a reader stands: between calls of `read_page`, before the file section of
a call that missed, or before the insert section of one that has read. -/
inductive Reader (α : Type) where
  | between (program : PageProgram α)
  | missed (pageNum : Nat) (next : Page → PageProgram α)
  | hasRead (pageNum : Nat) (page : Page) (next : Page → PageProgram α)

/-- A call of `read_page` that returns, with the page number it was called with. -/
abbrev ReadReturn := Nat × Except Fault Page

namespace Reader

variable {α : Type}

/-- The next critical section of a reader: what returns in it, the reader after it
and the pager after it. A reader that is done has none. -/
def step (reader : Reader α) (shared : SharedPager) :
    Option (Option ReadReturn × Reader α × SharedPager) :=
  match reader with
  | between (.load pageNum next) =>
      if maxPages ≤ pageNum then
        let refusal : Fault := .error (Pager.pageLimitMessage pageNum)
        some (some (pageNum, .error refusal), between (.result (.error refusal)), shared)
      else
        match shared.pager.pages pageNum with
        | some page => some (some (pageNum, .ok page), between (next page), shared)
        | none => some (none, missed pageNum next, shared)
  | between _ => none
  | missed pageNum next =>
      match SharedPager.readFile pageNum shared with
      | (.ok page, after) => some (none, hasRead pageNum page next, after)
      | (.error fault, after) =>
          some (some (pageNum, .error fault), between (.result (.error fault)), after)
  | hasRead pageNum page next =>
      some (some (pageNum, .ok page), between (next page), shared.insert pageNum page)

end Reader

/-- Readers, one for each name, and the pager they share. -/
structure Readers (ι α : Type) where
  reader : ι → Reader α
  shared : SharedPager

/-- Any one reader takes its next critical section. -/
def Readers.Step {ι α : Type} [DecidableEq ι] (before : Readers ι α)
    (label : ι × Option ReadReturn) (after : Readers ι α) : Prop :=
  ∃ reader, (before.reader label.1).step before.shared = some (label.2, reader, after.shared) ∧
    after.reader = Function.update before.reader label.1 reader

/-- Every reader is about to scan a tree. -/
def Readers.scanning {ι : Type} (roots : ι → Nat) (shared : SharedPager) :
    Readers ι (List Bytes) :=
  ⟨fun name => .between (BTree.scanAll (roots name)), shared⟩

/-! ### A lone reader -/

namespace SharedPager

/-- What a page reads as in the file, zeros past `file_length`. -/
def contents (shared : SharedPager) (index : Nat) : Page :=
  if (index + 1) * pageSize ≤ shared.pager.fileLength then shared.disk.page index else Page.zero

/-- Clean entries of the cache equal the file, and dirty pages are cached. -/
structure Consistent (shared : SharedPager) : Prop where
  clean : ∀ index page, shared.pager.pages index = some page →
    shared.pager.dirty index = false → page = shared.contents index
  dirty : ∀ index, shared.pager.dirty index = true → shared.pager.pages index ≠ none

/-- What a lone reader gets from `read_page`. -/
def answer (shared : SharedPager) (index : Nat) : Except Fault Page :=
  (Pager.readPage index shared.alone).1

variable {shared start : SharedPager} {index : Nat} {page : Page}

theorem answer_limit (beyond : maxPages ≤ index) :
    shared.answer index = .error (.error (Pager.pageLimitMessage index)) := by
  unfold answer Pager.readPage Pager.loadPage
  rw [if_pos beyond]
  rfl

theorem answer_cached (below : ¬ maxPages ≤ index) (cached : shared.pager.pages index = some page) :
    shared.answer index = .ok page := by
  have aloneCached : shared.alone.pager.pages index = some page := cached
  unfold answer Pager.readPage Pager.loadPage
  rw [if_neg below, Exec.bind_ok (Exec.run_get _), aloneCached]
  rfl

theorem readFile_within (within : (index + 1) * pageSize ≤ shared.pager.fileLength) :
    readFile index shared = readExact { shared with cursor := index * pageSize } := by
  unfold readFile
  rw [Exec.bind_ok (Exec.run_get _), if_pos within]
  rfl

theorem readFile_past (past : ¬ (index + 1) * pageSize ≤ shared.pager.fileLength) :
    readFile index shared = (.ok Page.zero, shared) := by
  unfold readFile
  rw [Exec.bind_ok (Exec.run_get _), if_neg past]
  rfl

/-- Fetching a page alone returns what the file section returns. -/
theorem fetch_alone (shared : SharedPager) (index : Nat) :
    Pager.fetch index shared.alone = ((readFile index shared).1, shared.alone) := by
  have quiet : shared.alone.Quiet := rfl
  unfold Pager.fetch
  rw [Exec.bind_ok (Exec.run_get _)]
  by_cases within : (index + 1) * pageSize ≤ shared.pager.fileLength
  · rw [if_pos (show (index + 1) * pageSize ≤ shared.alone.pager.fileLength from within),
      readFile_within within, Exec.bind_ok (PagerIo.onFile_touch quiet),
      Exec.bind_ok (PagerIo.onFile_readAt quiet _ _)]
    unfold readExact
    by_cases fits : index * pageSize + pageSize ≤ shared.disk.db.length
    · rw [if_pos (show _ ≤ shared.alone.disk.db.length from fits), dif_pos fits]
      have size : (slice shared.alone.disk.db (index * pageSize) pageSize).length = pageSize :=
        slice_length fits
      dsimp only
      rw [dif_pos size]
      rfl
    · rw [if_neg (show ¬ _ ≤ shared.alone.disk.db.length from fits), dif_neg fits]
      rfl
  · rw [if_neg (show ¬ _ ≤ shared.alone.pager.fileLength from within), readFile_past within]
    rfl

theorem answer_missing (below : ¬ maxPages ≤ index) (missing : shared.pager.pages index = none) :
    shared.answer index = (readFile index shared).1 := by
  have aloneMissing : shared.alone.pager.pages index = none := missing
  unfold answer Pager.readPage Pager.loadPage
  rw [if_neg below, Exec.bind_ok (Exec.run_get _), aloneMissing]
  dsimp only
  rcases read : (readFile index shared).1 with fault | page
  · rw [Exec.bind_error ((fetch_alone shared index).trans (by rw [read]))]
  · rw [Exec.bind_ok ((fetch_alone shared index).trans (by rw [read]))]
    rfl

/-- The file section reads the contents of the page. -/
theorem readFile_contents (ran : (readFile index shared).1 = .ok page) :
    page = shared.contents index := by
  unfold contents
  by_cases within : (index + 1) * pageSize ≤ shared.pager.fileLength
  · rw [readFile_within within] at ran
    rw [if_pos within]
    unfold readExact at ran
    by_cases fits : index * pageSize + pageSize ≤ shared.disk.db.length
    · rw [dif_pos fits] at ran
      have inside : index < shared.disk.pageCount := by
        rw [← Nat.succ_mul] at fits
        exact (shared.disk.page_inside_iff index).mp fits
      rw [← Except.ok.inj ran]
      exact Page.ext (Disk.page_of_lt inside).symm
    · rw [dif_neg fits] at ran
      exact absurd ran (by simp)
  · rw [readFile_past within] at ran
    rw [if_neg within]
    exact (Except.ok.inj ran).symm

/-- The file section moves only the cursor. -/
theorem readFile_after (index : Nat) (shared : SharedPager) :
    (readFile index shared).2.pager = shared.pager ∧ (readFile index shared).2.disk = shared.disk := by
  by_cases within : (index + 1) * pageSize ≤ shared.pager.fileLength
  · rw [readFile_within within]
    unfold readExact
    split <;> exact ⟨rfl, rfl⟩
  · rw [readFile_past within]
    exact ⟨rfl, rfl⟩

/-! ### What the readers keep -/

/-- The cache has kept its entries, and new ones are what the file section reads;
the rest of the pager and the file are as at the start. -/
structure Extends (start shared : SharedPager) : Prop where
  disk : shared.disk = start.disk
  fileLength : shared.pager.fileLength = start.pager.fileLength
  dirty : shared.pager.dirty = start.pager.dirty
  entry : ∀ index, shared.pager.pages index = start.pager.pages index ∨
    start.pager.pages index = none ∧
      ∃ page, (readFile index start).1 = .ok page ∧ shared.pager.pages index = some page

theorem extends_refl (start : SharedPager) : Extends start start :=
  ⟨rfl, rfl, rfl, fun _ => Or.inl rfl⟩

variable (extended : Extends start shared)

include extended

theorem Extends.readFile (index : Nat) :
    (readFile index shared).1 = (SharedPager.readFile index start).1 := by
  have lengths := extended.fileLength
  by_cases within : (index + 1) * pageSize ≤ start.pager.fileLength
  · rw [readFile_within within, readFile_within (lengths ▸ within)]
    simp only [readExact, extended.disk]
    split <;> rfl
  · rw [readFile_past within, readFile_past (lengths ▸ within)]

theorem Extends.missing (missing : shared.pager.pages index = none) :
    start.pager.pages index = none := by
  rcases extended.entry index with same | ⟨none, -⟩
  · rw [← same, missing]
  · exact none

/-- A cached page is what a lone reader gets. -/
theorem Extends.cached (below : ¬ maxPages ≤ index)
    (cached : shared.pager.pages index = some page) : start.answer index = .ok page := by
  rcases extended.entry index with same | ⟨none, read, ran, found⟩
  · exact answer_cached below (same ▸ cached)
  · rw [answer_missing below none, ran]
    rw [found] at cached
    exact congrArg _ (Option.some.inj cached)

theorem Extends.afterRead (index : Nat) : Extends start (SharedPager.readFile index shared).2 := by
  obtain ⟨pager, disk⟩ := readFile_after index shared
  exact ⟨disk.trans extended.disk, pager ▸ extended.fileLength, pager ▸ extended.dirty,
    pager ▸ extended.entry⟩

theorem Extends.insert (missing : start.pager.pages index = none)
    (ran : (SharedPager.readFile index start).1 = .ok page) :
    Extends start (shared.insert index page) where
  disk := extended.disk
  fileLength := extended.fileLength
  dirty := extended.dirty
  entry := by
    intro other
    by_cases same : other = index
    · subst same
      exact Or.inr ⟨missing, page, ran, Function.update_self _ _ _⟩
    · have kept := extended.entry other
      rwa [← show (shared.insert index page).pager.pages other = shared.pager.pages other from
        Function.update_of_ne same _ _] at kept

/-- Dirty pages are not overwritten. -/
theorem Extends.dirtyKept (consistent : start.Consistent)
    (dirty : start.pager.dirty index = true) :
    shared.pager.pages index = start.pager.pages index := by
  rcases extended.entry index with same | ⟨none, -⟩
  · exact same
  · exact absurd none (consistent.dirty index dirty)

/-- The starting condition still holds. -/
theorem Extends.consistent (consistent : start.Consistent) : shared.Consistent where
  clean := by
    intro index page cached clean
    have contents : shared.contents index = start.contents index := by
      unfold SharedPager.contents
      rw [extended.fileLength, extended.disk]
    rw [contents]
    rcases extended.entry index with same | ⟨-, read, ran, found⟩
    · exact consistent.clean index page (same ▸ cached) (extended.dirty ▸ clean)
    · rw [found] at cached
      rw [← Option.some.inj cached]
      exact readFile_contents ran
  dirty := by
    intro index dirty
    rw [extended.dirty] at dirty
    rw [extended.dirtyKept consistent dirty]
    exact consistent.dirty index dirty

end SharedPager

/-! ### What a reader has left to do -/

/-- The rest of a reader's program has the value `expected` for a lone reader's
answers, and what it has read is what a lone reader reads. -/
def Reader.OnCourse {α : Type} (start : SharedPager) (expected : Except Fault α) :
    Reader α → Prop
  | between program => program.ReadOnly ∧ program.evaluate start.answer = expected
  | missed pageNum next =>
      ¬ maxPages ≤ pageNum ∧ start.pager.pages pageNum = none ∧
        (∀ page, (next page).ReadOnly) ∧
          (Program.load pageNum next).evaluate start.answer = expected
  | hasRead pageNum page next =>
      ¬ maxPages ≤ pageNum ∧ start.pager.pages pageNum = none ∧
        (SharedPager.readFile pageNum start).1 = .ok page ∧
          (∀ page, (next page).ReadOnly) ∧ (next page).evaluate start.answer = expected

section Steps

variable {α : Type} {shared after : SharedPager} {pageNum : Nat} {page : Page} {fault : Fault}
  {next : Page → PageProgram α}

theorem Reader.step_limit (beyond : maxPages ≤ pageNum) :
    (between (.load pageNum next)).step shared =
      some (some (pageNum, .error (.error (Pager.pageLimitMessage pageNum))),
        between (.result (.error (.error (Pager.pageLimitMessage pageNum)))), shared) := by
  simp only [Reader.step, if_pos beyond]

theorem Reader.step_hit (below : ¬ maxPages ≤ pageNum)
    (cached : shared.pager.pages pageNum = some page) :
    (between (.load pageNum next)).step shared =
      some (some (pageNum, .ok page), between (next page), shared) := by
  simp only [Reader.step, if_neg below, cached]

theorem Reader.step_miss (below : ¬ maxPages ≤ pageNum)
    (missing : shared.pager.pages pageNum = none) :
    (between (.load pageNum next)).step shared = some (none, missed pageNum next, shared) := by
  simp only [Reader.step, if_neg below, missing]

theorem Reader.step_read (ran : SharedPager.readFile pageNum shared = (.ok page, after)) :
    (missed pageNum next).step shared = some (none, hasRead pageNum page next, after) := by
  simp only [Reader.step, ran]

theorem Reader.step_failed (ran : SharedPager.readFile pageNum shared = (.error fault, after)) :
    (missed pageNum next).step shared =
      some (some (pageNum, .error fault), between (.result (.error fault)), after) := by
  simp only [Reader.step, ran]

end Steps

/-- One critical section: the reader stays on course, the cache gains only what a
lone reader reads, and a call that returns gives what a lone reader gets. -/
theorem Reader.OnCourse.step {α : Type} {start shared after : SharedPager}
    {expected : Except Fault α} {reader next : Reader α} {returned : Option ReadReturn}
    (onCourse : reader.OnCourse start expected) (extended : start.Extends shared)
    (taken : reader.step shared = some (returned, next, after)) :
    next.OnCourse start expected ∧ start.Extends after ∧
      ∀ index result, returned = some (index, result) → result = start.answer index := by
  match reader, onCourse with
  | .between (.result value), _ => exact absurd taken (by simp [Reader.step])
  | .between (.load pageNum continuation), ⟨.load readOnly, value⟩ =>
      by_cases beyond : maxPages ≤ pageNum
      · have refused := @SharedPager.answer_limit start pageNum beyond
        rw [Program.evaluate_load_error refused] at value
        rw [Reader.step_limit beyond] at taken
        cases taken
        refine ⟨⟨.result _, value⟩, extended, fun index result same => ?_⟩
        cases same
        exact refused.symm
      · rcases cached : shared.pager.pages pageNum with _ | page
        · rw [Reader.step_miss beyond cached] at taken
          cases taken
          exact ⟨⟨beyond, extended.missing cached, readOnly, value⟩, extended, by simp⟩
        · have answered := extended.cached beyond cached
          rw [Program.evaluate_load answered] at value
          rw [Reader.step_hit beyond cached] at taken
          cases taken
          refine ⟨⟨readOnly page, value⟩, extended, fun index result same => ?_⟩
          cases same
          exact answered.symm
  | .missed pageNum continuation, ⟨below, missing, readOnly, value⟩ =>
      have answered := SharedPager.answer_missing below missing
      have reached := extended.afterRead pageNum
      have same := extended.readFile pageNum
      rcases ran : SharedPager.readFile pageNum shared with ⟨fault | page, moved⟩
      · rw [ran] at reached same
        rw [← same] at answered
        rw [Program.evaluate_load_error answered] at value
        rw [Reader.step_failed ran] at taken
        cases taken
        refine ⟨⟨.result _, value⟩, reached, fun index result same => ?_⟩
        cases same
        exact answered.symm
      · rw [ran] at reached same
        rw [← same] at answered
        rw [Program.evaluate_load answered] at value
        rw [Reader.step_read ran] at taken
        cases taken
        exact ⟨⟨below, missing, same.symm, readOnly, value⟩, reached, by simp⟩
  | .hasRead pageNum page continuation, ⟨below, missing, ran, readOnly, value⟩ =>
      have answered := (SharedPager.answer_missing below missing).trans ran
      cases taken
      refine ⟨⟨readOnly page, value⟩, extended.insert missing ran, fun index result same => ?_⟩
      cases same
      exact answered.symm

/-! ### Runs -/

section Runs

variable {ι α : Type} [DecidableEq ι] {start : SharedPager}

/-- Every reader is on course, and the cache has gained only what a lone reader reads. -/
def Readers.OnCourse (start : SharedPager) (expected : ι → Except Fault α)
    (state : Readers ι α) : Prop :=
  start.Extends state.shared ∧ ∀ name, (state.reader name).OnCourse start (expected name)

/-- One step of any reader. -/
theorem Readers.OnCourse.step {expected : ι → Except Fault α} {state after : Readers ι α}
    {label : ι × Option ReadReturn} (onCourse : state.OnCourse start expected)
    (taken : state.Step label after) :
    after.OnCourse start expected ∧
      ∀ index result, label.2 = some (index, result) → result = start.answer index := by
  obtain ⟨reader, ran, others⟩ := taken
  obtain ⟨next, extended, returned⟩ := (onCourse.2 label.1).step onCourse.1 ran
  refine ⟨⟨extended, fun name => ?_⟩, returned⟩
  rw [others]
  by_cases same : name = label.1
  · subst same
    rwa [Function.update_self]
  · rw [Function.update_of_ne same]
    exact onCourse.2 name

theorem Readers.step_of {state : Readers ι α} (name : ι)
    {returned : Option ReadReturn} {reader : Reader α} {shared : SharedPager}
    (ran : (state.reader name).step state.shared = some (returned, reader, shared)) :
    state.Step (name, returned) ⟨Function.update state.reader name reader, shared⟩ :=
  ⟨reader, ran, rfl⟩

/-- Every run of the readers. -/
theorem Readers.OnCourse.run {expected : ι → Except Fault α} {state after : Readers ι α}
    {labels : List (ι × Option ReadReturn)} (onCourse : state.OnCourse start expected)
    (reached : Reaches Readers.Step state labels after) :
    after.OnCourse start expected ∧
      ∀ label ∈ labels, ∀ index result, label.2 = some (index, result) →
        result = start.answer index := by
  induction reached with
  | refl => exact ⟨onCourse, by simp⟩
  | next _ taken inductionHypothesis =>
      obtain ⟨before, returned⟩ := inductionHypothesis
      obtain ⟨next, last⟩ := before.step taken
      refine ⟨next, fun label member => ?_⟩
      rcases List.mem_append.mp member with earlier | same
      · exact returned label earlier
      · rw [List.mem_singleton.mp same]
        exact last

end Runs

/-! ### Scans -/

namespace SharedPager

/-- A lone reader's load. -/
theorem readPage_alone {start shared : SharedPager} (extended : start.Extends shared)
    (index : Nat) :
    (Pager.readPage index shared.alone).1 = start.answer index ∧
      ∃ after, start.Extends after ∧ (Pager.readPage index shared.alone).2 = after.alone := by
  unfold Pager.readPage Pager.loadPage
  by_cases beyond : maxPages ≤ index
  · rw [if_pos beyond, answer_limit beyond]
    exact ⟨rfl, shared, extended, rfl⟩
  · rw [if_neg beyond, Exec.bind_ok (Exec.run_get _)]
    rcases cached : shared.alone.pager.pages index with _ | page
    · have missing := extended.missing cached
      have answered := answer_missing beyond missing
      have fetched := fetch_alone shared index
      rw [extended.readFile index] at fetched
      dsimp only
      rcases ran : (readFile index start).1 with fault | page
      · rw [ran] at fetched answered
        rw [Exec.bind_error fetched, answered]
        exact ⟨rfl, shared, extended, rfl⟩
      · rw [ran] at fetched answered
        rw [Exec.bind_ok fetched, answered]
        exact ⟨rfl, shared.insert index page, extended.insert missing ran, rfl⟩
    · rw [extended.cached beyond cached]
      exact ⟨rfl, shared, extended, rfl⟩

/-- A program that only loads, run by a lone reader. -/
theorem perform_alone (start : SharedPager) {α : Type} {program : PageProgram α}
    (readOnly : program.ReadOnly) :
    (Pager.perform program start.alone).1 = program.evaluate start.answer := by
  have loads (state : PagerIo) (index : Nat)
      (still : ∃ shared, start.Extends shared ∧ state = shared.alone) :
      (Pager.store.load index state).1 = start.answer index ∧
        ∃ shared, start.Extends shared ∧ (Pager.store.load index state).2 = shared.alone := by
    obtain ⟨shared, extended, rfl⟩ := still
    exact readPage_alone extended index
  exact (readOnly.run_eq _ loads ⟨start, extends_refl start, rfl⟩).1

end SharedPager

/-- Readers that scan at the same time, in any order of their critical sections:
every `read_page` that returns gives what a lone reader would get, every scan that
is done has the result of a scan alone, dirty pages are as they were, and the
starting condition on the cache still holds. -/
theorem concurrent_scans {ι : Type} [DecidableEq ι] {start : SharedPager}
    (consistent : start.Consistent) {roots : ι → Nat} {labels : List (ι × Option ReadReturn)}
    {state : Readers ι (List Bytes)}
    (reached : Reaches Readers.Step (Readers.scanning roots start) labels state) :
    (∀ name index result, (name, some (index, result)) ∈ labels →
      result = (Pager.readPage index start.alone).1) ∧
    (∀ name result, state.reader name = .between (.result result) →
      result = (Pager.perform (BTree.scanAll (roots name)) start.alone).1) ∧
    (∀ index, start.pager.dirty index = true →
      state.shared.pager.pages index = start.pager.pages index) ∧
    state.shared.pager.dirty = start.pager.dirty ∧ state.shared.Consistent := by
  have begun : (Readers.scanning roots start).OnCourse start fun name =>
      (BTree.scanAll (roots name)).evaluate start.answer :=
    ⟨SharedPager.extends_refl start, fun name => ⟨BTree.readOnly_scanAll (roots name), rfl⟩⟩
  obtain ⟨⟨extended, onCourse⟩, returned⟩ := begun.run reached
  refine ⟨fun name index result member => returned _ member index result rfl, ?_, ?_,
    extended.dirty, extended.consistent consistent⟩
  · intro name result done
    have value := onCourse name
    rw [done] at value
    rw [SharedPager.perform_alone start (BTree.readOnly_scanAll (roots name))]
    exact value.2
  · exact fun index dirty => extended.dirtyKept consistent dirty

/-- Two readers that both miss page 0 of an empty table file before either stores it. -/
theorem concurrent_scans_sameMiss :
    (.ok Page.zero : Except Fault Page) =
      (Pager.readPage 0 (SharedPager.alone ⟨Pager.fresh 0, ⟨[], []⟩, 0⟩)).1 := by
  have consistent : SharedPager.Consistent ⟨Pager.fresh 0, ⟨[], []⟩, 0⟩ :=
    ⟨fun _ _ cached => by simp [Pager.fresh] at cached, fun _ dirty => by simp [Pager.fresh] at dirty⟩
  have start : Reaches Readers.Step
      (Readers.scanning (fun _ : Bool => 0) ⟨Pager.fresh 0, ⟨[], []⟩, 0⟩) [] _ := Reaches.refl
  have bothMissed := (start.next (Readers.step_of false rfl)).next
    (Readers.step_of true rfl)
  have bothRead := (bothMissed.next (Readers.step_of true rfl)).next
    (Readers.step_of false rfl)
  have bothStored := (bothRead.next (Readers.step_of false rfl)).next
    (Readers.step_of true rfl)
  exact (concurrent_scans consistent bothStored).1 true 0 _ (by simp)

end MukhiDb.Model
