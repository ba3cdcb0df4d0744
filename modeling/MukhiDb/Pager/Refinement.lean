import MukhiDb.Foundation.TwoMap
import MukhiDb.Pager.Calls
import MukhiDb.Pager.Opening

/-!
Contract: an open pager as a committed and a working page map.

Owns: what the two maps expect of each call on a pager, the refinement between
them, and the exact runs in which the pager answers as expected: those in which
no call loads a gap.

Does not own: failing I/O, crashes, and page numbers past the limit.
-/

namespace MukhiDb.Model

open MukhiDb.Foundation

/-! ### What is expected -/

namespace PagerCall

/-- What the two maps expect of a call. -/
def expected : Machine (TwoMap Page Page.zero) PagerCall (Except Fault PagerAnswer)
  | readPage pageNum, two => (.ok (.page (two.working.page pageNum)), two)
  | getPage pageNum, two => (.ok (.page (two.working.page pageNum)), two)
  | getPageMut pageNum change, two => (.ok .done, two.modify pageNum change)
  | allocatePage, two => (.ok (.allocated two.working.count), two.allocate)
  | begin, two =>
      if two.inTransaction then (.error (.error "Already in a transaction."), two)
      else (.ok .done, two.begin)
  | commit, two => (.ok .done, two.commit)
  | rollback, two => (.ok .done, two.rollback)

/-- The page number that the call uses is below `MAX_PAGES`. -/
def InRange : PagerCall → TwoMap Page Page.zero → Prop
  | readPage pageNum, _ | getPage pageNum, _ | getPageMut pageNum _, _ => pageNum < maxPages
  | allocatePage, two => two.working.count < maxPages
  | begin, _ | commit, _ | rollback, _ => True

/-- The call loads no page that is below `file_length`, not cached and past the
end of the file. -/
def LoadsNoGap : PagerCall → PagerIo → Prop
  | readPage pageNum, state | getPage pageNum, state | getPageMut pageNum _, state =>
      ¬ state.Gap pageNum
  | allocatePage, _ | begin, _ | commit, _ | rollback, _ => True

end PagerCall

/-! ### Refinement -/

/-- The pages of a `.db` file as a map. -/
def Disk.map (disk : Disk) : PageMap Page Page.zero :=
  ⟨disk.page, disk.pageCount, fun _ beyond => Disk.page_of_le beyond⟩

/-- The file holds exactly the committed map, and the cache over it reads as the
working map. -/
structure Refines (state : PagerIo) (two : TwoMap Page Page.zero) : Prop where
  coherent : state.Coherent
  quiet : state.Quiet
  committed : state.disk.map = two.committed
  view : state.view = two.working.page
  count : state.count = two.working.count
  inTransaction : state.pager.inTransaction = two.inTransaction

theorem Refines.start {disk : Disk} (aligned : disk.Aligned) :
    Refines ⟨Pager.fresh disk.db.length, disk, []⟩ (TwoMap.opened disk.map) where
  coherent := Pager.fresh_coherent aligned []
  quiet := rfl
  committed := rfl
  view := Pager.fresh_view disk []
  count := rfl
  inTransaction := rfl

section Steps

open PagerIo

variable {state : PagerIo} {two : TwoMap Page Page.zero}

/-- Only cache entries were filled. -/
theorem Refines.steady {after : PagerIo} (refines : Refines state two)
    (steady : Steady state after) : Refines after two where
  coherent := steady.coherent refines.coherent
  quiet := steady.frame.quiet refines.quiet
  committed := by rw [steady.frame.disk]; exact refines.committed
  view := steady.view.trans refines.view
  count := steady.count.trans refines.count
  inTransaction := steady.frame.inTransaction.trans refines.inTransaction

theorem Refines.load (refines : Refines state two) {pageNum : Nat} (below : pageNum < maxPages)
    (noGap : ¬ state.Gap pageNum) :
    ∃ after, Pager.loadPage pageNum state = (.ok (two.working.page pageNum), after) ∧
      Refines after two := by
  obtain ⟨after, run, steady, -⟩ := loadPage_ok refines.coherent refines.quiet below noGap
  rw [refines.view] at run
  exact ⟨after, run, refines.steady steady⟩

theorem Refines.modify (refines : Refines state two) {pageNum : Nat} (below : pageNum < maxPages)
    (noGap : ¬ state.Gap pageNum) (change : Page → Page) :
    ∃ after, Pager.modifyPage pageNum (fun page => .ok (change page)) state = (.ok (), after) ∧
      Refines after (two.modify pageNum change) := by
  obtain ⟨after, run, modified⟩ := @modifyPage_ok state pageNum refines.coherent refines.quiet
    below noGap (fun page => .ok (change page)) _ rfl
  refine ⟨after, run, ?_⟩
  exact
    { coherent := modified.coherent
      quiet := modified.frame.quiet refines.quiet
      committed := by rw [modified.frame.disk]; exact refines.committed
      view := by rw [modified.view, refines.view]; rfl
      count := by rw [modified.count, refines.count]; rfl
      inTransaction := modified.frame.inTransaction.trans refines.inTransaction }

theorem Refines.allocate (refines : Refines state two) (room : two.working.count < maxPages) :
    ∃ after, Pager.allocatePage state = (.ok two.working.count, after) ∧
      Refines after two.allocate := by
  have fits : state.pager.numPages = two.working.count := by
    have limit : maxPages < 2 ^ 32 := by decide
    have counted : state.pager.numPages = state.count % 2 ^ 32 := rfl
    rw [counted, refines.count, Nat.mod_eq_of_lt (room.trans limit)]
  have noGap : ¬ state.Gap two.working.count := by
    rintro ⟨-, below, -⟩
    rw [refines.count] at below
    exact lt_irrefl _ below
  obtain ⟨after, run, modified, -⟩ := getPageMut_ok refines.coherent refines.quiet room noGap
  refine ⟨after, ?_, ?_⟩
  · unfold Pager.allocatePage
    rw [Exec.bind_ok (Exec.run_get state), fits, Exec.bind_ok run]
    rfl
  · exact
      { coherent := modified.coherent
        quiet := modified.frame.quiet refines.quiet
        committed := by rw [modified.frame.disk]; exact refines.committed
        view := by rw [modified.view, Function.update_eq_self, refines.view]; rfl
        count := by
          rw [modified.count, refines.count]
          exact max_eq_right (Nat.le_succ _)
        inTransaction := modified.frame.inTransaction.trans refines.inTransaction }

/-- A commit makes the file hold exactly the working map. -/
theorem Refines.commit (refines : Refines state two) : Refines state.committed two.commit where
  coherent := refines.coherent.committed_coherent
  quiet := refines.quiet
  committed := by
    ext1
    · exact refines.coherent.consistent.committed_page.trans refines.view
    · exact refines.coherent.committed_pageCount.trans refines.count
  view := refines.coherent.consistent.committed_view.trans refines.view
  count := (committed_count state).trans refines.count
  inTransaction := rfl

/-- A rollback makes the working map the committed one, with its length. -/
theorem Refines.rollback (refines : Refines state two) : Refines state.rolledBack two.rollback where
  coherent := refines.coherent.consistent.rolledBack_coherent
  quiet := refines.quiet
  committed := refines.committed
  view := refines.coherent.consistent.rolledBack_view.trans (congrArg PageMap.page refines.committed)
  count := (rolledBack_count state).trans (congrArg PageMap.count refines.committed)
  inTransaction := rfl

theorem PagerCall.machine_commit (quiet : state.Quiet) :
    machine commit state = (.ok .done, state.committed) := by
  rw [machine, perform, Exec.bind_ok (commit_ok quiet)]
  rfl

/-- A call that loads no gap is answered as expected. -/
theorem PagerCall.perform_expected (call : PagerCall) (refines : Refines state two)
    (inRange : call.InRange two) (noGap : call.LoadsNoGap state) :
    (machine call state).1 = (expected call two).1 ∧
      Refines (machine call state).2 (expected call two).2 := by
  cases call with
  | readPage pageNum =>
      obtain ⟨after, run, next⟩ := refines.load inRange noGap
      have run : Pager.readPage pageNum state = _ := run
      rw [machine, perform, Exec.bind_ok run]
      exact ⟨rfl, next⟩
  | getPage pageNum =>
      obtain ⟨after, run, next⟩ := refines.load inRange noGap
      have run : Pager.getPage pageNum state = _ := run
      rw [machine, perform, Exec.bind_ok run]
      exact ⟨rfl, next⟩
  | getPageMut pageNum change =>
      obtain ⟨after, run, next⟩ := refines.modify inRange noGap change
      rw [machine, perform, Exec.bind_ok run]
      exact ⟨rfl, next⟩
  | allocatePage =>
      obtain ⟨after, run, next⟩ := refines.allocate inRange
      rw [machine, perform, Exec.bind_ok run]
      exact ⟨rfl, next⟩
  | begin =>
      have flag := refines.inTransaction
      cases busy : two.inTransaction with
      | true =>
          rw [busy] at flag
          rw [machine, perform, Exec.bind_error (begin_busy flag), expected, if_pos busy]
          exact ⟨rfl, refines⟩
      | false =>
          rw [busy] at flag
          rw [machine, perform, Exec.bind_ok (begin_ok flag), expected, if_neg (by simp [busy])]
          refine ⟨rfl, ?_⟩
          exact
            { coherent := { refines.coherent with }
              quiet := refines.quiet
              committed := refines.committed
              view := refines.view
              count := refines.count
              inTransaction := rfl }
  | commit =>
      rw [machine_commit refines.quiet]
      exact ⟨rfl, refines.commit⟩
  | rollback =>
      rw [machine, perform, Exec.bind_ok (rollback_ok refines.quiet)]
      exact ⟨rfl, refines.rollback⟩

/-- A call that loads a gap returns an error where contents are expected. -/
theorem PagerCall.perform_gap (call : PagerCall) (refines : Refines state two)
    (inRange : call.InRange two) (gap : ¬ call.LoadsNoGap state) :
    (machine call state).1 ≠ (expected call two).1 := by
  cases call with
  | readPage pageNum =>
      have run : Pager.readPage pageNum state = _ :=
        loadPage_gap refines.quiet inRange (Classical.not_not.mp gap)
      rw [machine, perform, Exec.bind_error run]
      simp [expected]
  | getPage pageNum =>
      have run : Pager.getPage pageNum state = _ :=
        loadPage_gap refines.quiet inRange (Classical.not_not.mp gap)
      rw [machine, perform, Exec.bind_error run]
      simp [expected]
  | getPageMut pageNum change =>
      have refused := getPageMut_error
        (loadPage_gap refines.quiet inRange (Classical.not_not.mp gap))
      have run : Pager.modifyPage pageNum (fun page => .ok (change page)) state = _ :=
        Exec.bind_error refused
      rw [machine, perform, Exec.bind_error run]
      simp [expected]
  | allocatePage | begin | commit | rollback => exact absurd trivial gap

end Steps

/-! ### Runs -/

/-- A fresh opening sees the same number of pages and the same bytes on every page. -/
def Reopens (path : String) (state : PagerIo) : Prop :=
  ∃ pager disk, Pager.open path ⟨state.disk, []⟩ = (.ok pager, ⟨disk, []⟩) ∧
    pager.numPages = state.pager.numPages ∧
    ∀ pageNum < maxPages,
      (Pager.readPage pageNum ⟨pager, disk, []⟩).1 = .ok (state.view pageNum)

/-- After every part of the run: the answers so far are the expected ones, the
pager refines the two maps, and a fresh opening after a commit sees the pages. -/
def FollowsTwoMap (path : String) (calls : List PagerCall) (state : PagerIo)
    (two : TwoMap Page Page.zero) : Prop :=
  ∀ earlier later, calls = earlier ++ later →
    (Machine.run PagerCall.machine earlier state).1 =
        (Machine.run PagerCall.expected earlier two).1 ∧
      Refines (Machine.run PagerCall.machine earlier state).2
        (Machine.run PagerCall.expected earlier two).2 ∧
      (earlier.getLast? = some .commit →
        Reopens path (Machine.run PagerCall.machine earlier state).2)

theorem reopens_committed {state : PagerIo} (path : String) (coherent : state.Coherent) :
    Reopens path state.committed := by
  have aligned : state.committed.disk.Aligned := coherent.consistent.committed_aligned
  have opened := Pager.open_ok path aligned
  rw [Disk.recovered_of_empty (show state.committed.disk.log = [] from rfl)] at opened
  refine ⟨_, _, opened, ?_, ?_⟩
  · rw [coherent.committed_fileLength]
    rfl
  · intro pageNum below
    have fresh := Pager.fresh_coherent aligned []
    obtain ⟨after, run, -⟩ := PagerIo.loadPage_ok fresh rfl below
      (PagerIo.noGap_of_lengths rfl pageNum)
    have run : Pager.readPage pageNum _ = _ := run
    rw [run, Pager.fresh_view, coherent.consistent.committed_page, coherent.consistent.committed_view]

/-- A pager that was opened on any files answers a run of calls as the two maps
expect exactly when no call loads a gap. -/
theorem pager_followsTwoMap_iff {path : String} {disk : Disk} {pager : Pager} {files : DiskIo}
    (opened : Pager.open path ⟨disk, []⟩ = (.ok pager, files)) (calls : List PagerCall)
    (inRange : Machine.Along PagerCall.expected PagerCall.InRange calls
      (TwoMap.opened files.disk.map)) :
    FollowsTwoMap path calls ⟨pager, files.disk, []⟩ (TwoMap.opened files.disk.map) ↔
      Machine.Along PagerCall.machine PagerCall.LoadsNoGap calls ⟨pager, files.disk, []⟩ := by
  obtain ⟨aligned, rfl, rfl⟩ := Pager.open_eq_ok opened
  have start := Refines.start aligned.recovered
  constructor
  · intro follows
    exact Machine.along_of_run_eq (fun call _ _ => call.perform_expected)
      (fun call _ _ => call.perform_gap) start inRange (follows calls [] (by simp)).1
  · intro noGap earlier later split
    subst split
    have allowed := (Machine.along_append.mp inRange).1
    have fine := (Machine.along_append.mp noGap).1
    obtain ⟨answers, refines⟩ := Machine.run_agrees (fun call _ _ => call.perform_expected) start
      allowed fine
    refine ⟨answers, refines, fun last => ?_⟩
    obtain ⟨before, rfl⟩ := List.getLast?_eq_some_iff.mp last
    have refinesBefore := (Machine.run_agrees (fun call _ _ => call.perform_expected) start
      (Machine.along_append.mp allowed).1 (Machine.along_append.mp fine).1).2
    rw [Machine.run_append, Machine.run, PagerCall.machine_commit refinesBefore.quiet]
    exact reopens_committed path refinesBefore.coherent

/-- A page is allocated, written, read back and committed. -/
theorem pager_followsTwoMap_allocated :
    FollowsTwoMap "t.db" [.allocatePage, .getPageMut 0 fun _ => Page.zero, .readPage 0, .commit]
      ⟨Pager.fresh 0, ⟨[], []⟩, []⟩ (TwoMap.opened (Disk.map ⟨[], []⟩)) := by
  have opened : Pager.open "t.db" ⟨⟨[], []⟩, []⟩ = (.ok (Pager.fresh 0), ⟨⟨[], []⟩, []⟩) := rfl
  have below : 0 < maxPages := by decide
  refine (pager_followsTwoMap_iff opened
    [.allocatePage, .getPageMut 0 fun _ => Page.zero, .readPage 0, .commit]
    ⟨below, below, below, trivial, trivial⟩).mpr ?_
  refine ⟨trivial, ?_, ?_, trivial, trivial⟩
  · rintro ⟨missing, -⟩
    exact absurd missing (by decide)
  · rintro ⟨missing, -⟩
    exact absurd missing (by decide)

/-- Page 1 of an empty file is modified first. Page 0 is then a gap, and reading it
is refused although page numbers 0 and 1 are below the limit. -/
theorem pager_refuses_gap :
    ∃ pager files, Pager.open "t.db" ⟨⟨[], []⟩, []⟩ = (.ok pager, files) ∧
      Machine.Along PagerCall.expected PagerCall.InRange [.getPageMut 1 id, .readPage 0]
        (TwoMap.opened files.disk.map) ∧
      ¬ FollowsTwoMap "t.db" [.getPageMut 1 id, .readPage 0] ⟨pager, files.disk, []⟩
        (TwoMap.opened files.disk.map) := by
  have below : 1 < maxPages := by decide
  refine ⟨Pager.fresh 0, ⟨⟨[], []⟩, []⟩, rfl, ⟨below, Nat.zero_lt_of_lt below, trivial⟩, ?_⟩
  intro follows
  have answers := (follows _ [] (List.append_nil _).symm).1
  have refused : (Machine.run PagerCall.machine [.getPageMut 1 id, .readPage 0]
      ⟨Pager.fresh 0, ⟨[], []⟩, []⟩).1 =
      [.ok .done, .error (.error "failed to fill whole buffer")] := rfl
  rw [refused] at answers
  simp [Machine.run, PagerCall.expected] at answers

end MukhiDb.Model
