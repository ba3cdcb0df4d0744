import MukhiDb.Pager.Contents

/-!
Contract: one lemma for each way a page is loaded, modified or allocated.

Owns: the outcome of `loadPage`, `modifyPage` and `allocatePage` in a coherent
state whose I/O succeeds; soundness, which adds to coherence that no page is a
gap and that the page count fits in `u32`; and the fact that loading and
modifying pages keeps a state coherent whatever the outcome.

Does not own: commit, rollback and reopening.
-/

namespace MukhiDb.Model

open MukhiDb.Foundation

namespace PagerIo

variable {state after : PagerIo} {index : Nat}

/-! ### Successful calls on the two files -/

theorem onFile_touch (quiet : state.Quiet) : onFile Medium.touch state = (.ok (), state) := by
  unfold onFile
  rw [Exec.run_zoom, @Medium.touch_ok ⟨state.disk.db, state.schedule⟩ quiet]

theorem onFile_length (quiet : state.Quiet) :
    onFile Medium.length state = (.ok state.disk.db.length, state) := by
  unfold onFile
  rw [Exec.run_zoom, @Medium.length_ok ⟨state.disk.db, state.schedule⟩ quiet]

theorem onFile_readAt (quiet : state.Quiet) (offset width : Nat) :
    onFile (Medium.readAt offset width) state =
      (.ok (if offset + width ≤ state.disk.db.length then some (slice state.disk.db offset width)
        else none), state) := by
  unfold onFile
  rw [Exec.run_zoom, @Medium.readAt_ok ⟨state.disk.db, state.schedule⟩ quiet]

theorem onFile_writeAt (quiet : state.Quiet) (offset : Nat) (data : Bytes) :
    onFile (Medium.writeAt offset data) state =
      (.ok (), { state with disk := { state.disk with db := overwrite state.disk.db offset data } }) := by
  unfold onFile
  rw [Exec.run_zoom, @Medium.writeAt_ok ⟨state.disk.db, state.schedule⟩ quiet]
  dsimp only
  rw [← (quiet : state.schedule = [])]

/-! ### Loading -/

/-- Only cache entries were filled. -/
structure Steady (before after : PagerIo) : Prop where
  frame : Frame before after
  view : after.view = before.view
  fileLength : after.pager.fileLength = before.pager.fileLength
  dirty : after.pager.dirty = before.pager.dirty
  cached : ∀ index, before.pager.pages index ≠ none → after.pager.pages index ≠ none
  coherent : before.Coherent → after.Coherent

theorem Steady.refl (state : PagerIo) : Steady state state :=
  ⟨Frame.refl state, rfl, rfl, rfl, fun _ => id, id⟩

theorem Steady.trans {first second third : PagerIo} (left : Steady first second)
    (right : Steady second third) : Steady first third :=
  ⟨left.frame.trans right.frame, right.view.trans left.view,
    right.fileLength.trans left.fileLength, right.dirty.trans left.dirty,
    fun index cached => right.cached index (left.cached index cached),
    fun coherent => right.coherent (left.coherent coherent)⟩

theorem Steady.count (steady : Steady state after) : after.count = state.count := by
  unfold PagerIo.count
  rw [steady.fileLength]

theorem Steady.gap (steady : Steady state after) (gap : after.Gap index) : state.Gap index := by
  obtain ⟨missing, below, past⟩ := gap
  refine ⟨?_, steady.count ▸ below, steady.frame.disk ▸ past⟩
  by_contra cached
  exact steady.cached index cached missing

theorem steady_cachePage (index : Nat) (state : PagerIo) :
    Steady state (Pager.cachePage index (state.view index) state) where
  frame := frame_cachePage index _ state
  view := by rw [view_cachePage, Function.update_eq_self]
  fileLength := rfl
  dirty := rfl
  cached := by
    intro other cached
    by_cases same : other = index
    · subst same
      simp [Pager.cachePage]
    · simpa only [Pager.cachePage, Function.update_of_ne same] using cached
  coherent := fun coherent => coherent.cache_view index

/-- Fetching a page that is neither cached nor a gap returns what it reads as. -/
theorem fetch_ok (coherent : state.Coherent) (quiet : state.Quiet)
    (missing : state.pager.pages index = none) (noGap : ¬ state.Gap index) :
    Pager.fetch index state = (.ok (state.view index), state) := by
  have viewed : state.view index = state.disk.page index := by
    unfold view
    rw [missing, Option.getD_none]
  unfold Pager.fetch
  rw [Exec.bind_ok (Exec.run_get state)]
  by_cases below : index < state.count
  · have inside : index < state.disk.pageCount := by
      by_contra outside
      exact noGap ⟨missing, below, Nat.le_of_not_lt outside⟩
    have fits : index * pageSize + pageSize ≤ state.disk.db.length := by
      rw [← Nat.succ_mul]
      exact (state.disk.page_inside_iff index).mpr inside
    rw [if_pos ((state.within_iff index).mpr below), Exec.bind_ok (onFile_touch quiet),
      Exec.bind_ok (onFile_readAt quiet _ _), if_pos fits]
    dsimp only
    rw [dif_pos (slice_length fits), Exec.run_pure, viewed]
    congr 2
    exact Page.ext (Disk.page_of_lt inside).symm
  · have past : state.count ≤ index := Nat.le_of_not_lt below
    rw [if_neg (fun within => below ((state.within_iff index).mp within)), Exec.run_pure,
      coherent.view_past past]

/-- Fetching a gap is refused: the file ends before the page. -/
theorem fetch_gap (quiet : state.Quiet) (gap : state.Gap index) :
    Pager.fetch index state = (.error (.error "failed to fill whole buffer"), state) := by
  obtain ⟨-, below, past⟩ := gap
  have outside : ¬ index * pageSize + pageSize ≤ state.disk.db.length := by
    rw [← Nat.succ_mul]
    intro inside
    have := (state.disk.page_inside_iff index).mp inside
    omega
  unfold Pager.fetch
  rw [Exec.bind_ok (Exec.run_get state), if_pos ((state.within_iff index).mpr below),
    Exec.bind_ok (onFile_touch quiet), Exec.bind_ok (onFile_readAt quiet _ _), if_neg outside]
  rfl

/-- A page number past the limit is refused before anything is read. -/
theorem loadPage_limit (state : PagerIo) (beyond : maxPages ≤ index) :
    Pager.loadPage index state = (.error (.error (Pager.pageLimitMessage index)), state) := by
  unfold Pager.loadPage
  rw [if_pos beyond]
  rfl

theorem loadPage_ok (coherent : state.Coherent) (quiet : state.Quiet) (below : index < maxPages)
    (noGap : ¬ state.Gap index) :
    ∃ after, Pager.loadPage index state = (.ok (state.view index), after) ∧ Steady state after ∧
      after.pager.pages index ≠ none := by
  unfold Pager.loadPage
  rw [if_neg (Nat.not_le_of_lt below), Exec.bind_ok (Exec.run_get state)]
  cases cached : state.pager.pages index with
  | some page =>
      refine ⟨state, ?_, Steady.refl state, by simp [cached]⟩
      simp [view, cached]
  | none =>
      refine ⟨Pager.cachePage index (state.view index) state, ?_, steady_cachePage index state, ?_⟩
      · dsimp only
        rw [Exec.bind_ok (fetch_ok coherent quiet cached noGap)]
        rfl
      · simp [Pager.cachePage]

theorem loadPage_gap (quiet : state.Quiet) (below : index < maxPages) (gap : state.Gap index) :
    Pager.loadPage index state = (.error (.error "failed to fill whole buffer"), state) := by
  unfold Pager.loadPage
  rw [if_neg (Nat.not_le_of_lt below), Exec.bind_ok (Exec.run_get state), gap.1]
  exact Exec.bind_error (fetch_gap quiet gap)

/-- The three ways loading ends. -/
theorem loadPage_cases (coherent : state.Coherent) (quiet : state.Quiet) (index : Nat) :
    (∃ after, Pager.loadPage index state = (.ok (state.view index), after) ∧
      index < maxPages ∧ ¬ state.Gap index ∧ Steady state after ∧ after.pager.pages index ≠ none) ∨
    ∃ message, Pager.loadPage index state = (.error (.error message), state) := by
  by_cases below : index < maxPages
  · by_cases gap : state.Gap index
    · exact Or.inr ⟨_, loadPage_gap quiet below gap⟩
    · obtain ⟨after, loaded, steady, cached⟩ := loadPage_ok coherent quiet below gap
      exact Or.inl ⟨after, loaded, below, gap, steady, cached⟩
  · exact Or.inr ⟨_, loadPage_limit state (Nat.le_of_not_lt below)⟩

/-! ### Modifying -/

/-- One page was replaced, and the page count extended over it. -/
structure Modified (before : PagerIo) (index : Nat) (page : Page) (after : PagerIo) : Prop where
  frame : Frame before after
  view : after.view = Function.update before.view index page
  count : after.count = max before.count (index + 1)
  cached : ∀ other, before.pager.pages other ≠ none ∨ other = index → after.pager.pages other ≠ none
  coherent : after.Coherent

theorem Modified.gap {page : Page} (modified : Modified state index page after)
    (near : index ≤ state.count) {other : Nat} (gap : after.Gap other) : state.Gap other := by
  obtain ⟨missing, below, past⟩ := gap
  have different : other ≠ index := fun same => modified.cached other (Or.inr same) missing
  rw [modified.count] at below
  refine ⟨?_, by omega, modified.frame.disk ▸ past⟩
  by_contra cached
  exact modified.cached other (Or.inl cached) missing

/-- `get_page_mut` of a page that can be loaded. -/
theorem getPageMut_ok (coherent : state.Coherent) (quiet : state.Quiet) (below : index < maxPages)
    (noGap : ¬ state.Gap index) :
    ∃ after, Pager.getPageMut index state = (.ok (state.view index), after) ∧
      Modified state index (state.view index) after ∧ after.pager.dirty index = true := by
  obtain ⟨loaded, run, steady, cached⟩ := loadPage_ok coherent quiet below noGap
  have run' : Pager.getPage index state = (.ok (state.view index), loaded) := run
  refine ⟨Pager.markDirty index loaded, ?_, ?_, by simp [Pager.markDirty]⟩
  · unfold Pager.getPageMut
    rw [Exec.bind_ok run']
    rfl
  · exact
      { frame := steady.frame.trans (frame_markDirty index loaded)
        view := by rw [view_markDirty, steady.view, Function.update_eq_self]
        count := by rw [(steady.coherent coherent).count_markDirty, steady.count]
        cached := by
          rintro other (before | rfl)
          · exact steady.cached other before
          · exact cached
        coherent := (steady.coherent coherent).markDirty below cached }

theorem getPageMut_error {message : String}
    (refused : Pager.loadPage index state = (.error (.error message), state)) :
    Pager.getPageMut index state = (.error (.error message), state) := by
  unfold Pager.getPageMut Pager.getPage
  exact Exec.bind_error refused

theorem modifyPage_ok (coherent : state.Coherent) (quiet : state.Quiet) (below : index < maxPages)
    (noGap : ¬ state.Gap index) {change : Page → Except Fault Page} {page : Page}
    (changed : change (state.view index) = .ok page) :
    ∃ after, Pager.modifyPage index change state = (.ok (), after) ∧
      Modified state index page after := by
  obtain ⟨loaded, run, modified, dirty⟩ := getPageMut_ok coherent quiet below noGap
  refine ⟨Pager.cachePage index page loaded, ?_, ?_⟩
  · unfold Pager.modifyPage
    rw [Exec.bind_ok run, changed]
    rfl
  · exact
      { frame := modified.frame.trans (frame_cachePage index page loaded)
        view := by rw [view_cachePage, modified.view, Function.update_idem]
        count := modified.count
        cached := by
          intro other before
          by_cases same : other = index
          · subst same
            simp [Pager.cachePage]
          · simp only [Pager.cachePage, Function.update_of_ne same]
            exact modified.cached other before
        coherent := modified.coherent.cache_dirty dirty page }

/-! ### Sound states -/

/-- A coherent state without gaps whose page count fits in `u32`, while I/O succeeds. -/
structure Sound (state : PagerIo) : Prop where
  coherent : state.Coherent
  quiet : state.Quiet
  noGap : ∀ index, ¬ state.Gap index
  counted : state.count < 2 ^ 32

/-- A sound state reached from `before` without touching the files, with the given
working pages and page count. -/
structure Reached (before : PagerIo) (view : Nat → Page) (count : Nat) (after : PagerIo) :
    Prop where
  frame : Frame before after
  sound : after.Sound
  view : after.view = view
  count : after.count = count

theorem Reached.refl (sound : state.Sound) : Reached state state.view state.count state :=
  ⟨Frame.refl state, sound, rfl, rfl⟩

theorem Reached.trans {before middle : PagerIo} {view view' : Nat → Page} {count count' : Nat}
    (left : Reached before view count middle) (right : Reached middle view' count' after) :
    Reached before view' count' after :=
  ⟨left.frame.trans right.frame, right.sound, right.view, right.count⟩

theorem getPage_sound (sound : state.Sound) (below : index < maxPages) :
    ∃ after, Pager.getPage index state = (.ok (state.view index), after) ∧
      Reached state state.view state.count after := by
  obtain ⟨after, run, steady, -⟩ :=
    loadPage_ok sound.coherent sound.quiet below (sound.noGap index)
  refine ⟨after, run, steady.frame, ?_, steady.view, steady.count⟩
  exact
    { coherent := steady.coherent sound.coherent
      quiet := steady.frame.quiet sound.quiet
      noGap := fun other gap => sound.noGap other (steady.gap gap)
      counted := by rw [steady.count]; exact sound.counted }

theorem Modified.sound {page : Page} (modified : Modified state index page after)
    (sound : state.Sound) (near : index ≤ state.count) (below : index < maxPages) :
    after.Sound where
  coherent := modified.coherent
  quiet := modified.frame.quiet sound.quiet
  noGap := fun other gap => sound.noGap other (modified.gap near gap)
  counted := by
    have counted := sound.counted
    have limit : maxPages < 2 ^ 32 := by decide
    rw [modified.count]
    omega

theorem modifyPage_sound (sound : state.Sound) (below : index < maxPages)
    (near : index < state.count) {change : Page → Except Fault Page} {page : Page}
    (changed : change (state.view index) = .ok page) :
    ∃ after, Pager.modifyPage index change state = (.ok (), after) ∧
      Reached state (Function.update state.view index page) state.count after := by
  obtain ⟨after, run, modified⟩ :=
    modifyPage_ok sound.coherent sound.quiet below (sound.noGap index) changed
  refine ⟨after, run, modified.frame, modified.sound sound near.le below, modified.view, ?_⟩
  rw [modified.count]
  omega

theorem Sound.numPages (sound : state.Sound) : state.pager.numPages = state.count :=
  Nat.mod_eq_of_lt sound.counted

theorem allocatePage_sound (sound : state.Sound) (room : state.count < maxPages) :
    ∃ after, Pager.allocatePage state = (.ok state.count, after) ∧
      Reached state state.view (state.count + 1) after := by
  obtain ⟨after, run, modified, -⟩ :=
    getPageMut_ok sound.coherent sound.quiet room (sound.noGap state.count)
  refine ⟨after, ?_, modified.frame, modified.sound sound le_rfl room, ?_, ?_⟩
  · unfold Pager.allocatePage
    rw [Exec.bind_ok (Exec.run_get state), sound.numPages, Exec.bind_ok run]
    rfl
  · rw [modified.view, Function.update_eq_self]
  · rw [modified.count]
    omega

theorem allocatePage_full (sound : state.Sound) (full : maxPages ≤ state.count) :
    Pager.allocatePage state = (.error (.error (Pager.pageLimitMessage state.count)), state) := by
  unfold Pager.allocatePage
  rw [Exec.bind_ok (Exec.run_get state), sound.numPages]
  exact Exec.bind_error (getPageMut_error (loadPage_limit state full))

/-! ### Coherence under every outcome -/

/-- A coherent state stays coherent and the files stay. -/
def Loose (before after : PagerIo) : Prop :=
  before.Coherent → before.Quiet → after.Coherent ∧ Frame before after

theorem Loose.refl (state : PagerIo) : Loose state state :=
  fun coherent _ => ⟨coherent, Frame.refl state⟩

theorem Loose.trans {first second third : PagerIo} (left : Loose first second)
    (right : Loose second third) : Loose first third := by
  intro coherent quiet
  obtain ⟨middle, frame⟩ := left coherent quiet
  obtain ⟨last, frame'⟩ := right middle (frame.quiet quiet)
  exact ⟨last, frame.trans frame'⟩

theorem Loose.bind {α β : Type} {first : Exec PagerIo α} {next : α → Exec PagerIo β}
    (head : Exec.Preserves Loose first) (tail : ∀ value, Exec.Preserves Loose (next value)) :
    Exec.Preserves Loose (first >>= next) :=
  Exec.Preserves.bind (fun left right => left.trans right) head tail

theorem Loose.of_unchanged {α : Type} {program : Exec PagerIo α}
    (unchanged : ∀ state, (program state).2 = state) : Exec.Preserves Loose program :=
  Exec.Preserves.of_unchanged Loose.refl unchanged

theorem loadPage_loose (index : Nat) : Exec.Preserves Loose (Pager.loadPage index) := by
  intro state coherent quiet
  rcases loadPage_cases coherent quiet index with ⟨after, run, -, -, steady, -⟩ | ⟨message, run⟩
  · rw [run]
    exact ⟨steady.coherent coherent, steady.frame⟩
  · rw [run]
    exact ⟨coherent, Frame.refl state⟩

theorem getPageMut_loose (index : Nat) : Exec.Preserves Loose (Pager.getPageMut index) := by
  intro state coherent quiet
  rcases loadPage_cases coherent quiet index with ⟨-, -, below, noGap, -, -⟩ | ⟨message, refused⟩
  · obtain ⟨after, run, modified, -⟩ := getPageMut_ok coherent quiet below noGap
    rw [run]
    exact ⟨modified.coherent, modified.frame⟩
  · rw [getPageMut_error refused]
    exact ⟨coherent, Frame.refl state⟩

theorem modifyPage_loose (index : Nat) (change : Page → Except Fault Page) :
    Exec.Preserves Loose (Pager.modifyPage index change) := by
  intro state coherent quiet
  rcases loadPage_cases coherent quiet index with ⟨-, -, below, noGap, -, -⟩ | ⟨message, refused⟩
  · cases changed : change (state.view index) with
    | ok page =>
        obtain ⟨after, run, modified⟩ := modifyPage_ok coherent quiet below noGap changed
        rw [run]
        exact ⟨modified.coherent, modified.frame⟩
    | error fault =>
        obtain ⟨after, run, modified, -⟩ := getPageMut_ok coherent quiet below noGap
        have stopped : Pager.modifyPage index change state = (.error fault, after) := by
          unfold Pager.modifyPage
          rw [Exec.bind_ok run, changed]
          rfl
        rw [stopped]
        exact ⟨modified.coherent, modified.frame⟩
  · have stopped : Pager.modifyPage index change state = (.error (.error message), state) := by
      unfold Pager.modifyPage
      exact Exec.bind_error (getPageMut_error refused)
    rw [stopped]
    exact ⟨coherent, Frame.refl state⟩

theorem allocatePage_loose : Exec.Preserves Loose Pager.allocatePage := by
  unfold Pager.allocatePage
  refine Loose.bind (Loose.of_unchanged fun _ => rfl) fun state => ?_
  exact Loose.bind (getPageMut_loose _) fun _ => Loose.of_unchanged fun _ => rfl

end PagerIo

end MukhiDb.Model
