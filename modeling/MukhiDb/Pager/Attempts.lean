import MukhiDb.Pager.Failures
import MukhiDb.Pager.Outcomes
import MukhiDb.Pager.History

/-!
Contract: transactions whose I/O can fail at any call.

Owns: what is left of the cache and of the `.db` file after each call of a pager,
whatever its I/O does, up to a commit that fails between its first and its last page
write; and the fact that over every run without such a commit, a rollback that returns
leaves all pages as the last successful commit did, or all as the failed one wrote them.

Does not own: what a page program makes of a failed call.
-/

namespace MukhiDb.Model

open MukhiDb.Foundation

namespace PagerIo

variable {state after : PagerIo} {index : Nat}

/-! ### Calls that leave cache and file alone -/

/-- The cached pages and the `.db` file are the same. -/
structure Unwritten (before after : PagerIo) : Prop where
  db : after.disk.db = before.disk.db
  pages : after.pager.pages = before.pager.pages
  dirty : after.pager.dirty = before.pager.dirty
  fileLength : after.pager.fileLength = before.pager.fileLength

theorem Unwritten.refl (state : PagerIo) : Unwritten state state := ⟨rfl, rfl, rfl, rfl⟩

theorem Unwritten.trans {first second third : PagerIo} (left : Unwritten first second)
    (right : Unwritten second third) : Unwritten first third :=
  ⟨right.db.trans left.db, right.pages.trans left.pages, right.dirty.trans left.dirty,
    right.fileLength.trans left.fileLength⟩

theorem unwritten_schedule (state : PagerIo) (schedule : List IoOutcome) :
    Unwritten state ⟨state.pager, state.disk, schedule⟩ := ⟨rfl, rfl, rfl, rfl⟩

theorem Unwritten.bind {α β : Type} {first : Exec PagerIo α} {next : α → Exec PagerIo β}
    (head : Exec.Preserves Unwritten first) (tail : ∀ value, Exec.Preserves Unwritten (next value)) :
    Exec.Preserves Unwritten (first >>= next) :=
  Exec.Preserves.bind (fun left right => left.trans right) head tail

/-- The pages of a file are those of its bytes. -/
theorem page_of_db {disk other : Disk} (same : other.db = disk.db) : other.page = disk.page := by
  funext index
  unfold Disk.page
  simp only [same]

theorem Unwritten.page (unwritten : Unwritten state after) : after.disk.page = state.disk.page :=
  page_of_db unwritten.db

theorem Unwritten.consistent (unwritten : Unwritten state after) (consistent : state.Consistent) :
    after.Consistent where
  fileAligned := by rw [unwritten.db]; exact consistent.fileAligned
  longer := by rw [unwritten.db, unwritten.fileLength]; exact consistent.longer
  clean := by rw [unwritten.pages, unwritten.dirty, unwritten.page]; exact consistent.clean
  dirtyCached := by rw [unwritten.pages, unwritten.dirty]; exact consistent.dirtyCached
  dirtyBelow := by
    unfold PagerIo.count
    rw [unwritten.dirty, unwritten.fileLength]
    exact consistent.dirtyBelow

theorem Unwritten.view (unwritten : Unwritten state after) : after.view = state.view := by
  funext index
  unfold PagerIo.view
  rw [unwritten.pages, unwritten.page]

theorem Unwritten.commitWrites (unwritten : Unwritten state after) :
    after.commitWrites = state.commitWrites :=
  dirtyPages_congr fun index _ =>
    ⟨congrFun unwritten.dirty index, congrFun unwritten.pages index⟩

theorem onWal_unwritten {α : Type} (call : Exec WalIo α) :
    Exec.Preserves Unwritten (onWal call) :=
  fun _ => ⟨rfl, rfl, rfl, rfl⟩

theorem onFile_touch_unwritten : Exec.Preserves Unwritten (onFile Medium.touch) := by
  intro state
  obtain ⟨schedule, touched⟩ := onFile_touch_after state
  rw [touched]
  exact ⟨rfl, rfl, rfl, rfl⟩

theorem logDirty_unwritten (indices : List Nat) :
    Exec.Preserves Unwritten (Pager.logDirty indices) := by
  induction indices with
  | nil => exact fun state => Unwritten.refl state
  | cons index rest inductionHypothesis =>
      apply Unwritten.bind fun state => Unwritten.refl state
      intro state
      split
      · rcases state.pager.pages index with _ | page
        · exact inductionHypothesis
        · exact Unwritten.bind (onWal_unwritten _) fun _ => inductionHypothesis
      · exact inductionHypothesis

/-! ### Calls that leave the file alone -/

/-- A consistent state stays consistent, and the `.db` file stays. -/
def Lasting (before after : PagerIo) : Prop :=
  before.Consistent → after.Consistent ∧ after.disk.db = before.disk.db

theorem Lasting.refl (state : PagerIo) : Lasting state state := fun consistent => ⟨consistent, rfl⟩

theorem Lasting.trans {first second third : PagerIo} (left : Lasting first second)
    (right : Lasting second third) : Lasting first third := by
  intro consistent
  obtain ⟨middle, same⟩ := left consistent
  obtain ⟨last, same'⟩ := right middle
  exact ⟨last, same'.trans same⟩

theorem Lasting.bind {α β : Type} {first : Exec PagerIo α} {next : α → Exec PagerIo β}
    (head : Exec.Preserves Lasting first) (tail : ∀ value, Exec.Preserves Lasting (next value)) :
    Exec.Preserves Lasting (first >>= next) :=
  Exec.Preserves.bind (fun left right => left.trans right) head tail

theorem Unwritten.lasting (unwritten : Unwritten state after) : Lasting state after :=
  fun consistent => ⟨unwritten.consistent consistent, unwritten.db⟩

/-- What is stored is what the file holds. -/
theorem Consistent.stored_page (consistent : state.Consistent) {page : Page}
    (found : state.stored index = .ok page) : page = state.disk.page index := by
  by_cases within : (index + 1) * pageSize ≤ state.pager.fileLength
  · rw [stored_within within] at found
    split at found
    · exact (Except.ok.inj found).symm
    · cases found
  · rw [stored_past within] at found
    obtain rfl := Except.ok.inj found
    refine (Disk.page_of_le ?_).symm
    have outside : ¬ index < state.disk.pageCount := fun inside =>
      within (((state.disk.page_inside_iff index).mpr inside).trans consistent.longer)
    exact Nat.le_of_not_lt outside

/-- Filling the cache keeps a state consistent. -/
theorem Filled.lasting (filled : Filled state after) : Lasting state after := by
  intro consistent
  refine ⟨?_, by rw [filled.disk]⟩
  exact
    { fileAligned := by rw [filled.disk]; exact consistent.fileAligned
      longer := by rw [filled.disk, filled.fileLength]; exact consistent.longer
      clean := by
        intro index page cached clean
        rw [filled.disk]
        rw [filled.dirty] at clean
        rcases filled.pages index with same | ⟨-, stored, found, cachedNow⟩
        · exact consistent.clean index page (same ▸ cached) clean
        · rw [cachedNow] at cached
          obtain rfl := Option.some.inj cached
          exact consistent.stored_page found
      dirtyCached := by
        intro index dirty
        rw [filled.dirty] at dirty
        have before := consistent.dirtyCached index dirty
        rcases filled.pages index with same | ⟨missing, -⟩
        · rw [same]
          exact before
        · exact absurd missing before
      dirtyBelow := by
        unfold PagerIo.count
        rw [filled.dirty, filled.fileLength]
        exact consistent.dirtyBelow }

/-- A page that was loaded is in the cache. -/
theorem loadPage_returned {page : Page} (ran : Pager.loadPage index state = (.ok page, after)) :
    index < maxPages ∧ after.pager.pages index = some page := by
  unfold Pager.loadPage at ran
  split at ran
  · cases ran
  next inside =>
  refine ⟨Nat.lt_of_not_le inside, ?_⟩
  rw [Exec.bind_ok (Exec.run_get state)] at ran
  rcases cached : state.pager.pages index with _ | found
  · rw [cached] at ran
    obtain ⟨fetched, between, -, ran⟩ := Exec.bind_eq_ok.mp ran
    obtain ⟨same, rfl⟩ := Prod.mk.inj ran
    obtain rfl := Except.ok.inj same
    exact Function.update_self _ _ _
  · rw [cached] at ran
    obtain ⟨same, rfl⟩ := Prod.mk.inj ran
    obtain rfl := Except.ok.inj same
    exact cached

theorem getPageMut_lasting (index : Nat) : Exec.Preserves Lasting (Pager.getPageMut index) := by
  intro state consistent
  have filled := loadPage_filled index state
  unfold Pager.getPageMut Pager.getPage
  rcases ran : Pager.loadPage index state with ⟨fault | page, loaded⟩
  · rw [ran] at filled
    rw [Exec.bind_error ran]
    exact filled.lasting consistent
  · rw [ran] at filled
    rw [Exec.bind_ok ran]
    obtain ⟨lasting, same⟩ := filled.lasting consistent
    obtain ⟨below, cached⟩ := loadPage_returned ran
    exact ⟨lasting.markDirty below (by rw [cached]; exact nofun), same⟩

theorem getPageMut_dirty {page : Page} (ran : Pager.getPageMut index state = (.ok page, after)) :
    after.pager.dirty index = true := by
  obtain ⟨_, between, -, ran⟩ := Exec.bind_eq_ok.mp ran
  obtain ⟨-, rfl⟩ := Prod.mk.inj ran
  exact Function.update_self _ _ _

theorem modifyPage_lasting (index : Nat) (change : Page → Except Fault Page) :
    Exec.Preserves Lasting (Pager.modifyPage index change) := by
  intro state consistent
  have lasting := getPageMut_lasting index state consistent
  unfold Pager.modifyPage
  rcases ran : Pager.getPageMut index state with ⟨fault | page, marked⟩
  · rw [ran] at lasting
    rw [Exec.bind_error ran]
    exact lasting
  · rw [ran] at lasting
    rw [Exec.bind_ok ran]
    rcases changed : change page with fault | page
    · exact lasting
    · exact ⟨lasting.1.cache_dirty (getPageMut_dirty ran) page, lasting.2⟩

theorem allocatePage_lasting : Exec.Preserves Lasting Pager.allocatePage :=
  Lasting.bind (fun state => Lasting.refl state) fun _ =>
    Lasting.bind (getPageMut_lasting _) fun _ state => Lasting.refl state

theorem begin_lasting : Exec.Preserves Lasting Pager.begin := by
  intro state
  cases busy : state.pager.inTransaction with
  | true =>
      rw [begin_busy busy]
      exact Lasting.refl state
  | false =>
      rw [begin_ok busy]
      exact Unwritten.lasting ⟨rfl, rfl, rfl, rfl⟩

/-! ### Rollback -/

theorem Consistent.dropDirty (consistent : state.Consistent) : (Pager.dropDirty state).Consistent where
  fileAligned := consistent.fileAligned
  longer := consistent.longer
  clean := by
    intro index page cached _
    unfold Pager.dropDirty at cached
    dsimp only at cached
    split at cached
    · cases cached
    · next clean => exact consistent.clean index page cached (by simpa using clean)
  dirtyCached := fun _ dirty => absurd dirty (by simp [Pager.dropDirty])
  dirtyBelow := fun _ dirty => absurd dirty (by simp [Pager.dropDirty])

/-- Without dirty pages the length of the file may be taken again. -/
theorem Consistent.setLength (consistent : state.Consistent)
    (clean : ∀ index, state.pager.dirty index = false) :
    ({ state with pager := { state.pager with fileLength := state.disk.db.length } } :
      PagerIo).Consistent :=
  { consistent with
    longer := Nat.le_refl _
    dirtyBelow := fun index dirty => absurd ((clean index).symm.trans dirty) (by decide) }

/-- The length that the file has is read, or nothing. -/
theorem onFile_length_cases (state : PagerIo) : ∃ schedule,
    onFile Medium.length state =
        (.ok state.disk.db.length, ⟨state.pager, state.disk, schedule⟩) ∨
      ∃ fault, onFile Medium.length state = (.error fault, ⟨state.pager, state.disk, schedule⟩) := by
  obtain ⟨pager, disk, schedule⟩ := state
  match schedule with
  | [] | .done :: _ => exact ⟨_, Or.inl rfl⟩
  | .failed _ _ :: _ | .stopped _ :: _ => exact ⟨_, Or.inr ⟨_, rfl⟩⟩

theorem rollback_lasting : Exec.Preserves Lasting Pager.rollback := by
  intro state consistent
  have dropped := consistent.dropDirty
  unfold Pager.rollback
  rw [Exec.bind_ok (Exec.run_modify _ _)]
  obtain ⟨schedule, ran | ⟨fault, ran⟩⟩ := onFile_length_cases (Pager.dropDirty state)
  · rw [Exec.bind_ok ran, Exec.bind_ok (Exec.run_modify _ _)]
    have measured := ((unwritten_schedule _ schedule).consistent dropped).setLength fun _ => rfl
    have ended : Exec.Preserves Unwritten (do
        onWal Wal.truncate
        Exec.modify Pager.endTransaction) :=
      Unwritten.bind (onWal_unwritten _) fun _ => fun _ => ⟨rfl, rfl, rfl, rfl⟩
    exact (ended _).lasting measured
  · rw [Exec.bind_error ran]
    exact (unwritten_schedule _ schedule).lasting dropped

/-- What a rollback that returned has done. -/
theorem rollback_returned (ran : Pager.rollback state = (.ok (), after)) :
    after.pager = state.rolledBack.pager ∧ after.disk = state.rolledBack.disk := by
  by_cases clear : Clear 3 state.schedule
  · obtain ⟨-, rfl⟩ := Prod.mk.inj (ran.symm.trans (rollback_clear clear))
    exact ⟨rfl, rfl⟩
  · obtain ⟨fault, stopped, failed, -⟩ := rollback_failed clear
    rw [failed] at ran
    cases ran

/-- Every page reads as given, now and after the file is closed and opened again. -/
def ReadsAs (path : String) (state : PagerIo) (pages : Nat → Page) : Prop :=
  (∀ index < maxPages,
    (Pager.readPage index ⟨state.pager, state.disk, []⟩).1 = .ok (pages index)) ∧
    OpensTo path state.disk pages

/-- After a rollback that returned, the pages read as the file. -/
theorem Consistent.rollback_readsAs (consistent : state.Consistent) (path : String)
    (ran : Pager.rollback state = (.ok (), after)) : ReadsAs path after state.disk.page := by
  obtain ⟨pager, disk⟩ := rollback_returned ran
  unfold ReadsAs
  rw [pager, disk]
  refine ⟨fun index below => ?_, ?_⟩
  · have quiet : Unwritten state ⟨state.pager, state.disk, []⟩ := ⟨rfl, rfl, rfl, rfl⟩
    have consistentQuiet := quiet.consistent consistent
    obtain ⟨loaded, run, -⟩ := loadPage_ok consistentQuiet.rolledBack_coherent rfl below
      (noGap_of_lengths rfl index)
    rw [consistentQuiet.rolledBack_view] at run
    exact congrArg Prod.fst run
  · have opens := opensTo_recovered path
      (show state.rolledBack.disk.Aligned from consistent.fileAligned)
    rw [Disk.recovered_of_empty rfl] at opens
    exact opens

/-! ### Commit -/

/-- The first half of a commit: the dirty pages are logged, and the log is sealed. -/
def sealing : Exec PagerIo Unit := do
  Pager.logDirty pageIndices
  onWal Wal.appendCommit

/-- What follows the page writes of a commit. -/
def ending : Exec PagerIo Unit := do
  onFile Medium.touch
  onFile Medium.touch
  onWal Wal.truncate
  Exec.modify Pager.endTransaction

theorem commit_eq : Pager.commit = (do sealing; Pager.applyDirty pageIndices; ending) := by
  unfold Pager.commit sealing ending
  rw [bind_assoc]

theorem sealing_unwritten : Exec.Preserves Unwritten sealing :=
  Unwritten.bind (logDirty_unwritten _) fun _ => onWal_unwritten _

theorem ending_unwritten : Exec.Preserves Unwritten ending :=
  Unwritten.bind onFile_touch_unwritten fun _ =>
    Unwritten.bind onFile_touch_unwritten fun _ =>
      Unwritten.bind (onWal_unwritten _) fun _ => fun _ => ⟨rfl, rfl, rfl, rfl⟩

theorem spends_sealing (state : PagerIo) :
    Spends sealing (2 * state.commitWrites.length + 3) (fun _ => True) state :=
  (spends_logDirty pageIndices state).bind (fun after same => by rw [same])
    fun _ between _ => (spends_appendCommit between).mono fun _ _ => trivial

/-- A commit that fails before the log is sealed has written nothing to the file. -/
theorem commit_unsealed (failed : ¬ Clear (2 * state.commitWrites.length + 3) state.schedule) :
    Unwritten state (Pager.commit state).2 := by
  obtain ⟨fault, stopped, ran, -⟩ := (spends_sealing state).failed failed
  have unwritten := sealing_unwritten state
  rw [ran] at unwritten
  rw [commit_eq, Exec.bind_error ran]
  exact unwritten

/-- A commit that gets to the page writes. -/
theorem commit_sealed (clear : Clear (2 * state.commitWrites.length + 3) state.schedule) :
    ∃ between, Unwritten state between ∧
      between.schedule = state.schedule.drop (2 * state.commitWrites.length + 3) ∧
      Pager.commit state = (do Pager.applyDirty pageIndices; ending) between := by
  obtain ⟨_, between, ran, schedule, -⟩ := (spends_sealing state).clear clear
  have unwritten := sealing_unwritten state
  rw [ran] at unwritten
  exact ⟨between, unwritten, schedule, by rw [commit_eq, Exec.bind_ok ran]⟩

/-- The first page write is refused: the seek fails, or the write with nothing written. -/
theorem applyDirty_refused {write : Nat × Page} {rest : List (Nat × Page)}
    (writes : state.commitWrites = write :: rest)
    (refused : ¬ Clear 1 state.schedule ∨
      ∃ message, Clear 1 state.schedule ∧ state.schedule[1]? = some (.failed message 0)) :
    ∃ fault, ∃ stopped, Pager.applyDirty pageIndices state = (.error fault, stopped) ∧
      Unwritten state stopped := by
  have looped := Pager.applyDirty_eq pageIndices nodup_pageIndices state
  rw [show state.dirtyPages pageIndices = write :: rest from writes] at looped
  rw [looped]
  obtain ⟨pager, disk, schedule⟩ := state
  rcases refused with failed | ⟨message, clear, failed⟩
  · obtain ⟨outcome, others, rfl, notDone⟩ := not_clear_succ.mp failed
    cases outcome with
    | done => exact absurd (clear_zero others) (notDone rfl)
    | failed message bytes => exact ⟨_, _, rfl, rfl, rfl, rfl, rfl⟩
    | stopped bytes => exact ⟨_, _, rfl, rfl, rfl, rfl, rfl⟩
  · rcases clear_succ.mp clear with rfl | ⟨others, rfl, -⟩
    · cases failed
    · match others with
      | [] => cases failed
      | outcome :: last =>
          obtain rfl := Option.some.inj failed
          refine ⟨_, _, rfl, ?_, rfl, rfl, rfl⟩
          change overwrite disk.db (write.1 * pageSize) (write.2.bytes.take 0) = disk.db
          rw [List.take_zero, overwrite_nil]

/-- Once all pages are written the file reads as the working pages. -/
theorem applyDirty_whole (consistent : state.Consistent)
    (clear : Clear (2 * state.commitWrites.length) state.schedule) :
    ∃ written, Pager.applyDirty pageIndices state = (.ok (), written) ∧ written.Consistent ∧
      written.disk.page = state.view := by
  obtain ⟨⟨⟩, written, ran, -, -⟩ :=
    (spends_applyDirty pageIndices nodup_pageIndices state).clear clear
  have quiet := Pager.oblivious_applyDirty pageIndices state written () ran
  have applied : written.quieted = state.quieted.applied pageIndices :=
    (Prod.mk.inj (quiet.symm.trans
      (applyDirty_ok state.quieted_quiet pageIndices nodup_pageIndices))).2
  have pager : written.quieted.pager = (state.applied pageIndices).pager := by rw [applied]; rfl
  have disk : written.quieted.disk = (state.applied pageIndices).disk := by rw [applied]; rfl
  change written.pager = _ at pager
  change written.disk = _ at disk
  have page : written.disk.page = state.view := by
    rw [disk]
    exact consistent.committed_page
  refine ⟨written, ran, ?_, page⟩
  have clean : ∀ index, written.pager.dirty index = false := by
    intro index
    rw [pager]
    exact consistent.dirtyAfter_all index
  exact
    { fileAligned := by rw [disk]; exact consistent.committed_aligned
      longer := by
        rw [disk, pager]
        exact consistent.committed_longer
      clean := by
        intro index found cached _
        rw [page]
        have before : state.pager.pages index = some found := by
          rw [pager] at cached
          exact cached
        unfold PagerIo.view
        rw [before, Option.getD_some]
      dirtyCached := fun index dirty => absurd (clean index) (by simp [dirty])
      dirtyBelow := fun index dirty => absurd (clean index) (by simp [dirty]) }

/-- All page writes of the commit take effect. -/
def WritesAll (state : PagerIo) : Prop := Clear (4 * state.commitWrites.length + 3) state.schedule

instance decidableWritesAll (state : PagerIo) : Decidable state.WritesAll :=
  inferInstanceAs (Decidable (Clear _ _))

/-- No page write of the commit takes effect: it fails up to the seek for the first one, or at
the first one with nothing written. -/
def WritesNone (state : PagerIo) : Prop :=
  ¬ Clear (2 * state.commitWrites.length + 4) state.schedule ∨
    ∃ message, state.schedule[2 * state.commitWrites.length + 4]? = some (.failed message 0)

/-- After a commit whose page writes all take effect the file reads as the working pages. -/
theorem Consistent.commit_writesAll (consistent : state.Consistent) (all : state.WritesAll) :
    (Pager.commit state).2.Consistent ∧ (Pager.commit state).2.disk.page = state.view := by
  have count : 4 * state.commitWrites.length + 3 =
      2 * state.commitWrites.length + 3 + 2 * state.commitWrites.length := by
    omega
  unfold WritesAll at all
  rw [count] at all
  obtain ⟨clear, clearWrites⟩ := clear_add.mp all
  obtain ⟨between, unwritten, schedule, ran⟩ := commit_sealed clear
  rw [← schedule, ← unwritten.commitWrites] at clearWrites
  obtain ⟨written, applied, consistentAfter, page⟩ :=
    applyDirty_whole (unwritten.consistent consistent) clearWrites
  have ended := ending_unwritten written
  rw [ran, Exec.bind_ok applied]
  exact ⟨ended.consistent consistentAfter, ended.page.trans (page.trans unwritten.view)⟩

/-- A commit none of whose page writes takes effect leaves cache and file alone. -/
theorem commit_writesNone (some : state.commitWrites ≠ []) (none : state.WritesNone) :
    Unwritten state (Pager.commit state).2 := by
  by_cases clear : Clear (2 * state.commitWrites.length + 3) state.schedule
  · obtain ⟨between, unwritten, schedule, ran⟩ := commit_sealed clear
    obtain ⟨write, rest, writes⟩ := List.exists_cons_of_ne_nil some
    have refused : ¬ Clear 1 between.schedule ∨
        ∃ message, Clear 1 between.schedule ∧ between.schedule[1]? = .some (.failed message 0) := by
      by_cases clearSeek : Clear 1 between.schedule
      · refine Or.inr ?_
        rcases none with early | ⟨message, failed⟩
        · rw [schedule] at clearSeek
          exact absurd (clear_add.mpr ⟨clear, clearSeek⟩) early
        · refine ⟨message, clearSeek, ?_⟩
          rw [schedule, List.getElem?_drop]
          exact failed
      · exact Or.inl clearSeek
    obtain ⟨fault, stopped, failed, same⟩ :=
      applyDirty_refused (unwritten.commitWrites.trans writes) refused
    rw [ran, Exec.bind_error failed]
    exact unwritten.trans same
  · exact commit_unsealed clear

/-- Without dirty pages the file holds the working pages. -/
theorem Consistent.view_of_clean (consistent : state.Consistent) (none : state.commitWrites = []) :
    state.view = state.disk.page := by
  have page : state.committed.disk.page = state.disk.page := by
    change (state.disk.putAll state.commitWrites).page = _
    rw [none]
    rfl
  exact consistent.committed_page.symm.trans page

/-- A commit without dirty pages leaves every page of the file as it is. -/
theorem Consistent.commit_clean (consistent : state.Consistent) (none : state.commitWrites = []) :
    (Pager.commit state).2.Consistent ∧ (Pager.commit state).2.disk.page = state.view := by
  by_cases clear : Clear 3 state.schedule
  · refine consistent.commit_writesAll ?_
    unfold WritesAll
    rw [none]
    exact clear
  · have unwritten : Unwritten state (Pager.commit state).2 := by
      refine commit_unsealed ?_
      rw [none]
      exact clear
    exact ⟨unwritten.consistent consistent,
      unwritten.page.trans (consistent.view_of_clean none).symm⟩

/-- A commit that returns has made all its page writes. -/
theorem commit_ok_writesAll {value : Unit} (ran : Pager.commit state = (.ok value, after)) :
    state.WritesAll := by
  by_cases clear : Clear state.commitCalls state.schedule
  · have count : state.commitCalls = 4 * state.commitWrites.length + 3 + 4 := rfl
    rw [count] at clear
    exact (clear_add.mp clear).1
  · obtain ⟨fault, stopped, failed, -⟩ := (spends_commit state).failed clear
    rw [failed] at ran
    cases ran

end PagerIo

/-! ### Runs -/

open PagerIo

/-- What the commits of a run were meant to leave. -/
structure Ledger where
  /-- The pages at the last successful commit. -/
  committed : Nat → Page
  /-- The pages at the last commit. -/
  attempted : Nat → Page
  /-- A commit since the last successful one has failed after it wrote all its pages. -/
  landed : Bool

/-- The ledger of a pager that was just opened. -/
def Ledger.opened (disk : Disk) : Ledger := ⟨disk.page, disk.page, false⟩

/-- The ledger after a commit. -/
def Ledger.afterCommit (ledger : Ledger) (state : PagerIo) : Ledger :=
  match (Pager.commit state).1 with
  | .ok _ => ⟨state.view, state.view, false⟩
  | .error _ =>
      ⟨ledger.committed, state.view, ledger.landed || (state.commitWrites ≠ [] ∧ state.WritesAll)⟩

/-- The calls on a pager, with the ledger of its commits. -/
def PagerCall.attempts : Machine (PagerIo × Ledger) PagerCall (Except Fault PagerAnswer) :=
  fun call state =>
    ((machine call state.1).1, (machine call state.1).2,
      match call with
      | commit => state.2.afterCommit state.1
      | _ => state.2)

/-- A commit does not fail between its first and its last page write; and after one that failed
later, none fails before its first until one has returned. -/
def PagerCall.WholeCommit : PagerCall → PagerIo × Ledger → Prop
  | commit, (state, ledger) =>
      state.commitWrites = [] ∨ state.WritesAll ∨ (ledger.landed = false ∧ state.WritesNone)
  | _, _ => True

/-- The file holds what the last successful commit left, or what the last commit wrote. -/
structure Whole (state : PagerIo) (ledger : Ledger) : Prop where
  consistent : state.Consistent
  held : state.disk.page = ledger.committed ∨ state.disk.page = ledger.attempted
  kept : ledger.landed = false → state.disk.page = ledger.committed

theorem Whole.lasting {state after : PagerIo} {ledger : Ledger} (whole : Whole state ledger)
    (lasting : Lasting state after) : Whole after ledger := by
  obtain ⟨consistent, db⟩ := lasting whole.consistent
  have page := page_of_db db
  exact ⟨consistent, by rw [page]; exact whole.held, by rw [page]; exact whole.kept⟩

/-- Every call but a commit leaves the file alone. -/
theorem PagerCall.machine_lasting {call : PagerCall} (other : call ≠ commit) :
    Exec.Preserves Lasting (machine call) := by
  have answered {α : Type} (answer : α → PagerAnswer) (value : α) :
      Exec.Preserves Lasting (pure (answer value) : Exec PagerIo PagerAnswer) :=
    fun state => Lasting.refl state
  cases call with
  | readPage pageNum =>
      exact Lasting.bind (fun state => (loadPage_filled pageNum state).lasting) (answered .page)
  | getPage pageNum =>
      exact Lasting.bind (fun state => (loadPage_filled pageNum state).lasting) (answered .page)
  | getPageMut pageNum change =>
      exact Lasting.bind (modifyPage_lasting pageNum _) (answered fun _ => .done)
  | allocatePage => exact Lasting.bind allocatePage_lasting (answered .allocated)
  | begin => exact Lasting.bind begin_lasting (answered fun _ => .done)
  | commit => exact absurd rfl other
  | rollback => exact Lasting.bind rollback_lasting (answered fun _ => .done)

/-- The state after a commit, whatever it returns. -/
theorem PagerCall.machine_commit_state (state : PagerIo) :
    (machine commit state).2 = (Pager.commit state).2 := by
  rcases ran : Pager.commit state with ⟨fault | value, after⟩
  · rw [machine, perform, Exec.bind_error ran]
  · rw [machine, perform, Exec.bind_ok ran]
    rfl

/-- One commit. -/
theorem Whole.commit {state : PagerIo} {ledger : Ledger} (whole : Whole state ledger)
    (good : PagerCall.commit.WholeCommit (state, ledger)) :
    Whole (Pager.commit state).2 (ledger.afterCommit state) := by
  have consistent := whole.consistent
  unfold Ledger.afterCommit
  rcases ran : Pager.commit state with ⟨fault | value, after⟩
  · have result : (Pager.commit state).2 = after := by rw [ran]
    dsimp only
    rcases good with clean | all | ⟨fresh, none⟩
    · obtain ⟨consistentAfter, page⟩ := consistent.commit_clean clean
      rw [result] at consistentAfter page
      refine ⟨consistentAfter, Or.inr page, fun fresh => ?_⟩
      have freshBefore : ledger.landed = false := (Bool.or_eq_false_iff.mp fresh).1
      exact page.trans ((consistent.view_of_clean clean).trans (whole.kept freshBefore))
    · obtain ⟨consistentAfter, page⟩ := consistent.commit_writesAll all
      rw [result] at consistentAfter page
      refine ⟨consistentAfter, Or.inr page, fun fresh => ?_⟩
      obtain ⟨freshBefore, notLanded⟩ := Bool.or_eq_false_iff.mp fresh
      have clean : state.commitWrites = [] := by
        by_contra some
        exact absurd notLanded (by simp [some, all])
      exact page.trans ((consistent.view_of_clean clean).trans (whole.kept freshBefore))
    · by_cases clean : state.commitWrites = []
      · obtain ⟨consistentAfter, page⟩ := consistent.commit_clean clean
        rw [result] at consistentAfter page
        exact ⟨consistentAfter, Or.inr page,
          fun _ => page.trans ((consistent.view_of_clean clean).trans (whole.kept fresh))⟩
      · have unwritten := commit_writesNone clean none
        rw [result] at unwritten
        have kept := unwritten.page.trans (whole.kept fresh)
        exact ⟨unwritten.consistent consistent, Or.inl kept, fun _ => kept⟩
  · obtain ⟨consistentAfter, page⟩ := consistent.commit_writesAll (commit_ok_writesAll ran)
    rw [ran] at consistentAfter page
    exact ⟨consistentAfter, Or.inl page, fun _ => page⟩

theorem Whole.step {call : PagerCall} {state : PagerIo × Ledger} (whole : Whole state.1 state.2)
    (good : call.WholeCommit state) :
    Whole (PagerCall.attempts call state).2.1 (PagerCall.attempts call state).2.2 := by
  obtain ⟨state, ledger⟩ := state
  by_cases commits : call = .commit
  · subst commits
    unfold PagerCall.attempts
    dsimp only
    rw [PagerCall.machine_commit_state]
    exact whole.commit good
  · have unchanged : (PagerCall.attempts call (state, ledger)).2.2 = ledger := by
      cases call with
      | commit => exact absurd rfl commits
      | _ => rfl
    rw [unchanged]
    exact whole.lasting (PagerCall.machine_lasting commits state)

/-- Calls that are no commits leave the file alone. -/
theorem PagerCall.run_lasting {calls : List PagerCall} (others : ∀ call ∈ calls, call ≠ commit)
    (state : PagerIo) : Lasting state (Machine.run machine calls state).2 := by
  induction calls generalizing state with
  | nil => exact Lasting.refl state
  | cons call rest inductionHypothesis =>
      exact (machine_lasting (others call List.mem_cons_self) state).trans
        (inductionHypothesis (fun other member => others other (List.mem_cons_of_mem _ member)) _)

/-- A pager that was opened, and the ledger at that time. -/
def openedAttempts (pager : Pager) (files : DiskIo) : PagerIo × Ledger :=
  (⟨pager, files.disk, files.schedule⟩, Ledger.opened files.disk)

theorem Whole.start {path : String} {disk : Disk} {schedule : List IoOutcome} {pager : Pager}
    {files : DiskIo} (opened : Pager.open path ⟨disk, schedule⟩ = (.ok pager, files)) :
    Whole (openedAttempts pager files).1 (openedAttempts pager files).2 := by
  obtain ⟨aligned, rfl, recovered⟩ := Pager.open_returned opened
  have coherent := Pager.fresh_coherent aligned.recovered files.schedule
  rw [← recovered] at coherent
  exact ⟨by rw [← recovered]; exact coherent.consistent, Or.inl rfl, fun _ => rfl⟩

/-- In every run of a pager, whatever its I/O does, whose commits do not fail between their first
and their last page write: when a commit fails and a rollback after it returns, either every page
reads as at the last successful commit or every page reads as the failed commit wrote it, and so
after closing and opening the file again. -/
theorem commit_failed_whole {path : String} {disk : Disk} {schedule : List IoOutcome}
    {pager : Pager} {files : DiskIo} {stopped after : PagerIo} {fault : Fault}
    (opened : Pager.open path ⟨disk, schedule⟩ = (.ok pager, files))
    (calls others : List PagerCall) (noCommit : ∀ call ∈ others, call ≠ .commit)
    (whole : Machine.Along PagerCall.attempts PagerCall.WholeCommit (calls ++ [.commit])
      (openedAttempts pager files))
    (failed : Pager.commit
      (Machine.run PagerCall.attempts calls (openedAttempts pager files)).2.1 =
        (.error fault, stopped))
    (rolledBack : Pager.rollback (Machine.run PagerCall.machine others stopped).2 = (.ok (), after)) :
    ReadsAs path after
        (Machine.run PagerCall.attempts calls (openedAttempts pager files)).2.2.committed ∨
      ReadsAs path after
        (Machine.run PagerCall.attempts calls (openedAttempts pager files)).2.1.view := by
  obtain ⟨before, last, -⟩ := Machine.along_append.mp whole
  have reached := @Machine.run_invariant _ _ _ PagerCall.attempts PagerCall.WholeCommit
    (fun state => Whole state.1 state.2) (fun _ _ held good => held.step good) calls _
    (Whole.start opened) before
  have attempted := reached.commit last
  generalize (Machine.run PagerCall.attempts calls (openedAttempts pager files)).2 = state at *
  unfold Ledger.afterCommit at attempted
  rw [failed] at attempted
  have lasting := PagerCall.run_lasting noCommit stopped
  obtain ⟨consistent, db⟩ := lasting attempted.consistent
  have reads := consistent.rollback_readsAs path rolledBack
  rw [page_of_db db] at reads
  rcases attempted.held with same | same
  · have same : stopped.disk.page = state.2.committed := same
    exact Or.inl (same ▸ reads)
  · have same : stopped.disk.page = state.1.view := same
    exact Or.inr (same ▸ reads)

/-- Two pages of an empty file are marked, and this I/O call of the next commit is about to
fail. -/
def twoMarked (calls : Nat) : PagerIo × Ledger :=
  (Machine.run PagerCall.attempts
    [.getPageMut 0 fun _ => TableHistory.markedPage, .getPageMut 1 fun _ => TableHistory.markedPage]
    (openedAttempts (Pager.fresh 0)
      ⟨⟨[], []⟩, List.replicate calls .done ++ [.failed "disk full" 0]⟩)).2

theorem dirtyPages_twoMarked (calls : Nat) (wal : Wal) (disk : Disk) (schedule : List IoOutcome) :
    dirtyPages ⟨{ (twoMarked calls).1.pager with wal := wal }, disk, schedule⟩ pageIndices =
      [(0, TableHistory.markedPage), (1, TableHistory.markedPage)] := by
  refine @commitWrites_eq ⟨{ (twoMarked calls).1.pager with wal := wal }, disk, schedule⟩ 2
    (show 2 ≤ maxPages by decide) fun index above => ?_
  have first : index ≠ 0 := by omega
  have second : index ≠ 1 := by omega
  exact (Function.update_of_ne second _ _).trans (Function.update_of_ne first _ _)

/-- The commit of two pages seals its log with seven I/O calls, and then writes the pages. -/
theorem commit_two {pager : Pager} {page : Page} (schedule : List IoOutcome)
    (writes : ∀ wal disk schedule, dirtyPages ⟨{ pager with wal := wal }, disk, schedule⟩ pageIndices =
      [(0, page), (1, page)]) :
    ∃ wal log, Pager.commit ⟨pager, ⟨[], []⟩, List.replicate 7 .done ++ schedule⟩ =
      (do Pager.applyWrites [(0, page), (1, page)]; ending)
        ⟨{ pager with wal := wal }, ⟨[], log⟩, schedule⟩ := by
  have logged : ∃ log, Pager.logDirty pageIndices
      ⟨pager, ⟨[], []⟩, List.replicate 7 .done ++ schedule⟩ =
        (.ok (), ⟨pager, ⟨[], log⟩, List.replicate 3 .done ++ schedule⟩) := by
    have looped := Pager.logDirty_eq pageIndices
      ⟨pager, ⟨[], []⟩, List.replicate 7 .done ++ schedule⟩
    rw [show dirtyPages _ pageIndices = _ from writes pager.wal ⟨[], []⟩ _] at looped
    exact ⟨_, looped⟩
  obtain ⟨log, logged⟩ := logged
  have sealed : onWal Wal.appendCommit
      ⟨pager, ⟨[], log⟩, List.replicate 3 .done ++ schedule⟩ =
        (.ok (), ⟨{ pager with wal := ⟨(pager.wal.txnId + 1) % 2 ^ 64⟩ },
          ⟨[], log ++ Wal.commitRecord pager.wal.txnId⟩, schedule⟩) := rfl
  have applied := Pager.applyDirty_eq pageIndices nodup_pageIndices
    ⟨{ pager with wal := ⟨(pager.wal.txnId + 1) % 2 ^ 64⟩ },
      ⟨[], log ++ Wal.commitRecord pager.wal.txnId⟩, schedule⟩
  rw [writes] at applied
  refine ⟨⟨(pager.wal.txnId + 1) % 2 ^ 64⟩, log ++ Wal.commitRecord pager.wal.txnId, ?_⟩
  unfold Pager.commit
  rw [Exec.bind_ok logged, Exec.bind_ok sealed, Exec.run_bind, applied]
  rfl

/-- The state in which the commit of two marked pages is about to fail when it flushes them. -/
def aboutToFlush : PagerIo × Ledger := twoMarked 11

/-- The commit of two marked pages fails at the flush after it wrote them, the rollback returns,
and both pages are whole. -/
theorem commit_failed_whole_flush :
    ∃ stopped after, Pager.commit aboutToFlush.1 = (.error (.error "disk full"), stopped) ∧
      Pager.rollback stopped = (.ok (), after) ∧
      (ReadsAs "t.db" after aboutToFlush.2.committed ∨
        ReadsAs "t.db" after aboutToFlush.1.view) := by
  have opened : Pager.open "t.db" ⟨⟨[], []⟩, List.replicate 16 .done ++ [.failed "disk full" 0]⟩ =
      (.ok (Pager.fresh 0), ⟨⟨[], []⟩, List.replicate 11 .done ++ [.failed "disk full" 0]⟩) := rfl
  obtain ⟨wal, log, sealed⟩ := commit_two
    (List.replicate 4 .done ++ [.failed "disk full" 0]) (dirtyPages_twoMarked 11)
  have failed : ∃ stopped, Pager.commit aboutToFlush.1 = (.error (.error "disk full"), stopped) ∧
      stopped.Quiet := ⟨_, sealed.trans rfl, rfl⟩
  obtain ⟨stopped, failed, quiet⟩ := failed
  have writes : aboutToFlush.1.commitWrites =
      [(0, TableHistory.markedPage), (1, TableHistory.markedPage)] := dirtyPages_twoMarked 11 _ _ _
  have all : aboutToFlush.1.WritesAll := by
    have schedule : aboutToFlush.1.schedule =
        List.replicate 11 .done ++ [.failed "disk full" 0] := rfl
    unfold WritesAll
    rw [writes, schedule]
    decide
  refine ⟨_, _, failed, rollback_ok quiet, ?_⟩
  exact commit_failed_whole opened
    [.getPageMut 0 fun _ => TableHistory.markedPage, .getPageMut 1 fun _ => TableHistory.markedPage]
    [] (fun _ member => absurd member List.not_mem_nil)
    ⟨trivial, trivial, Or.inr (Or.inl all), trivial⟩ failed (rollback_ok quiet)

/-- The state in which a commit of two marked pages is about to fail between them. -/
def aboutToMix : PagerIo × Ledger := twoMarked 9

/-- The commit of two pages of an empty file fails at the seek for the second one. -/
theorem commit_stops_between {pager : Pager} {page : Page}
    (writes : ∀ wal disk schedule, dirtyPages ⟨{ pager with wal := wal }, disk, schedule⟩ pageIndices =
      [(0, page), (1, page)]) :
    ∃ stopped, Pager.commit
        ⟨pager, ⟨[], []⟩, List.replicate 9 .done ++ [.failed "disk full" 0]⟩ =
          (.error (.error "disk full"), stopped) ∧
      stopped.Quiet ∧ stopped.disk.db = overwrite [] (0 * pageSize) page.bytes ∧
      stopped.pager.pages = pager.pages ∧
      stopped.pager.dirty = Function.update pager.dirty 0 false := by
  obtain ⟨wal, log, sealed⟩ := commit_two
    (List.replicate 2 .done ++ [.failed "disk full" 0]) writes
  exact ⟨_, sealed.trans rfl, rfl, rfl, rfl, rfl⟩

/-- The commit of two marked pages of an empty file fails at the seek for the second one. After
the rollback page 0 is marked and page 1 is not. -/
theorem commit_failed_mixed :
    ∃ stopped after, Pager.open "t.db"
        ⟨⟨[], []⟩, List.replicate 14 .done ++ [.failed "disk full" 0]⟩ =
          (.ok (Pager.fresh 0), ⟨⟨[], []⟩, List.replicate 9 .done ++ [.failed "disk full" 0]⟩) ∧
      Pager.commit aboutToMix.1 = (.error (.error "disk full"), stopped) ∧
      Pager.rollback stopped = (.ok (), after) ∧
      ¬ (ReadsAs "t.db" after aboutToMix.2.committed ∨
        ReadsAs "t.db" after aboutToMix.1.view) := by
  obtain ⟨stopped, failed, quiet, db, pages, dirty⟩ := commit_stops_between (dirtyPages_twoMarked 9)
  refine ⟨stopped, stopped.rolledBack, rfl, failed, rollback_ok quiet, ?_⟩
  have first : (Pager.readPage 0 ⟨stopped.rolledBack.pager, stopped.rolledBack.disk, []⟩).1 =
      .ok TableHistory.markedPage := by
    have cached : stopped.rolledBack.pager.pages 0 = some TableHistory.markedPage := by
      change (if stopped.pager.dirty 0 then none else stopped.pager.pages 0) = _
      rw [dirty, pages]
      rfl
    unfold Pager.readPage
    rw [@loadPage_quiet ⟨stopped.rolledBack.pager, stopped.rolledBack.disk, []⟩ rfl]
    exact reads_cached (by decide) cached
  have second : (Pager.readPage 1 ⟨stopped.rolledBack.pager, stopped.rolledBack.disk, []⟩).1 =
      .ok Page.zero := by
    have missing : stopped.rolledBack.pager.pages 1 = none := by
      change (if stopped.pager.dirty 1 then none else stopped.pager.pages 1) = _
      rw [dirty]
      rfl
    have past : ¬ (1 + 1) * pageSize ≤ stopped.rolledBack.pager.fileLength := by
      change ¬ (1 + 1) * pageSize ≤ stopped.disk.db.length
      rw [db, overwrite_length (Disk.page_bytes_ne_nil _), TableHistory.markedPage.size]
      decide
    unfold Pager.readPage
    rw [@loadPage_quiet ⟨stopped.rolledBack.pager, stopped.rolledBack.disk, []⟩ rfl]
    exact (reads_missing (by decide) missing).trans (stored_past past)
  have different := TableHistory.markedPage_ne_zero
  rintro (reads | reads)
  · have read := reads.1 0 (by decide)
    rw [first] at read
    exact different (Except.ok.inj read)
  · have read := reads.1 1 (by decide)
    rw [second] at read
    exact different (Except.ok.inj read).symm

end MukhiDb.Model
