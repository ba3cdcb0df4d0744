import MukhiDb.Model.BTree
import MukhiDb.Pager.Contents

/-!
Contract: what an open pager answers when pages are loaded, whatever state it is in.

Owns: the answer to every load; the exact state after a load, a change and an
allocation whose I/O succeeds; the fact that a load only fills the cache, whatever
its outcome; and the value of a page program that only loads.

Does not own: which states are coherent, and what the pages mean.
-/

namespace MukhiDb.Model

open MukhiDb.Foundation

namespace PagerIo

variable {state after : PagerIo} {index : Nat} {page : Page}

/-! ### Answers -/

/-- What a page that is not in the cache reads as. -/
def stored (state : PagerIo) (index : Nat) : Except Fault Page :=
  if (index + 1) * pageSize ≤ state.pager.fileLength then
    if index < state.disk.pageCount then .ok (state.disk.page index)
    else .error (.error "failed to fill whole buffer")
  else .ok Page.zero

/-- What loading a page answers if its I/O succeeds. -/
def reads (state : PagerIo) (index : Nat) : Except Fault Page :=
  if maxPages ≤ index then .error (.error (Pager.pageLimitMessage index))
  else
    match state.pager.pages index with
    | some page => .ok page
    | none => state.stored index

theorem reads_limit (beyond : maxPages ≤ index) :
    state.reads index = .error (.error (Pager.pageLimitMessage index)) :=
  if_pos beyond

theorem reads_cached (below : ¬ maxPages ≤ index) (cached : state.pager.pages index = some page) :
    state.reads index = .ok page := by
  unfold reads
  rw [if_neg below, cached]

theorem reads_missing (below : ¬ maxPages ≤ index) (missing : state.pager.pages index = none) :
    state.reads index = state.stored index := by
  unfold reads
  rw [if_neg below, missing]

/-! ### Loads with any outcome -/

theorem onFile_touch_after (state : PagerIo) :
    ∃ schedule, (onFile Medium.touch state).2 = ⟨state.pager, state.disk, schedule⟩ := by
  obtain ⟨pager, disk, schedule⟩ := state
  cases schedule with
  | nil => exact ⟨_, rfl⟩
  | cons outcome rest => cases outcome <;> exact ⟨_, rfl⟩

theorem onFile_readAt_ok {offset width : Nat} {found : Option Bytes}
    (ran : onFile (Medium.readAt offset width) state = (.ok found, after)) :
    found = if offset + width ≤ state.disk.db.length then some (slice state.disk.db offset width)
      else none := by
  obtain ⟨pager, disk, schedule⟩ := state
  cases schedule with
  | nil => exact (Except.ok.inj (Prod.mk.inj ran).1).symm
  | cons outcome rest =>
      cases outcome with
      | done => exact (Except.ok.inj (Prod.mk.inj ran).1).symm
      | failed message bytes => cases (Prod.mk.inj ran).1
      | stopped bytes => cases (Prod.mk.inj ran).1

theorem onFile_readAt_after (offset width : Nat) (state : PagerIo) :
    ∃ schedule, (onFile (Medium.readAt offset width) state).2 =
      ⟨state.pager, state.disk, schedule⟩ := by
  obtain ⟨pager, disk, schedule⟩ := state
  cases schedule with
  | nil => exact ⟨_, rfl⟩
  | cons outcome rest => cases outcome <;> exact ⟨_, rfl⟩

theorem stored_within (within : (index + 1) * pageSize ≤ state.pager.fileLength) :
    state.stored index =
      if index < state.disk.pageCount then .ok (state.disk.page index)
      else .error (.error "failed to fill whole buffer") :=
  if_pos within

theorem stored_past (past : ¬ (index + 1) * pageSize ≤ state.pager.fileLength) :
    state.stored index = .ok Page.zero :=
  if_neg past

/-- Fetching changes nothing but the schedule. -/
theorem fetch_after (index : Nat) (state : PagerIo) :
    ∃ schedule, (Pager.fetch index state).2 = ⟨state.pager, state.disk, schedule⟩ := by
  unfold Pager.fetch
  rw [Exec.bind_ok (Exec.run_get state)]
  split
  · obtain ⟨schedule, touched⟩ := onFile_touch_after state
    rcases sought : onFile Medium.touch state with ⟨_ | _, middle⟩
    · rw [Exec.bind_error sought]
      rw [sought] at touched
      exact ⟨schedule, touched⟩
    · rw [Exec.bind_ok sought]
      rw [sought] at touched
      obtain rfl : middle = ⟨state.pager, state.disk, schedule⟩ := touched
      obtain ⟨last, read⟩ := onFile_readAt_after (index * pageSize) pageSize
        ⟨state.pager, state.disk, schedule⟩
      refine ⟨last, ?_⟩
      rcases ran : onFile (Medium.readAt (index * pageSize) pageSize)
        ⟨state.pager, state.disk, schedule⟩ with ⟨_ | found, final⟩
      · rw [Exec.bind_error ran]
        rw [ran] at read
        exact read
      · rw [Exec.bind_ok ran]
        rw [ran] at read
        obtain rfl : final = ⟨state.pager, state.disk, last⟩ := read
        cases found with
        | none => rfl
        | some bytes =>
            dsimp only
            split <;> rfl
  · exact ⟨state.schedule, rfl⟩

/-- A page that was fetched is the stored one. -/
theorem fetch_stored (ran : Pager.fetch index state = (.ok page, after)) :
    state.stored index = .ok page := by
  unfold Pager.fetch at ran
  rw [Exec.bind_ok (Exec.run_get state)] at ran
  by_cases within : (index + 1) * pageSize ≤ state.pager.fileLength
  · rw [if_pos within] at ran
    obtain ⟨⟨⟩, middle, touched, ran⟩ := Exec.bind_eq_ok.mp ran
    obtain ⟨found, final, read, ran⟩ := Exec.bind_eq_ok.mp ran
    obtain ⟨schedule, same⟩ := onFile_touch_after state
    rw [touched] at same
    obtain rfl : middle = ⟨state.pager, state.disk, schedule⟩ := same
    have bytes := onFile_readAt_ok read
    rw [stored_within within]
    by_cases inside : index < state.disk.pageCount
    · have fits : index * pageSize + pageSize ≤ state.disk.db.length := by
        rw [← Nat.succ_mul]
        exact (state.disk.page_inside_iff index).mpr inside
      have slices : found = some (slice state.disk.db (index * pageSize) pageSize) :=
        bytes.trans (if_pos fits)
      subst slices
      dsimp only at ran
      rw [dif_pos (slice_length fits)] at ran
      rw [if_pos inside, ← Except.ok.inj (Prod.mk.inj ran).1]
      congr 1
      exact Page.ext (Disk.page_of_lt inside)
    · have outside : ¬ index * pageSize + pageSize ≤ state.disk.db.length := by
        rw [← Nat.succ_mul]
        exact fun fits => inside ((state.disk.page_inside_iff index).mp fits)
      have missed : found = none := bytes.trans (if_neg outside)
      subst missed
      cases (Prod.mk.inj ran).1
  · rw [if_neg within] at ran
    rw [stored_past within, ← Except.ok.inj (Prod.mk.inj ran).1]

/-- Fetching a page below `file_length` whose two I/O calls take effect. -/
theorem fetch_within {sought read : PagerIo} (within : (index + 1) * pageSize ≤ state.pager.fileLength)
    (touched : onFile Medium.touch state = (.ok (), sought))
    (ran : onFile (Medium.readAt (index * pageSize) pageSize) sought =
      (.ok (if index * pageSize + pageSize ≤ state.disk.db.length then
        some (slice state.disk.db (index * pageSize) pageSize) else none), read)) :
    Pager.fetch index state = (state.stored index, read) := by
  unfold Pager.fetch
  rw [Exec.bind_ok (Exec.run_get state), if_pos within, stored_within within,
    Exec.bind_ok touched, Exec.bind_ok ran]
  by_cases inside : index < state.disk.pageCount
  · have fits : index * pageSize + pageSize ≤ state.disk.db.length := by
      rw [← Nat.succ_mul]
      exact (state.disk.page_inside_iff index).mpr inside
    rw [if_pos fits, if_pos inside]
    dsimp only
    rw [dif_pos (slice_length fits), Exec.run_pure]
    congr 2
    exact Page.ext (Disk.page_of_lt inside).symm
  · have outside : ¬ index * pageSize + pageSize ≤ state.disk.db.length := by
      rw [← Nat.succ_mul]
      exact fun fits => inside ((state.disk.page_inside_iff index).mp fits)
    rw [if_neg outside, if_neg inside]
    rfl

/-- Fetching a page past `file_length` makes no I/O call. -/
theorem fetch_past (past : ¬ (index + 1) * pageSize ≤ state.pager.fileLength) :
    Pager.fetch index state = (state.stored index, state) := by
  unfold Pager.fetch
  rw [Exec.bind_ok (Exec.run_get state), if_neg past, stored_past past]
  rfl

/-- Fetching answers what is stored. -/
theorem fetch_quiet (quiet : state.Quiet) (index : Nat) :
    Pager.fetch index state = (state.stored index, state) := by
  obtain ⟨pager, disk, schedule⟩ := state
  obtain rfl : schedule = [] := quiet
  by_cases within : (index + 1) * pageSize ≤ pager.fileLength
  · exact fetch_within within rfl rfl
  · exact fetch_past within

/-! ### Filling the cache -/

/-- Only empty cache entries were filled, with what is stored. -/
structure Filled (before after : PagerIo) : Prop where
  disk : after.disk = before.disk
  fileLength : after.pager.fileLength = before.pager.fileLength
  dirty : after.pager.dirty = before.pager.dirty
  wal : after.pager.wal = before.pager.wal
  inTransaction : after.pager.inTransaction = before.pager.inTransaction
  pages : ∀ index, after.pager.pages index = before.pager.pages index ∨
    before.pager.pages index = none ∧ ∃ page, before.stored index = .ok page ∧
      after.pager.pages index = some page

theorem Filled.of_schedule (state : PagerIo) (schedule : List IoOutcome) :
    Filled state ⟨state.pager, state.disk, schedule⟩ :=
  ⟨rfl, rfl, rfl, rfl, rfl, fun _ => Or.inl rfl⟩

theorem Filled.refl (state : PagerIo) : Filled state state := Filled.of_schedule state _

theorem Filled.stored {before after : PagerIo} (filled : Filled before after) (index : Nat) :
    after.stored index = before.stored index := by
  unfold PagerIo.stored
  rw [filled.fileLength, filled.disk]

theorem Filled.trans {first second third : PagerIo} (left : Filled first second)
    (right : Filled second third) : Filled first third where
  disk := right.disk.trans left.disk
  fileLength := right.fileLength.trans left.fileLength
  dirty := right.dirty.trans left.dirty
  wal := right.wal.trans left.wal
  inTransaction := right.inTransaction.trans left.inTransaction
  pages := by
    intro index
    rcases right.pages index with same | ⟨missing, page, found, cached⟩
    · rw [same]
      exact left.pages index
    · rcases left.pages index with same | ⟨-, other, -, cachedBefore⟩
      · rw [left.stored] at found
        exact Or.inr ⟨same ▸ missing, page, found, cached⟩
      · rw [cachedBefore] at missing
        contradiction

/-- Filling the cache changes no answer. -/
theorem Filled.reads {before after : PagerIo} (filled : Filled before after) :
    after.reads = before.reads := by
  funext index
  unfold PagerIo.reads
  split
  · rfl
  · rcases filled.pages index with same | ⟨missing, page, found, cached⟩
    · rw [same, filled.stored]
    · rw [cached, missing]
      exact found.symm

theorem Filled.cachePage (missing : state.pager.pages index = none)
    (found : state.stored index = .ok page) (schedule : List IoOutcome) :
    Filled state (Pager.cachePage index page ⟨state.pager, state.disk, schedule⟩) where
  disk := rfl
  fileLength := rfl
  dirty := rfl
  wal := rfl
  inTransaction := rfl
  pages := by
    intro other
    by_cases same : other = index
    · subst same
      exact Or.inr ⟨missing, page, found, Function.update_self _ _ _⟩
    · exact Or.inl (Function.update_of_ne same _ _)

/-- Loading a page only fills the cache, whatever its outcome. -/
theorem loadPage_filled (index : Nat) : Exec.Preserves Filled (Pager.loadPage index) := by
  intro state
  unfold Pager.loadPage
  split
  · exact Filled.refl state
  · rw [Exec.bind_ok (Exec.run_get state)]
    rcases cached : state.pager.pages index with _ | page
    · obtain ⟨schedule, fetched⟩ := fetch_after index state
      rcases ran : Pager.fetch index state with ⟨fault | page, after⟩
      · dsimp only
        rw [ran] at fetched
        rw [Exec.bind_error ran]
        obtain rfl : after = ⟨state.pager, state.disk, schedule⟩ := fetched
        exact Filled.of_schedule state schedule
      · dsimp only
        rw [ran] at fetched
        rw [Exec.bind_ok ran]
        obtain rfl : after = ⟨state.pager, state.disk, schedule⟩ := fetched
        exact Filled.cachePage cached (fetch_stored ran) schedule
    · exact Filled.refl state

/-! ### Successful calls -/

/-- Caching what is cached changes nothing. -/
theorem cachePage_cached (cached : state.pager.pages index = some page) :
    Pager.cachePage index page state = state := by
  unfold Pager.cachePage
  rw [← cached, Function.update_eq_self]

/-- The state after a successful load. -/
def loaded (state : PagerIo) (index : Nat) : PagerIo :=
  match state.reads index with
  | .ok page => Pager.cachePage index page state
  | .error _ => state

theorem loaded_ok (found : state.reads index = .ok page) :
    state.loaded index = Pager.cachePage index page state := by
  unfold loaded
  rw [found]

theorem loadPage_quiet (quiet : state.Quiet) (index : Nat) :
    Pager.loadPage index state = (state.reads index, state.loaded index) := by
  unfold Pager.loadPage loaded
  by_cases beyond : maxPages ≤ index
  · rw [if_pos beyond, reads_limit beyond]
    rfl
  · rw [if_neg beyond, Exec.bind_ok (Exec.run_get state)]
    rcases cached : state.pager.pages index with _ | page
    · rw [reads_missing beyond cached]
      have fetched := fetch_quiet quiet index
      dsimp only
      rcases found : state.stored index with fault | page
      · rw [found] at fetched
        rw [Exec.bind_error fetched]
      · rw [found] at fetched
        rw [Exec.bind_ok fetched]
        rfl
    · rw [reads_cached beyond cached]
      dsimp only
      rw [cachePage_cached cached]
      rfl

theorem loaded_quiet (quiet : state.Quiet) (index : Nat) : (state.loaded index).Quiet := by
  unfold loaded
  split
  · exact quiet
  · exact quiet

theorem run_readOnly {α : Type} {program : PageProgram α} (readOnly : program.ReadOnly)
    (quiet : state.Quiet) : (Pager.perform program state).1 = program.evaluate state.reads ∧
      (Pager.perform program state).2.Quiet := by
  have loads (other : PagerIo) (index : Nat) (still : other.Quiet ∧ other.reads = state.reads) :
      (Pager.store.load index other).1 = state.reads index ∧
        (Pager.store.load index other).2.Quiet ∧
        (Pager.store.load index other).2.reads = state.reads := by
    obtain ⟨quiet, same⟩ := still
    have filled := loadPage_filled index other
    have ran := loadPage_quiet quiet index
    change (Pager.loadPage index other).1 = _ ∧ (Pager.loadPage index other).2.Quiet ∧
      (Pager.loadPage index other).2.reads = _
    rw [ran] at filled ⊢
    exact ⟨by rw [same], loaded_quiet quiet index, by rw [filled.reads, same]⟩
  obtain ⟨value, still⟩ := readOnly.run_eq _ loads ⟨quiet, rfl⟩
  exact ⟨value, still.1⟩

/-- A program that only loads has the value for the answers of the state. -/
theorem perform_readOnly {α : Type} {program : PageProgram α} (readOnly : program.ReadOnly)
    (quiet : state.Quiet) : (Pager.perform program state).1 = program.evaluate state.reads :=
  (run_readOnly readOnly quiet).1

/-- A program that only loads only fills the cache. -/
theorem perform_filled {α : Type} {program : PageProgram α} (readOnly : program.ReadOnly) :
    Exec.Preserves Filled (Pager.perform program) := by
  induction readOnly with
  | result value => exact fun state => Filled.refl state
  | load _ inductionHypothesis =>
      apply Exec.Preserves.bind _ (loadPage_filled _) inductionHypothesis
      exact fun left right => left.trans right

/-! ### Coherent states -/

/-- The answers when every page can be read. -/
def answers (view : Nat → Page) (index : Nat) : Except Fault Page :=
  if maxPages ≤ index then .error (.error (Pager.pageLimitMessage index)) else .ok (view index)

/-- Without gaps a coherent state answers with what its pages read as. -/
theorem Coherent.reads (coherent : state.Coherent) (noGap : ∀ index, ¬ state.Gap index) :
    state.reads = answers state.view := by
  funext index
  unfold answers
  by_cases beyond : maxPages ≤ index
  · rw [reads_limit beyond, if_pos beyond]
  · rw [if_neg beyond]
    rcases cached : state.pager.pages index with _ | page
    · have viewed : state.view index = state.disk.page index := by
        unfold view
        rw [cached, Option.getD_none]
      rw [reads_missing beyond cached]
      by_cases below : index < state.count
      · have inside : index < state.disk.pageCount := by
          by_contra outside
          exact noGap index ⟨cached, below, Nat.le_of_not_lt outside⟩
        rw [stored_within ((state.within_iff index).mpr below), if_pos inside, viewed]
      · rw [stored_past (fun within => below ((state.within_iff index).mp within)),
          coherent.view_past (Nat.le_of_not_lt below)]
    · have viewed : state.view index = page := by
        unfold view
        rw [cached, Option.getD_some]
      rw [reads_cached beyond cached, viewed]

/-- No page is dirty. -/
def Settled (state : PagerIo) : Prop := ∀ index, state.pager.dirty index = false

/-- In a settled state the lengths agree. -/
theorem Coherent.settled_length (coherent : state.Coherent) (settled : state.Settled) :
    state.pager.fileLength = state.disk.db.length := by
  have counts : state.count ≤ state.disk.pageCount := by
    by_contra more
    have dirty := coherent.lastDirty (Nat.lt_of_not_le more)
    rw [settled] at dirty
    contradiction
  rw [coherent.fileLength_eq, coherent.dbLength_eq,
    Nat.le_antisymm counts coherent.pageCount_le]

/-- In a settled state the pages read as the file. -/
theorem Coherent.settled_view (coherent : state.Coherent) (settled : state.Settled) :
    state.view = state.disk.page := by
  funext index
  unfold view
  cases cached : state.pager.pages index with
  | none => rfl
  | some page => exact coherent.clean index page cached (settled index)

end PagerIo

/-! ### Programs that only load -/

namespace BTree

theorem readOnly_descendLeft (fuel cur : Nat) : (descendLeft fuel cur).ReadOnly := by
  induction fuel generalizing cur with
  | zero => exact Program.readOnly_stop _
  | succ fuel inductionHypothesis =>
      unfold descendLeft
      apply (Program.readOnly_fetch cur).bind
      intro page
      split
      · exact Program.ReadOnly.result _
      · apply (Program.readOnly_lift _).bind
        intro nk
        apply (Program.readOnly_lift _).bind
        exact fun child => inductionHypothesis child

theorem readOnly_scanChain (fuel cur : Nat) : (scanChain fuel cur).ReadOnly := by
  induction fuel generalizing cur with
  | zero => exact Program.readOnly_stop _
  | succ fuel inductionHypothesis =>
      unfold scanChain
      apply (Program.readOnly_fetch cur).bind
      intro page
      apply (Program.readOnly_lift _).bind
      intro n
      apply (Program.readOnly_lift _).bind
      intro rows
      apply (Program.readOnly_lift _).bind
      intro next
      split
      · exact Program.ReadOnly.result _
      · apply (inductionHypothesis next).bind
        exact fun rest => Program.ReadOnly.result _

/-- A scan only loads pages. -/
theorem readOnly_scanAll (root : Nat) : (scanAll root).ReadOnly :=
  (readOnly_descendLeft _ root).bind fun first => readOnly_scanChain _ first

theorem readOnly_dumpEntries {dump : Nat → PageProgram String}
    (below : ∀ child, (dump child).ReadOnly) (indent : String) (entries : List (Int64 × Nat))
    (out : String) : (dumpEntries dump indent entries out).ReadOnly := by
  induction entries generalizing out with
  | nil => exact Program.ReadOnly.result _
  | cons entry rest inductionHypothesis =>
      unfold dumpEntries
      apply (below entry.2).bind
      exact fun inner => inductionHypothesis _

/-- A dump only loads pages. -/
theorem readOnly_dumpTree (fuel pageNum depth : Nat) :
    (dumpTree fuel pageNum depth).ReadOnly := by
  induction fuel generalizing pageNum depth with
  | zero => exact Program.readOnly_stop _
  | succ fuel inductionHypothesis =>
      unfold dumpTree
      apply (Program.readOnly_fetch pageNum).bind
      intro page
      dsimp only
      split
      · apply (Program.readOnly_lift _).bind
        intro n
        apply (Program.readOnly_lift _).bind
        intro next
        apply (Program.readOnly_lift _).bind
        intro free
        apply (Program.readOnly_lift _).bind
        exact fun keys => Program.ReadOnly.result _
      · split
        · apply (Program.readOnly_lift _).bind
          intro nk
          apply (Program.readOnly_lift _).bind
          intro rc
          apply (Program.readOnly_lift _).bind
          intro entries
          apply (readOnly_dumpEntries (fun child => inductionHypothesis child _) _ _ _).bind
          intro out
          apply (inductionHypothesis rc _).bind
          exact fun inner => Program.ReadOnly.result _
        · exact Program.readOnly_stop _

end BTree

end MukhiDb.Model
