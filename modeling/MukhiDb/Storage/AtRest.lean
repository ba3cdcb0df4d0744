import MukhiDb.Pager.Attempts
import MukhiDb.Storage.Creation

/-!
Contract: storages between statements that succeed, whatever files the tables have open.

Owns: the fact that dirty pages are cached, which every page program keeps and which lets a
flush clean all of them; statements that succeed outside a transaction, which leave no dirty
page; and lists of calls that all succeed.

Does not own: what the statements answer, and failed statements.
-/

namespace MukhiDb.Model

open MukhiDb.Foundation

/-! ### Pagers -/

namespace PagerIo

variable {state after : PagerIo} {index : Nat}

/-- Every dirty page is cached, under an index that the cache has. -/
def Tidy (state : PagerIo) : Prop :=
  ∀ index, state.pager.dirty index = true → state.pager.pages index ≠ none ∧ index < maxPages

/-- What a page program does to a tidy pager. -/
def KeepsTidy (before after : PagerIo) : Prop := before.Tidy → after.Tidy

theorem Settled.tidy (settled : state.Settled) : state.Tidy := by
  intro index dirty
  rw [settled] at dirty
  cases dirty

theorem Filled.tidy (filled : Filled state after) (tidy : state.Tidy) : after.Tidy := by
  intro index dirty
  rw [filled.dirty] at dirty
  obtain ⟨cached, below⟩ := tidy index dirty
  refine ⟨?_, below⟩
  rcases filled.pages index with same | ⟨missing, -⟩
  · rw [same]
    exact cached
  · exact absurd missing cached

theorem Tidy.cachePage (tidy : state.Tidy) (page : Page) : (Pager.cachePage index page state).Tidy := by
  intro other dirty
  obtain ⟨cached, below⟩ := tidy other dirty
  refine ⟨?_, below⟩
  by_cases same : other = index
  · simp [Pager.cachePage, same]
  · simpa [Pager.cachePage, same] using cached

theorem Tidy.markDirty (tidy : state.Tidy) (cached : state.pager.pages index ≠ none)
    (below : index < maxPages) : (Pager.markDirty index state).Tidy := by
  intro other dirty
  by_cases same : other = index
  · subst same
    exact ⟨cached, below⟩
  · apply tidy other
    simpa [Pager.markDirty, same] using dirty

theorem loadPage_tidy (index : Nat) : Exec.Preserves KeepsTidy (Pager.loadPage index) :=
  fun state tidy => (loadPage_filled index state).tidy tidy

theorem getPageMut_tidy (index : Nat) : Exec.Preserves KeepsTidy (Pager.getPageMut index) := by
  intro state tidy
  have loaded := loadPage_tidy index state tidy
  unfold Pager.getPageMut Pager.getPage
  rcases ran : Pager.loadPage index state with ⟨fault | page, after⟩
  · rw [ran] at loaded
    rw [Exec.bind_error ran]
    exact loaded
  · rw [ran] at loaded
    rw [Exec.bind_ok ran]
    obtain ⟨below, cached⟩ := loadPage_returned ran
    exact loaded.markDirty (by simp [cached]) below

theorem KeepsTidy.bind {α β : Type} {first : Exec PagerIo α} {next : α → Exec PagerIo β}
    (head : Exec.Preserves KeepsTidy first) (tail : ∀ value, Exec.Preserves KeepsTidy (next value)) :
    Exec.Preserves KeepsTidy (first >>= next) :=
  Exec.Preserves.bind (fun left right tidy => right (left tidy)) head tail

theorem modifyPage_tidy (index : Nat) (change : Page → Except Fault Page) :
    Exec.Preserves KeepsTidy (Pager.modifyPage index change) := by
  apply KeepsTidy.bind (getPageMut_tidy index)
  intro page
  apply KeepsTidy.bind fun state (tidy : state.Tidy) => tidy
  exact fun changed _ tidy => tidy.cachePage changed

theorem allocatePage_tidy : Exec.Preserves KeepsTidy Pager.allocatePage := by
  apply KeepsTidy.bind fun state (tidy : state.Tidy) => tidy
  intro state
  exact KeepsTidy.bind (getPageMut_tidy _) fun _ state (tidy : state.Tidy) => tidy

theorem perform_tidy {α : Type} (program : PageProgram α) :
    Exec.Preserves KeepsTidy (Pager.perform program) :=
  Program.preserves (fun _ => id) (fun left right tidy => right (left tidy)) loadPage_tidy
    modifyPage_tidy allocatePage_tidy program

/-- A commit cleans all pages. -/
theorem Tidy.committed_settled (tidy : state.Tidy) : state.committed.Settled := by
  intro index
  change state.dirtyAfter pageIndices index = false
  by_cases dirty : state.pager.dirty index = true
  · obtain ⟨cached, below⟩ := tidy index dirty
    simp [dirtyAfter, mem_pageIndices, below, Option.isSome_iff_ne_none.mpr cached]
  · simp [dirtyAfter, dirty]

end PagerIo

/-! ### Tables -/

namespace TableIo

variable {table after : TableIo}

/-- The table is in no transaction and has no dirty page. -/
def Rests (table : TableIo) : Prop :=
  table.store.pager.inTransaction = false ∧ table.io.Settled

/-- Outside a transaction: what is done to a table before its flush. -/
def Opened (before after : TableIo) : Prop :=
  PagerIo.KeepsTidy before.io after.io ∧ PagerIo.Calm before.io after.io

theorem Opened.refl (table : TableIo) : Opened table table := ⟨id, PagerIo.Calm.refl _⟩

theorem Opened.trans {first second third : TableIo} (left : Opened first second)
    (right : Opened second third) : Opened first third :=
  ⟨fun tidy => right.1 (left.1 tidy), left.2.trans right.2⟩

theorem onPages_opened {α : Type} (program : PageProgram α) :
    Exec.Preserves Opened (onPages program) :=
  fun table => ⟨PagerIo.perform_tidy program table.io, PagerIo.perform_calm program table.io⟩

/-- A table after a flush. -/
structure Flushed (table : TableIo) : Prop where
  rests : table.Rests
  quiet : table.io.Quiet
  log : table.disk.log = []

/-- A flush at the end leaves no dirty page and an empty log. -/
theorem flushOutside_flushed {start : TableIo} (rests : start.Rests) (quiet : start.io.Quiet)
    (opened : Opened start table) (ran : flushOutside table = (.ok (), after)) :
    after.Flushed := by
  have idle : table.store.pager.inTransaction = false := opened.2.inTransaction.trans rests.1
  have still : table.io.Quiet := opened.2.quiet quiet
  unfold flushOutside at ran
  rw [Exec.bind_ok (Exec.run_get table), idle, if_neg (by simp), run_onPager,
    show Pager.flush table.io = _ from PagerIo.commit_ok still] at ran
  obtain ⟨-, rfl⟩ := Prod.mk.inj ran
  exact ⟨⟨rfl, (opened.1 rests.2.tidy).committed_settled⟩, still, rfl⟩

theorem insert_flushed {values : List Value} (rests : table.Rests) (quiet : table.io.Quiet)
    (ran : insert values table = (.ok (), after)) : after.Flushed := by
  unfold insert at ran
  rw [Exec.bind_ok (Exec.run_get table)] at ran
  obtain ⟨⟨key, buf⟩, _, encoded, ran⟩ := Exec.bind_eq_ok.mp ran
  obtain ⟨-, rfl⟩ := Prod.mk.inj encoded
  change insertRow key buf table = _ at ran
  unfold insertRow at ran
  rw [Exec.bind_ok (Exec.run_get table)] at ran
  obtain ⟨newRoot, grown, inserted, ran⟩ := Exec.bind_eq_ok.mp ran
  obtain ⟨_, middle, moved, flushed⟩ := Exec.bind_eq_ok.mp ran
  have first : Opened table grown := by
    have opened := onPages_opened (BTree.insert table.store.rootPage key buf) table
    rwa [inserted] at opened
  have second : Opened grown middle := by
    split at moved
    · obtain ⟨_, rooted, set, wrote⟩ := Exec.bind_eq_ok.mp moved
      obtain ⟨-, rfl⟩ := Prod.mk.inj set
      have opened := onPages_opened (writeMetadata newRoot table.store.columns) (grown.withRoot newRoot)
      rwa [show onPages (writeMetadata newRoot table.store.columns) (grown.withRoot newRoot) = _
        from wrote] at opened
    · obtain ⟨-, rfl⟩ := Prod.mk.inj moved
      exact Opened.refl _
  exact flushOutside_flushed rests quiet (first.trans second) flushed

theorem create_flushed {columns : List Column} (rests : table.Rests) (quiet : table.io.Quiet)
    (ran : create columns table = (.ok (), after)) : after.Flushed := by
  obtain ⟨_, first, allocated, ran⟩ := Exec.bind_eq_ok.mp ran
  obtain ⟨rootPage, second, made, ran⟩ := Exec.bind_eq_ok.mp ran
  obtain ⟨_, third, wrote, ran⟩ := Exec.bind_eq_ok.mp ran
  obtain ⟨_, fourth, flushed, ran⟩ := Exec.bind_eq_ok.mp ran
  obtain ⟨-, rfl⟩ := Prod.mk.inj ran
  have opened := onPages_opened BTree.allocatePage table
  have opened' := onPages_opened BTree.createTree first
  have opened'' := onPages_opened (writeMetadata rootPage columns) second
  rw [allocated] at opened
  rw [made] at opened'
  rw [wrote] at opened''
  obtain ⟨ended, still, log⟩ :=
    flushOutside_flushed rests quiet ((opened.trans opened').trans opened'') flushed
  exact ⟨ended, still, log⟩

/-- Loading pages keeps a table at rest. -/
theorem Rests.filled (rests : table.Rests) {io : PagerIo} (filled : PagerIo.Filled table.io io) :
    (table.withIo io).Rests :=
  ⟨filled.inTransaction.trans rests.1, fun index => (congrFun filled.dirty index).trans (rests.2 index)⟩

theorem load_rests (rests : table.Rests) (quiet : table.io.Quiet)
    (ran : load table = (.ok (), after)) : after.Rests ∧ after.io.Quiet := by
  obtain ⟨metadata, middle, read, ran⟩ := Exec.bind_eq_ok.mp ran
  obtain ⟨-, rfl⟩ := Prod.mk.inj ran
  have filled := PagerIo.perform_filled readOnly_readMetadata table.io
  have calm := (onPages_opened readMetadata table).2
  obtain rfl : table.withIo (Pager.perform readMetadata table.io).2 = middle :=
    congrArg Prod.snd read
  exact ⟨rests.filled filled, calm.quiet quiet⟩

theorem selectAll_rests (rests : table.Rests) (quiet : table.io.Quiet) :
    (selectAll table).2.Rests ∧ (selectAll table).2.io.Quiet := by
  have filled := PagerIo.perform_filled (BTree.readOnly_scanAll table.store.rootPage) table.io
  have calm := (onPages_opened (BTree.scanAll table.store.rootPage) table).2
  rw [selectAll_state]
  exact ⟨rests.filled filled, calm.quiet quiet⟩

end TableIo

/-! ### Storages -/

namespace Storage

variable {state after : Storage} {name path : String} {table : TableIo}

theorem AtRest.withFiles (rest : state.AtRest) (path : String) (disk : Disk) :
    (state.withFiles path disk).AtRest := by
  intro name table found
  have opened := tableAt_store found
  change state.tables.lookup name = some table.store at opened
  have rests := rest name _ (tableAt_eq_some.mpr ⟨_, opened, rfl⟩)
  exact rests

theorem AtRest.rests (rest : state.AtRest) (found : state.tableAt name = some table) : table.Rests :=
  rest name table found

/-- A table at rest is put in. Only what the pagers hold matters, not the files. -/
theorem AtRest.put (rest : state.AtRest) (rests : table.Rests) : (state.put name table).AtRest := by
  intro other there found
  by_cases same : other = name
  · subst same
    rw [tableAt_put_self] at found
    obtain rfl := Option.some.inj found
    exact rests
  · have opened := tableAt_store found
    rw [lookup_put_other same] at opened
    have rests := rest other _ (tableAt_eq_some.mpr ⟨_, opened, rfl⟩)
    exact rests

/-- A statement on one table that succeeds. -/
theorem AtRest.onTable {α : Type} {call : Exec TableIo α} {missing : Fault} {value : α}
    (rest : state.AtRest) (quiet : state.schedule = []) (samePath : Exec.Preserves TableIo.SamePath call)
    (rests : ∀ table after, table.Rests → table.io.Quiet → call table = (.ok value, after) →
      after.Rests ∧ after.io.Quiet)
    (ran : onTable name missing call state = (.ok value, after)) :
    after.AtRest ∧ after.schedule = [] := by
  rcases found : state.tableAt name with _ | table
  · rw [onTable_missing found] at ran
    cases ran
  · rw [onTable_found found samePath] at ran
    obtain ⟨answer, rfl⟩ := Prod.mk.inj ran
    obtain ⟨ended, still⟩ :=
      rests table _ (rest.rests found) ((tableAt_schedule found).trans quiet) (Prod.ext answer rfl)
    exact ⟨rest.put ended, still⟩

/-- A file is opened and a table is set up with it. -/
theorem AtRest.addTable {setUp : Exec TableIo Unit} (rest : state.AtRest)
    (quiet : state.schedule = []) (samePath : Exec.Preserves TableIo.SamePath setUp)
    (rests : ∀ table after, table.Rests → table.io.Quiet → setUp table = (.ok (), after) →
      after.Rests ∧ after.io.Quiet)
    (ran : (do
      let pager ← openPager path
      addTable name path pager setUp : Exec Storage Unit) state = (.ok (), after)) :
    after.AtRest ∧ after.schedule = [] := by
  obtain ⟨pager, middle, opened, added⟩ := Exec.bind_eq_ok.mp ran
  rw [openPager_quiet quiet] at opened
  obtain ⟨answer, rfl⟩ := Prod.mk.inj opened
  obtain ⟨-, rfl, -⟩ := Pager.open_eq_ok (Prod.ext answer rfl)
  obtain ⟨table, made, -, rfl⟩ := addTable_returned samePath added
  have start : ((state.withFiles path (Pager.open path ⟨state.filesAt path, []⟩).2.disk).opening
      path (Pager.fresh (state.filesAt path).recovered.db.length)).Rests := ⟨rfl, fun _ => rfl⟩
  obtain ⟨ended, still⟩ := rests _ table start quiet made
  exact ⟨AtRest.put (AtRest.withFiles rest path _) ended, still⟩

end Storage

/-- `open_table`, `create_table`, `insert` and `select_all`. -/
def StorageCall.IsStatement : StorageCall → Prop
  | openTable _ _ | createTable _ _ | insert _ _ | selectAll _ => True
  | _ => False

namespace Storage

variable {state after : Storage} {name path : String} {table : TableIo}

/-- After a statement that succeeds outside a transaction, no page is dirty. -/
theorem AtRest.perform {call : StorageCall} (rest : state.AtRest) (quiet : state.schedule = [])
    (statement : call.IsStatement) (ran : call.perform state = (.ok (), after)) :
    after.AtRest ∧ after.schedule = [] := by
  cases call with
  | openTable name path =>
      change openTable name path state = _ at ran
      rw [openTable_opens] at ran
      exact rest.addTable quiet (TableIo.Safe.samePath TableIo.load_safe)
        (fun _ _ => TableIo.load_rests) ran
  | createTable name columns =>
      change createTable name columns state = _ at ran
      unfold createTable at ran
      rw [Exec.bind_ok (Exec.run_get state)] at ran
      split at ran
      · cases ran
      · exact rest.addTable quiet (TableIo.Safe.samePath (TableIo.create_safe columns))
          (fun _ _ rests quiet made => ⟨(TableIo.create_flushed rests quiet made).rests,
            (TableIo.create_flushed rests quiet made).quiet⟩) ran
  | insert name values =>
      exact rest.onTable quiet (TableIo.Safe.samePath (TableIo.insert_safe values))
        (fun _ _ rests quiet inserted => ⟨(TableIo.insert_flushed rests quiet inserted).rests,
          (TableIo.insert_flushed rests quiet inserted).quiet⟩) ran
  | selectAll name =>
      obtain ⟨value, middle, scanned, ended⟩ := Exec.bind_eq_ok.mp ran
      obtain ⟨-, rfl⟩ := Prod.mk.inj ended
      refine rest.onTable quiet (TableIo.Safe.samePath TableIo.selectAll_safe) ?_ scanned
      intro table after rests quiet ran
      have ended := TableIo.selectAll_rests rests quiet
      rwa [ran] at ended
  | _ => exact statement.elim

/-! ### Calls that all succeed -/

/-- Perform calls, up to the first that fails. -/
def performAll : List StorageCall → Exec Storage Unit
  | [] => pure ()
  | call :: rest => do
      call.perform
      performAll rest

/-- Calls that succeed are a run, of steps that each of them is. -/
theorem reaches_performAll {step : Storage → StorageCall → Storage → Prop} {calls : List StorageCall}
    (ran : performAll calls state = (.ok (), after))
    (taken : ∀ call before next, call.perform before = (.ok (), next) → step before call next) :
    Reaches step state calls after := by
  induction calls generalizing state with
  | nil =>
      obtain ⟨-, rfl⟩ := Prod.mk.inj ran
      exact Reaches.refl
  | cons call rest inductionHypothesis =>
      obtain ⟨⟨⟩, middle, first, others⟩ := Exec.bind_eq_ok.mp ran
      exact Reaches.cons (taken call state middle first) (inductionHypothesis others)

theorem step_ok {call : StorageCall} (ran : call.perform state = (.ok (), after)) :
    Step state call after := by
  refine ⟨?_, (congrArg Prod.snd ran).symm⟩
  rw [ran]
  exact nofun

/-- After statements that all succeed outside a transaction, no page is dirty. -/
theorem AtRest.performAll {calls : List StorageCall} (rest : state.AtRest)
    (quiet : state.schedule = []) (statements : ∀ call ∈ calls, call.IsStatement)
    (ran : performAll calls state = (.ok (), after)) : after.AtRest ∧ after.schedule = [] := by
  induction calls generalizing state with
  | nil =>
      obtain ⟨-, rfl⟩ := Prod.mk.inj ran
      exact ⟨rest, quiet⟩
  | cons call others inductionHypothesis =>
      obtain ⟨⟨⟩, middle, first, later⟩ := Exec.bind_eq_ok.mp ran
      obtain ⟨restThere, quietThere⟩ :=
        rest.perform quiet (statements call List.mem_cons_self) first
      exact inductionHypothesis restThere quietThere
        (fun other member => statements other (List.mem_cons_of_mem _ member)) later

theorem atRest_new (host : Host) (dir : String → Option Disk) : (new host dir []).AtRest := by
  intro name table found
  cases found

end Storage

end MukhiDb.Model
