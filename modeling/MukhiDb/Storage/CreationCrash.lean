import MukhiDb.Pager.TornCommit
import MukhiDb.Storage.NewTable

/-!
Contract: creating a table in a process that is stopped, and the table after a restart.

Owns: the files that are left when the process stops at any call after the new file was
created; the fact that these files restart as an empty table, or are refused, exactly if
the metadata fits and the commit record of the flush is whole; and the loop that a scan
ends up in otherwise.

Does not own: files that were there before.
-/

namespace MukhiDb.Model

open MukhiDb.Foundation

/-! ### Calls that make no I/O call -/

namespace PagerIo

variable {state : PagerIo} {index : Nat} {page : Page}

theorem loadPage_cached (below : index < maxPages)
    (cached : state.pager.pages index = some page) :
    Pager.loadPage index state = (.ok page, state) := by
  unfold Pager.loadPage
  rw [if_neg (Nat.not_le_of_lt below), Exec.bind_ok (Exec.run_get state), cached]
  rfl

theorem loadPage_past (below : index < maxPages) (missing : state.pager.pages index = none)
    (past : ¬ (index + 1) * pageSize ≤ state.pager.fileLength) :
    Pager.loadPage index state = (.ok Page.zero, Pager.cachePage index Page.zero state) := by
  have fetched := fetch_past past
  rw [stored_past past] at fetched
  unfold Pager.loadPage
  rw [if_neg (Nat.not_le_of_lt below), Exec.bind_ok (Exec.run_get state), missing]
  dsimp only
  rw [Exec.bind_ok fetched]
  rfl

theorem modifyPage_cached (below : index < maxPages)
    (cached : state.pager.pages index = some page) (change : Page → Except Fault Page) :
    Pager.modifyPage index change state =
      match change page with
      | .ok after => (.ok (), Pager.cachePage index after (Pager.markDirty index state))
      | .error fault => (.error fault, Pager.markDirty index state) := by
  have loaded : Pager.getPageMut index state = (.ok page, Pager.markDirty index state) := by
    unfold Pager.getPageMut
    rw [Exec.bind_ok (show Pager.getPage index state = _ from loadPage_cached below cached)]
    rfl
  unfold Pager.modifyPage
  rw [Exec.bind_ok loaded]
  rcases change page with fault | after <;> rfl

theorem allocatePage_past (number : state.pager.numPages = index) (below : index < maxPages)
    (missing : state.pager.pages index = none)
    (past : ¬ (index + 1) * pageSize ≤ state.pager.fileLength) :
    Pager.allocatePage state =
      (.ok index, Pager.markDirty index (Pager.cachePage index Page.zero state)) := by
  subst number
  have loaded : Pager.getPageMut state.pager.numPages state = (.ok Page.zero,
      Pager.markDirty state.pager.numPages
        (Pager.cachePage state.pager.numPages Page.zero state)) := by
    unfold Pager.getPageMut
    rw [Exec.bind_ok (show Pager.getPage _ state = _ from loadPage_past below missing past)]
    rfl
  unfold Pager.allocatePage
  rw [Exec.bind_ok (Exec.run_get state), Exec.bind_ok loaded]
  rfl

end PagerIo

/-! ### Creating a table in a new file -/

namespace TableIo

/-- The table that creation starts from when the file is new. -/
def newFile (path : String) (schedule : List IoOutcome) : TableIo :=
  ⟨⟨path, Pager.fresh 0, [], 0⟩, ⟨[], []⟩, schedule⟩

/-- The pager with page 0 and the root leaf allocated. -/
def allocatedPages (leaf : Page) (schedule : List IoOutcome) : PagerIo :=
  Pager.cachePage 1 leaf (Pager.markDirty 1 (Pager.markDirty 1 (Pager.cachePage 1 Page.zero
    (Pager.markDirty 0 (Pager.cachePage 0 Page.zero ⟨Pager.fresh 0, ⟨[], []⟩, schedule⟩)))))

/-- The pager with the metadata written too. -/
def filledPages (page leaf : Page) (schedule : List IoOutcome) : PagerIo :=
  Pager.cachePage 0 page (Pager.markDirty 0 (allocatedPages leaf schedule))

section NewFile

variable {path : String} {schedule : List IoOutcome} {page leaf : Page} {columns : List Column}

theorem allocate_newFile (schedule : List IoOutcome) :
    Pager.perform BTree.allocatePage ⟨Pager.fresh 0, ⟨[], []⟩, schedule⟩ = (.ok 0,
      Pager.markDirty 0 (Pager.cachePage 0 Page.zero ⟨Pager.fresh 0, ⟨[], []⟩, schedule⟩)) := by
  refine (Program.run_extend Pager.store _).trans ?_
  exact PagerIo.allocatePage_past (by
      change 0 / pageSize % 2 ^ 32 = 0
      decide) (by decide) rfl (by
    change ¬ (0 + 1) * pageSize ≤ 0
    decide)

theorem createTree_newFile (init : BTree.initLeaf Page.zero = .ok leaf) :
    Pager.perform BTree.createTree (Pager.markDirty 0 (Pager.cachePage 0 Page.zero
      ⟨Pager.fresh 0, ⟨[], []⟩, schedule⟩)) = (.ok 1, allocatedPages leaf schedule) := by
  have allocated : BTree.allocatePage.run Pager.store (Pager.markDirty 0 (Pager.cachePage 0 Page.zero
      ⟨Pager.fresh 0, ⟨[], []⟩, schedule⟩)) = (.ok 1, Pager.markDirty 1 (Pager.cachePage 1 Page.zero
        (Pager.markDirty 0 (Pager.cachePage 0 Page.zero
          ⟨Pager.fresh 0, ⟨[], []⟩, schedule⟩)))) := by
    refine (Program.run_extend Pager.store _).trans ?_
    exact PagerIo.allocatePage_past (by
        change max 0 ((0 + 1) * pageSize) / pageSize % 2 ^ 32 = 1
        decide) (by decide) rfl (by
      change ¬ (1 + 1) * pageSize ≤ max 0 ((0 + 1) * pageSize)
      decide)
  have wrote := @PagerIo.modifyPage_cached (Pager.markDirty 1 (Pager.cachePage 1 Page.zero
    (Pager.markDirty 0 (Pager.cachePage 0 Page.zero ⟨Pager.fresh 0, ⟨[], []⟩, schedule⟩)))) 1
    Page.zero (by decide) rfl BTree.initLeaf
  rw [init] at wrote
  unfold Pager.perform BTree.createTree
  rw [Program.run_bind_ok allocated]
  exact Program.run_bind_ok ((Program.run_update Pager.store _ _ _).trans wrote)

theorem create_newFile (init : BTree.initLeaf Page.zero = .ok leaf) :
    create columns (newFile path schedule) =
      match encodeMetadata 1 columns Page.zero with
      | .ok page => (do
          flushOutside
          describe columns 1) ((newFile path schedule).withIo (filledPages page leaf schedule))
      | .error fault => (.error fault,
          (newFile path schedule).withIo (Pager.markDirty 0 (allocatedPages leaf schedule))) := by
  have first : onPages BTree.allocatePage (newFile path schedule) = (.ok 0,
      (newFile path schedule).withIo (Pager.markDirty 0 (Pager.cachePage 0 Page.zero
        ⟨Pager.fresh 0, ⟨[], []⟩, schedule⟩))) := by
    unfold onPages
    rw [run_onPager]
    exact congrArg (fun run => (run.1, (newFile path schedule).withIo run.2))
      (allocate_newFile schedule)
  have second : onPages BTree.createTree ((newFile path schedule).withIo (Pager.markDirty 0
      (Pager.cachePage 0 Page.zero ⟨Pager.fresh 0, ⟨[], []⟩, schedule⟩))) =
      (.ok 1, (newFile path schedule).withIo (allocatedPages leaf schedule)) := by
    unfold onPages
    rw [run_onPager, io_withIo, createTree_newFile init]
    rfl
  have wrote := @PagerIo.modifyPage_cached (allocatedPages leaf schedule) 0 Page.zero (by decide)
    rfl (encodeMetadata 1 columns)
  have third : onPages (writeMetadata 1 columns)
      ((newFile path schedule).withIo (allocatedPages leaf schedule)) =
      ((Pager.modifyPage 0 (encodeMetadata 1 columns) (allocatedPages leaf schedule)).1,
        (newFile path schedule).withIo
          (Pager.modifyPage 0 (encodeMetadata 1 columns) (allocatedPages leaf schedule)).2) := by
    unfold onPages writeMetadata
    rw [run_onPager, io_withIo, perform_update]
    rfl
  unfold create
  rw [Exec.bind_ok first, Exec.bind_ok second]
  cases encoded : encodeMetadata 1 columns Page.zero with
  | error fault =>
      rw [encoded] at wrote
      rw [wrote] at third
      exact Exec.bind_error third
  | ok page =>
      rw [encoded] at wrote
      rw [wrote] at third
      exact Exec.bind_ok third

theorem fileLength_filledPages (page leaf : Page) (schedule : List IoOutcome) :
    (filledPages page leaf schedule).pager.fileLength = 2 * pageSize := by
  change max (max (max (max 0 ((0 + 1) * pageSize)) ((1 + 1) * pageSize)) ((1 + 1) * pageSize))
    ((0 + 1) * pageSize) = _
  decide

theorem count_filledPages (page leaf : Page) (schedule : List IoOutcome) :
    (filledPages page leaf schedule).count = 2 := by
  unfold PagerIo.count
  rw [fileLength_filledPages]
  decide

theorem coherent_filledPages (page leaf : Page) (schedule : List IoOutcome) :
    (filledPages page leaf schedule).Coherent where
  fileAligned := rfl
  lengthAligned := by
    rw [fileLength_filledPages]
    decide
  longer := by
    rw [fileLength_filledPages]
    exact Nat.zero_le _
  clean index cached found clean := by
    match index with
    | 0 => cases clean
    | 1 => cases clean
    | index + 2 => cases found
  dirtyCached index dirty := by
    match index with
    | 0 => exact nofun
    | 1 => exact nofun
    | index + 2 => cases dirty
  dirtyBelow index dirty := by
    rw [count_filledPages]
    match index with
    | 0 => decide
    | 1 => decide
    | index + 2 => cases dirty
  lastDirty _ := by
    rw [count_filledPages]
    rfl

theorem commitWrites_filledPages (page leaf : Page) (schedule : List IoOutcome) :
    (filledPages page leaf schedule).commitWrites = [(0, page), (1, leaf)] := by
  refine PagerIo.commitWrites_eq (show 2 ≤ maxPages by decide) fun index above => ?_
  obtain ⟨rest, rfl⟩ := Nat.exists_eq_add_of_le' above
  rfl

/-- The files that the process leaves when the metadata fits. -/
theorem create_crashed {calls bytes : Nat} (init : BTree.initLeaf Page.zero = .ok leaf)
    (encoded : encodeMetadata 1 columns Page.zero = .ok page) :
    (create columns (newFile path (crashAt calls bytes))).2.disk =
      (filledPages page leaf (crashAt calls bytes)).crashed calls bytes := by
  have crashed := Pager.commit_crash (filledPages page leaf (crashAt calls bytes)) bytes calls
  rw [create_newFile init, encoded, ← crashed]
  dsimp only
  rcases flushed : flushOutside ((newFile path (crashAt calls bytes)).withIo
    (filledPages page leaf (crashAt calls bytes))) with ⟨fault | ⟨⟩, table⟩
  · rw [Exec.bind_error flushed]
    exact congrArg (fun run => run.2.disk) flushed.symm
  · rw [Exec.bind_ok flushed]
    exact congrArg (fun run => run.2.disk) flushed.symm

/-- The metadata does not fit: nothing reaches the files. -/
theorem create_unfit {schedule : List IoOutcome} {fault : Fault}
    (stopped : encodeMetadata 1 columns Page.zero = .error fault) :
    (create columns (newFile path schedule)).2.disk = ⟨[], []⟩ := by
  obtain ⟨leaf, init, -⟩ := BTree.initLeaf_leafAt Page.zero
  rw [create_newFile init, stopped]
  rfl

end NewFile

end TableIo

/-! ### A restart -/

namespace TableIo

/-- Loading a table, when page 0 holds metadata. -/
theorem load_ok {table : TableIo} (coherent : table.io.Coherent) (quiet : table.io.Quiet)
    {page : Page} (found : table.io.reads 0 = .ok page) {rootPage : Nat} {columns : List Column}
    (decoded : decodeMetadata page = .ok (rootPage, columns)) :
    ∃ after, load table = (.ok (), after) ∧ after.store.path = table.store.path ∧
      after.store.rootPage = rootPage ∧ after.store.columns = columns ∧ after.io.Quiet ∧
      after.io.reads = table.io.reads := by
  have filled := PagerIo.perform_filled readOnly_readMetadata table.io
  have safe := PagerIo.perform_safe readMetadata table.io coherent quiet
  have value := (readMetadata_run quiet found).trans decoded
  have ran : onPages readMetadata table =
      (.ok (rootPage, columns), table.withIo (Pager.perform readMetadata table.io).2) :=
    Prod.ext value rfl
  let after := table.withIo (Pager.perform readMetadata table.io).2
  refine ⟨{ after with store := { after.store with columns, rootPage } }, ?_, rfl, rfl, rfl,
    safe.2, filled.reads⟩
  unfold load
  rw [Exec.bind_ok ran]
  rfl

/-- Every raw row stands for a row. -/
theorem decodeRows_cons_ne (columns : List Column) (buf : Bytes) (rest : List Bytes) :
    decodeRows columns (buf :: rest) ≠ .ok [] := by
  unfold decodeRows
  rcases deserialize buf columns with fault | row
  · exact nofun
  rcases decodeRows columns rest with fault | rows
  · exact nofun
  · exact nofun

end TableIo

namespace Storage

/-- After a restart, opening the table is refused or gives a table without rows. -/
def RestartsEmpty (host : Host) (dir : String → Option Disk) (name path : String) : Prop :=
  match openTable name path (Storage.new host dir []) with
  | (.ok (), opened) => ∃ headers, (selectAll name opened).1 = .ok (headers, [])
  | (.error fault, _) => ∃ message, fault = .error message

section Restart

variable {host : Host} {dir : String → Option Disk} {name path : String} {disk : Disk}

theorem filesAt_new (found : dir path = some disk) :
    (Storage.new host dir []).filesAt path = disk := by
  change (dir path).getD ⟨[], []⟩ = disk
  rw [found]
  rfl

theorem restartsEmpty_misaligned (found : dir (host.resolve path) = some disk)
    (misaligned : ¬ disk.Aligned) : RestartsEmpty host dir name path := by
  have opened := @openPager_quiet (Storage.new host dir []) rfl (host.resolve path)
  rw [filesAt_new found, Pager.open_misaligned (host.resolve path) misaligned] at opened
  have refused : openTable name path (Storage.new host dir []) = _ :=
    (openTable_opens name path _).trans (Exec.bind_error opened)
  unfold RestartsEmpty
  rw [refused]
  exact ⟨_, rfl⟩

/-- The table that a restart opens, when page 0 holds metadata. -/
theorem openTable_restart (found : dir (host.resolve path) = some disk) (aligned : disk.Aligned)
    {rootPage : Nat} {columns : List Column}
    (decoded : decodeMetadata (disk.recovered.page 0) = .ok (rootPage, columns)) :
    ∃ table opened, openTable name path (Storage.new host dir []) = (.ok (), opened) ∧
      opened.tableAt name = some table ∧ table.store.rootPage = rootPage ∧
      table.store.columns = columns ∧ table.io.Quiet ∧
      table.io.reads = PagerIo.answers disk.recovered.page := by
  have opened := @openPager_quiet (Storage.new host dir []) rfl (host.resolve path)
  rw [filesAt_new found, Pager.open_ok (host.resolve path) aligned] at opened
  have coherent := Pager.fresh_coherent aligned.recovered []
  have start : (((Storage.new host dir []).withFiles (host.resolve path) disk.recovered).opening
      (host.resolve path) (Pager.fresh disk.recovered.db.length)).io =
        ⟨Pager.fresh disk.recovered.db.length, disk.recovered, []⟩ := by
    unfold opening TableIo.io
    rw [filesAt_withFiles]
    rfl
  have reads := coherent.reads (PagerIo.noGap_of_lengths rfl)
  rw [Pager.fresh_view] at reads
  rw [← start] at coherent reads
  have quiet : (((Storage.new host dir []).withFiles (host.resolve path) disk.recovered).opening
      (host.resolve path) (Pager.fresh disk.recovered.db.length)).io.Quiet := rfl
  have answer : (((Storage.new host dir []).withFiles (host.resolve path) disk.recovered).opening
      (host.resolve path) (Pager.fresh disk.recovered.db.length)).io.reads 0 = .ok (disk.recovered.page 0) := by
    rw [reads]
    rfl
  obtain ⟨table, loaded, samePath, root, names, quiet, same⟩ :=
    TableIo.load_ok coherent quiet answer decoded
  refine ⟨table, ((Storage.new host dir []).withFiles (host.resolve path) disk.recovered).put name table, ?_,
    tableAt_put_self, root, names, quiet, same.trans reads⟩
  exact ((openTable_opens name path _).trans (Exec.bind_ok opened)).trans (addTable_ok loaded samePath)

/-- What `select_all` of a table that a restart opened starts with. -/
theorem restartsEmpty_iff_scan (found : dir (host.resolve path) = some disk) (aligned : disk.Aligned)
    {rootPage : Nat} {columns : List Column}
    (decoded : decodeMetadata (disk.recovered.page 0) = .ok (rootPage, columns)) :
    RestartsEmpty host dir name path ↔
      (BTree.scanAll rootPage).evaluate (PagerIo.answers disk.recovered.page) = .ok [] := by
  obtain ⟨table, opened, ran, there, rfl, rfl, quiet, reads⟩ :=
    @openTable_restart host dir name path disk found aligned rootPage columns decoded
  have scans := @TableIo.onPages_readOnly table _ _
    (BTree.readOnly_scanAll table.store.rootPage) quiet
  rw [reads] at scans
  have selected : (selectAll name opened).1 = (TableIo.selectAll table).1 := by
    unfold selectAll
    rw [onTable_found there (TableIo.Safe.samePath TableIo.selectAll_safe)]
  unfold RestartsEmpty
  rw [ran]
  dsimp only
  rw [selected, ← scans]
  unfold TableIo.selectAll
  rw [Exec.bind_ok (Exec.run_get table)]
  rcases ran : TableIo.onPages (BTree.scanAll table.store.rootPage) table with
    ⟨fault | rawRows, after⟩
  · rw [Exec.bind_error ran]
    constructor
    · rintro ⟨_, impossible⟩
      cases impossible
    · intro impossible
      cases impossible
  · rw [Exec.bind_ok ran]
    cases rawRows with
    | nil => exact ⟨fun _ => rfl, fun _ => ⟨_, rfl⟩⟩
    | cons buf rest =>
        refine ⟨?_, fun impossible => by cases impossible⟩
        rintro ⟨headers, emptied⟩
        rcases decoded : TableIo.decodeRows table.store.columns (buf :: rest) with fault | rows
        · rw [decoded] at emptied
          cases emptied
        · rw [decoded] at emptied
          obtain rfl : rows = [] := (Prod.mk.inj (Except.ok.inj emptied)).2
          exact absurd decoded (TableIo.decodeRows_cons_ne _ _ _)

end Restart

/-! ### Creating a table and stopping -/

section Stopping

variable {state : Storage} {name : String} {columns : List Column} {calls bytes : Nat}

/-- The process stops after the commit record of the flush of a new table is whole. -/
def FlushSealed (calls bytes : Nat) : Prop := 11 ≤ calls ∨ (calls = 10 ∧ recordSize ≤ bytes)

theorem openPager_new {path : String} (new : state.dir path = none)
    (started : firstCallDone state.schedule = true) {result : Except Fault Pager} {after : DiskIo}
    (opened : Pager.open path ⟨⟨[], []⟩, state.schedule⟩ = (result, after)) :
    openPager path state =
      (result, { state.withFiles path after.disk with schedule := after.schedule }) := by
  have files : state.filesAt path = ⟨[], []⟩ := by
    unfold filesAt
    rw [new]
    rfl
  unfold openPager
  rw [files, opened, started]
  simp [withFiles]

theorem addTable_dir {path : String} {pager : Pager} {setUp : Exec TableIo Unit} :
    (addTable name path pager setUp state).2.dir path =
      some (setUp (state.opening path pager)).2.disk := by
  rcases made : setUp (state.opening path pager) with ⟨fault | ⟨⟩, table⟩
  · rw [addTable_error made]
    exact Function.update_self _ _ _
  · unfold addTable
    rw [show setUp ⟨⟨path, pager, [], 0⟩, state.filesAt path, state.schedule⟩ = _ from made]
    exact Function.update_self _ _ _

/-- The process stops while the new file is opened. -/
theorem createTable_early (fresh : state.tableAt name = none)
    (new : state.dir (state.fileOf name) = none) (created : 1 ≤ calls) (early : calls < 5) :
    (createTable name columns { state with schedule := crashAt calls bytes }).2.dir (state.fileOf name) =
      some ⟨[], []⟩ := by
  have opened : ∃ schedule, Pager.open (state.fileOf name) ⟨⟨[], []⟩, crashAt calls bytes⟩ =
      (.error .crash, ⟨⟨[], []⟩, schedule⟩) := by
    match calls with
    | 1 => exact ⟨_, rfl⟩
    | 2 => exact ⟨_, rfl⟩
    | 3 => exact ⟨_, rfl⟩
    | 4 => exact ⟨_, rfl⟩
  obtain ⟨schedule, opened⟩ := opened
  have started : firstCallDone (crashAt calls bytes) = true := by
    obtain ⟨rest, rfl⟩ := Nat.exists_eq_add_of_le' created
    rfl
  have ran := @openPager_new { state with schedule := crashAt calls bytes } _ new started _ _ opened
  have stopping : ({ state with schedule := crashAt calls bytes } : Storage).tableAt name = none :=
    have absent := tableAt_eq_none.mp fresh
    tableAt_eq_none.mpr absent
  rw [show createTable name columns { state with schedule := crashAt calls bytes } = _ from
    (createTable_opens stopping).trans (Exec.bind_error ran)]
  exact Function.update_self _ _ _

/-- The process stops later. -/
theorem createTable_late (fresh : state.tableAt name = none)
    (new : state.dir (state.fileOf name) = none) :
    (createTable name columns { state with schedule := crashAt (calls + 5) bytes }).2.dir
        (state.fileOf name) =
      some (TableIo.create columns (TableIo.newFile (state.fileOf name) (crashAt calls bytes))).2.disk := by
  have opened : Pager.open (state.fileOf name) ⟨⟨[], []⟩, crashAt (calls + 5) bytes⟩ =
      (.ok (Pager.fresh 0), ⟨⟨[], []⟩, crashAt calls bytes⟩) := rfl
  have ran := @openPager_new { state with schedule := crashAt (calls + 5) bytes } _ new rfl _ _
    opened
  have stopping : ({ state with schedule := crashAt (calls + 5) bytes } : Storage).tableAt name = none :=
    have absent := tableAt_eq_none.mp fresh
    tableAt_eq_none.mpr absent
  rw [show createTable name columns { state with schedule := crashAt (calls + 5) bytes } =
      addTable name (state.fileOf name) (Pager.fresh 0) (TableIo.create columns) _ from
    (createTable_opens stopping).trans (Exec.bind_ok ran), addTable_dir]
  unfold opening filesAt
  rw [show (withFiles (state.fileOf name) (⟨[], []⟩ : Disk)
    { state with schedule := crashAt (calls + 5) bytes }).dir (state.fileOf name) = some ⟨[], []⟩ from
    Function.update_self _ _ _]
  rfl

variable {host : Host} {dir : String → Option Disk} {path : String}

/-- Empty files do not restart as an empty table. -/
theorem not_restartsEmpty_blank {disk : Disk} (found : dir (host.resolve path) = some disk)
    (aligned : disk.Aligned) (blank : disk.recovered.page 0 = Page.zero) :
    ¬ RestartsEmpty host dir name path := by
  have decoded : decodeMetadata (disk.recovered.page 0) = .ok (0, []) := by
    rw [blank]
    rfl
  rw [restartsEmpty_iff_scan found aligned decoded, BTree.scanAll_blank (by rw [← blank]; rfl)]
  exact nofun

/-- With metadata that fits, the files restart as an empty table if the flush was sealed. -/
theorem restartsEmpty_crashed {page leaf : Page}
    (empty : BTree.LeafAt leaf [] 0) (encoded : encodeMetadata 1 columns Page.zero = .ok page)
    (found : dir (host.resolve path) =
      some ((TableIo.filledPages page leaf (crashAt calls bytes)).crashed calls bytes)) :
    RestartsEmpty host dir name path ↔ FlushSealed (calls + 5) bytes := by
  have coherent := TableIo.coherent_filledPages page leaf (crashAt calls bytes)
  have writes := TableIo.commitWrites_filledPages page leaf (crashAt calls bytes)
  have sealed : Sealed (TableIo.filledPages page leaf (crashAt calls bytes)).commitWrites calls
      bytes ↔ FlushSealed (calls + 5) bytes := by
    rw [writes]
    unfold Sealed FlushSealed
    change 2 * 2 + 2 ≤ calls ∨ calls = 2 * 2 + 1 ∧ recordSize ≤ bytes ↔ _
    omega
  by_cases torn : TornExtension (TableIo.filledPages page leaf (crashAt calls bytes)).disk
    (TableIo.filledPages page leaf (crashAt calls bytes)).commitWrites calls bytes
  · have misaligned := Disk.Aligned.stoppedWrites_torn coherent.fileAligned
      (PagerIo.commitWrites_sorted _) torn
    obtain ⟨position, write, -, count, -⟩ := torn
    rw [writes] at count
    change calls = 2 * 2 + 3 + (2 * position + 1) at count
    refine iff_of_true (restartsEmpty_misaligned found (misaligned _)) (Or.inl (by omega))
  · obtain ⟨aligned, pages⟩ := coherent.crashed_recovered wholeLog_nil recoveredRecords_nil
      (PagerIo.idUnused_of_empty rfl calls bytes) torn
    rw [← sealed]
    by_cases late : Sealed (TableIo.filledPages page leaf (crashAt calls bytes)).commitWrites calls
      bytes
    · rw [if_pos late] at pages
      have decoded := decodeMetadata_encoded encoded
      refine iff_of_true ?_ late
      rw [restartsEmpty_iff_scan found aligned (by rw [pages]; exact decoded), pages]
      exact BTree.scanAll_emptyLeaf rfl empty
    · rw [if_neg late] at pages
      exact iff_of_false (not_restartsEmpty_blank found aligned (by rw [pages]; rfl)) late

/-- Creating a table in a process that is stopped after it created the file: the file
restarts as an empty table, or is refused, exactly if the metadata fits and the commit record
of the flush is whole. -/
theorem createTable_restartsEmpty_iff (later : Host) (fresh : state.tableAt name = none)
    (new : state.dir (state.fileOf name) = none) (created : 1 ≤ calls) :
    RestartsEmpty (state.host.restarted later)
        (createTable name columns { state with schedule := crashAt calls bytes }).2.dir name
        (pathOf name) ↔
      (metadataBytes 1 columns).length ≤ pageSize ∧ FlushSealed calls bytes := by
  by_cases early : calls < 5
  · have found := @createTable_early state name columns calls bytes fresh new created early
    refine iff_of_false (@not_restartsEmpty_blank _ (state.host.restarted later) _ (pathOf name) _ found
      rfl ?_) ?_
    · rw [Disk.recovered_of_empty rfl]
      rfl
    · rintro ⟨-, sealed⟩
      unfold FlushSealed at sealed
      omega
  · obtain ⟨rest, rfl⟩ := Nat.exists_eq_add_of_le' (Nat.le_of_not_lt early)
    have found := @createTable_late state name columns rest bytes fresh new
    rcases encoded : encodeMetadata 1 columns Page.zero with fault | page
    · rw [TableIo.create_unfit encoded] at found
      refine iff_of_false (@not_restartsEmpty_blank _ (state.host.restarted later) _ (pathOf name) _
        found rfl ?_) ?_
      · rw [Disk.recovered_of_empty rfl]
        rfl
      · rintro ⟨fits, -⟩
        obtain ⟨page, written⟩ : ∃ page, encodeMetadata 1 columns Page.zero = .ok page :=
          encodeMetadata_ok fits
        rw [encoded] at written
        cases written
    · obtain ⟨leaf, init, empty⟩ := BTree.initLeaf_leafAt Page.zero
      rw [TableIo.create_crashed init encoded] at found
      rw [@restartsEmpty_crashed name columns _ _ (state.host.restarted later) _ (pathOf name) _ _
        empty encoded found]
      exact ⟨fun sealed => ⟨(encodeMetadata_bytes encoded).1, sealed⟩, fun both => both.2⟩

/-- A table of one column, stopped right after the commit record, restarts empty. -/
theorem createTable_restartsEmpty_sealed :
    RestartsEmpty (Host.startingWith "t")
      (createTable "t" [⟨"id", .integer⟩] ⟨∅, Host.startingWith "t", fun _ => none,
        crashAt 11 0⟩).2.dir "t" "t.db" :=
  (@createTable_restartsEmpty_iff (Storage.new (Host.startingWith "t") (fun _ => none) [])
    "t" [⟨"id", .integer⟩] 11 0 (Host.startingWith "t")
    (tableAt_eq_none.mpr (Finmap.lookup_empty _)) rfl (by decide)).mpr
      ⟨by rw [metadataBytes_length]; decide, Or.inl (Nat.le_refl _)⟩

/-- The process stops when it has created the file: the restarted table cannot be scanned. -/
theorem createTable_restarts_diverging :
    ¬ RestartsEmpty (Host.startingWith "t")
      (createTable "t" [⟨"id", .integer⟩] ⟨∅, Host.startingWith "t", fun _ => none,
        crashAt 1 0⟩).2.dir "t" "t.db" := by
  have found := @createTable_early (Storage.new (Host.startingWith "t") (fun _ => none) [])
    "t" [⟨"id", .integer⟩] 1 0 (tableAt_eq_none.mpr (Finmap.lookup_empty _)) rfl (by decide)
    (by decide)
  refine not_restartsEmpty_blank found rfl ?_
  rw [Disk.recovered_of_empty rfl]
  rfl

end Stopping

end Storage

end MukhiDb.Model
