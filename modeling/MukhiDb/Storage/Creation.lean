import MukhiDb.BTree.Runs
import MukhiDb.Pager.Outcomes
import MukhiDb.Storage.Flags
import MukhiDb.Storage.Metadata
import MukhiDb.Storage.Rollback

/-!
Contract: what creating a table stores.

Owns: when the metadata of a list of columns fits and is read back; the fact that
creating a table then gives an error value or a table whose metadata reads back, with
any pattern of I/O outcomes; and the fact that this is the only such list of columns
wherever the new table's file has whole pages and room for two more.

Does not own: what the table holds afterwards.
-/

namespace MukhiDb.Model

open MukhiDb.Foundation

/-- The metadata of the columns fits in a page, and every name is read back. -/
structure MetadataFits (columns : List Column) : Prop where
  size : metaColsOffset + (columns.map fun column => column.storedLength + 3).sum ≤ pageSize
  names : ∀ column ∈ columns, column.NameKept

/-- The metadata of a table with its files reads as given, in the pager that has them open
and in one that opens them later. -/
def ReadsBack (store : TableStore) (disk : Disk) (metadata : Nat × List Column) : Prop :=
  (Pager.perform readMetadata ⟨store.pager, disk, []⟩).1 = .ok metadata ∧
    ∃ pager files, Pager.open store.path ⟨disk, []⟩ = (.ok pager, files) ∧
      (Pager.perform readMetadata ⟨pager, files.disk, files.schedule⟩).1 = .ok metadata

/-- Creating a table gives an error value, or a table whose metadata reads back. -/
def CreatesFaithfully (state : Storage) (name : String) (columns : List Column) : Prop :=
  match Storage.createTable name columns state with
  | (.ok (), after) => ∃ store, after.tables.lookup name = some store ∧ store.columns = columns ∧
      ReadsBack store (after.filesAt store.path) (store.rootPage, columns)
  | (.error fault, _) => fault ≠ .panic ∧ fault ≠ .diverge

theorem metadataBytes_length (rootPage : Nat) (columns : List Column) :
    (metadataBytes rootPage columns).length =
      metaColsOffset + (columns.map fun column => column.storedLength + 3).sum := by
  unfold metadataBytes metaColsOffset
  rw [List.length_append, List.length_append, leBytes_length, leBytes_length, List.length_flatMap]
  simp only [columnBytes_length]

namespace TableIo

/-- A table whose coming I/O calls all take effect. -/
def quieted (table : TableIo) : TableIo := { table with schedule := [] }

theorem oblivious_onPager {α : Type} {call : Exec PagerIo α}
    (oblivious : Exec.Oblivious PagerIo.quieted call) : Exec.Oblivious quieted (onPager call) :=
  Exec.Oblivious.zoom (fun _ => rfl) (fun _ _ => rfl) oblivious

theorem oblivious_onPages {α : Type} (program : PageProgram α) :
    Exec.Oblivious quieted (onPages program) :=
  oblivious_onPager (Pager.oblivious_pages program)

theorem oblivious_flushOutside : Exec.Oblivious quieted flushOutside := by
  apply Exec.Oblivious.getBind (by intro _; rfl)
  intro table
  split
  · exact Exec.Oblivious.pure ()
  · exact oblivious_onPager Pager.oblivious_commit

theorem oblivious_create (columns : List Column) : Exec.Oblivious quieted (create columns) :=
  (oblivious_onPages _).bind fun _ => (oblivious_onPages _).bind fun _ =>
    (oblivious_onPages _).bind fun _ => oblivious_flushOutside.bind fun _ =>
      Exec.Oblivious.modify (by intro _; rfl)

/-! ### Creating reports what goes wrong -/

theorem reports_onPages {α : Type} {program : PageProgram α}
    (reports : Exec.Reports (Pager.perform program)) : Exec.Reports (onPages program) := by
  unfold onPages onPager
  exact reports.zoom

theorem reports_extend : Exec.Reports (Pager.perform BTree.allocatePage) :=
  Pager.reports_allocatePage.bind fun _ => Exec.Reports.pure _

theorem reports_update {index : Nat} {change : Page → Except Fault Page}
    (changes : ∀ page, ∃ after, change page = .ok after) :
    Exec.Reports (Pager.perform (BTree.modifyPage index change)) :=
  (Pager.reports_modifyPage index changes).bind fun _ => Exec.Reports.pure _

theorem reports_createTree : Exec.Reports (Pager.perform BTree.createTree) := by
  have inits (page : Page) : ∃ after, BTree.initLeaf page = .ok after := by
    obtain ⟨after, init, -⟩ := BTree.initLeaf_ok page
    exact ⟨after, init⟩
  unfold Pager.perform BTree.createTree
  rw [Program.run_bind]
  apply reports_extend.bind
  intro pageNum
  rw [Program.run_bind]
  exact (reports_update inits).bind fun _ => Exec.Reports.pure _

theorem reports_flushOutside : Exec.Reports flushOutside := by
  apply Exec.Reports.get.bind
  intro table
  split
  · exact Exec.Reports.pure ()
  · exact Pager.reports_commit.zoom

/-- Creating a table with metadata that fits never panics. -/
theorem reports_create {columns : List Column}
    (size : metaColsOffset + (columns.map fun column => column.storedLength + 3).sum ≤ pageSize) :
    Exec.Reports (create columns) := by
  have writes (rootPage : Nat) (page : Page) :
      ∃ after, encodeMetadata rootPage columns page = .ok after :=
    encodeMetadata_ok (by rw [metadataBytes_length]; exact size)
  exact (reports_onPages reports_extend).bind fun _ =>
    (reports_onPages reports_createTree).bind fun rootPage =>
      (reports_onPages (reports_update (writes rootPage))).bind fun _ =>
        reports_flushOutside.bind fun _ => Exec.Reports.modify _

/-! ### What a successful creation leaves -/

theorem modifyPage_returned {state after : PagerIo} {index : Nat}
    {change : Page → Except Fault Page} (coherent : state.Coherent) (quiet : state.Quiet)
    (ran : Pager.modifyPage index change state = (.ok (), after)) :
    index < maxPages ∧ ∃ page, change (state.view index) = .ok page ∧
      PagerIo.Modified state index page after := by
  rcases PagerIo.loadPage_cases coherent quiet index with
    ⟨-, -, below, noGap, -, -⟩ | ⟨message, refused⟩
  · refine ⟨below, ?_⟩
    rcases changed : change (state.view index) with fault | page
    · obtain ⟨middle, run, -⟩ := PagerIo.getPageMut_ok coherent quiet below noGap
      unfold Pager.modifyPage at ran
      rw [Exec.bind_ok run, changed] at ran
      cases (Prod.mk.inj ran).1
    · obtain ⟨other, run, modified⟩ := PagerIo.modifyPage_ok coherent quiet below noGap changed
      rw [run] at ran
      obtain ⟨-, rfl⟩ := Prod.mk.inj ran
      exact ⟨page, rfl, modified⟩
  · unfold Pager.modifyPage at ran
    rw [Exec.bind_error (PagerIo.getPageMut_error refused)] at ran
    cases (Prod.mk.inj ran).1

/-- A page program on a table whose I/O succeeds. -/
theorem onPages_returned {α : Type} {program : PageProgram α} {table after : TableIo} {value : α}
    (coherent : table.io.Coherent) (quiet : table.io.Quiet)
    (ran : onPages program table = (.ok value, after)) :
    Pager.perform program table.io = (.ok value, after.io) ∧ after = table.withIo after.io ∧
      after.io.Coherent ∧ after.io.Quiet ∧
      after.store.pager.inTransaction = table.store.pager.inTransaction := by
  obtain ⟨-, safe⟩ := onPages_safe program table
  obtain ⟨-, calm⟩ := onPages_calm program table
  rw [ran] at safe calm
  obtain ⟨coherent, quiet⟩ := safe coherent quiet
  unfold onPages at ran
  rw [run_onPager] at ran
  obtain ⟨result, rfl⟩ := Prod.mk.inj ran
  exact ⟨Prod.ext result rfl, rfl, coherent, quiet, calm.inTransaction⟩

theorem perform_update {index : Nat} {change : Page → Except Fault Page} (state : PagerIo) :
    Pager.perform (BTree.modifyPage index change) state = Pager.modifyPage index change state :=
  Program.run_update Pager.store index change state

/-- A new tree has its root below the page limit. -/
theorem createTree_returned {state after : PagerIo} {rootPage : Nat} (coherent : state.Coherent)
    (quiet : state.Quiet) (ran : Pager.perform BTree.createTree state = (.ok rootPage, after)) :
    rootPage < maxPages := by
  unfold Pager.perform BTree.createTree at ran
  rw [Program.run_bind] at ran
  obtain ⟨pageNum, allocated, extended, ran⟩ := Exec.bind_eq_ok.mp ran
  rw [Program.run_bind] at ran
  obtain ⟨_, _, updated, ran⟩ := Exec.bind_eq_ok.mp ran
  obtain rfl : pageNum = rootPage := Except.ok.inj (Prod.mk.inj ran).1
  obtain ⟨coherent', frame⟩ := PagerIo.perform_loose BTree.allocatePage state coherent quiet
  rw [show Pager.perform BTree.allocatePage state = _ from extended] at coherent' frame
  exact (modifyPage_returned coherent' (frame.quiet quiet)
    ((perform_update allocated).symm.trans updated)).1

/-- A table that was just created. -/
structure Created (columns : List Column) (start table : TableIo) : Prop where
  path : table.store.path = start.store.path
  columns : table.store.columns = columns
  below : table.store.rootPage < maxPages
  quiet : table.io.Quiet
  coherent : table.io.Coherent
  settled : table.io.Settled
  log : table.disk.log = []
  metadata : ∃ before,
    encodeMetadata table.store.rootPage table.store.columns before = .ok (table.disk.page 0)

theorem create_returned {columns : List Column} {start table : TableIo}
    (coherent : start.io.Coherent) (quiet : start.io.Quiet)
    (idle : start.store.pager.inTransaction = false)
    (ran : create columns start = (.ok (), table)) : Created columns start table := by
  unfold create at ran
  obtain ⟨_, first, allocated, ran⟩ := Exec.bind_eq_ok.mp ran
  obtain ⟨rootPage, second, treed, ran⟩ := Exec.bind_eq_ok.mp ran
  obtain ⟨_, third, wrote, ran⟩ := Exec.bind_eq_ok.mp ran
  obtain ⟨_, fourth, flushed, ran⟩ := Exec.bind_eq_ok.mp ran
  obtain ⟨-, rfl⟩ := Prod.mk.inj ran
  obtain ⟨-, firstIo, coherent, quiet, idleFirst⟩ := onPages_returned coherent quiet allocated
  have below := createTree_returned coherent quiet
    (onPages_returned coherent quiet treed).1
  obtain ⟨-, secondIo, coherent, quiet, idleSecond⟩ := onPages_returned coherent quiet treed
  have updated := (onPages_returned coherent quiet wrote).1
  unfold writeMetadata at updated
  rw [perform_update] at updated
  obtain ⟨-, page, encoded, modified⟩ := modifyPage_returned coherent quiet updated
  obtain ⟨-, thirdIo, coherent, quiet, idleThird⟩ := onPages_returned coherent quiet wrote
  have idle : third.store.pager.inTransaction = false :=
    idleThird.trans (idleSecond.trans (idleFirst.trans idle))
  unfold flushOutside at flushed
  rw [Exec.bind_ok (Exec.run_get third), if_neg (by rw [idle]; simp)] at flushed
  change onPager Pager.commit third = _ at flushed
  rw [run_onPager, PagerIo.commit_ok quiet] at flushed
  obtain ⟨-, rfl⟩ := Prod.mk.inj flushed
  have path : third.store.path = start.store.path := by
    rw [thirdIo, path_withIo, secondIo, path_withIo, firstIo, path_withIo]
  refine ⟨path, rfl, below, quiet, coherent.committed_coherent, coherent.consistent.dirtyAfter_all, rfl, ?_⟩
  have stored : third.io.committed.disk.page 0 = page := by
    rw [coherent.consistent.committed_page, modified.view, Function.update_self]
  exact ⟨_, encoded.trans (congrArg Except.ok stored.symm)⟩

/-! ### Creating a table step by step -/

/-- Setting the columns and the root page of a table. -/
def describe (columns : List Column) (rootPage : Nat) : Exec TableIo Unit :=
  Exec.modify fun table => { table with store := { table.store with columns, rootPage } }

section Steps

variable {columns : List Column} {start : TableIo} {leaf : Page}

/-- The first steps allocate page 0, or the next page of a file that has one, and a leaf. -/
theorem create_allocates (sound : start.io.Sound) (room : start.io.count + 2 ≤ maxPages)
    (init : BTree.initLeaf Page.zero = .ok leaf) :
    ∃ io, PagerIo.Shows start.io io (start.io.book ++ [Page.zero] ++ [leaf]) ∧
      create columns start = (do
        onPages (writeMetadata (start.io.count + 1) columns)
        flushOutside
        describe columns (start.io.count + 1)) (start.withIo io) := by
  have length := PagerIo.book_length start.io
  have grown : (start.io.book ++ [Page.zero]).length = start.io.count + 1 := by
    rw [List.length_append, List.length_singleton, length]
  obtain ⟨first, allocated, shows⟩ := PagerIo.perform_shows (PagerIo.shows_book sound)
    (BTree.run_allocatePage (by omega)) (by simp)
  have tree := @BTree.createTree_run (start.io.book ++ [Page.zero]) (by omega) leaf init
  rw [grown] at tree
  obtain ⟨second, treed, shows⟩ := PagerIo.perform_shows shows tree (by simp)
  refine ⟨second, shows, ?_⟩
  have ranFirst : onPages BTree.allocatePage start =
      (.ok start.io.book.length, start.withIo first) := by
    unfold onPages
    rw [run_onPager, allocated]
  have ranSecond : onPages BTree.createTree (start.withIo first) =
      (.ok (start.io.count + 1), start.withIo second) := by
    unfold onPages
    rw [run_onPager, io_withIo, treed]
    rfl
  unfold create
  rw [Exec.bind_ok ranFirst, Exec.bind_ok ranSecond]
  rfl

theorem view_zero_allocated (sound : start.io.Sound) :
    binding.at_ (start.io.book ++ [Page.zero] ++ [leaf]) 0 = start.io.view 0 := by
  rw [← PagerIo.at_book sound.coherent, List.append_assoc]
  rcases start.io.book with _ | ⟨page, rest⟩
  · rfl
  · rfl

/-- Writing metadata that fits, once the pages are there. -/
theorem create_prepares (sound : start.io.Sound) (room : start.io.count + 2 ≤ maxPages)
    (init : BTree.initLeaf Page.zero = .ok leaf) {page : Page}
    (encoded : encodeMetadata (start.io.count + 1) columns (start.io.view 0) = .ok page) :
    ∃ io, PagerIo.Shows start.io io ((start.io.book ++ [Page.zero] ++ [leaf]).set 0 page) ∧
      create columns start = (do
        flushOutside
        describe columns (start.io.count + 1)) (start.withIo io) := by
  obtain ⟨between, shows, created⟩ := @create_allocates columns start leaf sound room init
  have length := PagerIo.book_length start.io
  have grown : (start.io.book ++ [Page.zero] ++ [leaf]).length = start.io.count + 2 := by
    rw [List.length_append, List.length_append, List.length_singleton, List.length_singleton,
      length]
  rw [← @view_zero_allocated start leaf sound] at encoded
  obtain ⟨io, wrote, shows⟩ := PagerIo.perform_shows shows
    (BTree.run_modifyPage (by omega) (by omega) encoded) (by simp)
  refine ⟨io, shows, ?_⟩
  have ran : onPages (writeMetadata (start.io.count + 1) columns) (start.withIo between) =
      (.ok (), start.withIo io) := by
    unfold onPages writeMetadata
    rw [run_onPager, io_withIo, wrote]
    rfl
  rw [created, Exec.bind_ok ran]

/-- Metadata that does not fit makes creating a table panic. -/
theorem create_panics (sound : start.io.Sound) (room : start.io.count + 2 ≤ maxPages)
    {fault : Fault}
    (stopped : encodeMetadata (start.io.count + 1) columns (start.io.view 0) = .error fault) :
    ∃ after, create columns start = (.error .panic, after) := by
  obtain ⟨leaf, init, -⟩ := BTree.initLeaf_ok Page.zero
  obtain ⟨between, shows, created⟩ := @create_allocates columns start leaf sound room init
  have length := PagerIo.book_length start.io
  have grown : (start.io.book ++ [Page.zero] ++ [leaf]).length = start.io.count + 2 := by
    rw [List.length_append, List.length_append, List.length_singleton, List.length_singleton,
      length]
  obtain rfl := encodeMetadata_panic stopped
  rw [← @view_zero_allocated start leaf sound] at stopped
  obtain ⟨io, wrote, -⟩ := PagerIo.perform_shows shows
    (Binding.run_update_error (by decide : 0 < binding.limit) (by omega) stopped) (by simp)
  have ran : onPages (writeMetadata (start.io.count + 1) columns) (start.withIo between) =
      (.error .panic, start.withIo io) := by
    unfold onPages writeMetadata
    rw [run_onPager, io_withIo]
    unfold BTree.modifyPage
    rw [wrote]
    rfl
  exact ⟨_, created.trans (Exec.bind_error ran)⟩

/-- Outside of a transaction, creating a table whose metadata fits succeeds. -/
theorem create_succeeds (sound : start.io.Sound) (room : start.io.count + 2 ≤ maxPages)
    (idle : start.store.pager.inTransaction = false) {page : Page}
    (init : BTree.initLeaf Page.zero = .ok leaf)
    (encoded : encodeMetadata (start.io.count + 1) columns (start.io.view 0) = .ok page) :
    ∃ io, PagerIo.Shows start.io io ((start.io.book ++ [Page.zero] ++ [leaf]).set 0 page) ∧
      create columns start =
        describe columns (start.io.count + 1) (start.withIo io.committed) := by
  obtain ⟨io, shows, created⟩ := create_prepares sound room init encoded
  have outside : io.pager.inTransaction = false :=
    shows.frame.inTransaction.trans idle
  have flushed : flushOutside (start.withIo io) = (.ok (), start.withIo io.committed) := by
    have working : ¬ (start.withIo io).store.pager.inTransaction = true := by
      rw [show (start.withIo io).store.pager.inTransaction = false from outside]
      simp
    unfold flushOutside
    rw [Exec.bind_ok (Exec.run_get _), if_neg working]
    change onPager Pager.commit (start.withIo io) = _
    rw [run_onPager, io_withIo, PagerIo.commit_ok shows.sound.quiet]
    rfl
  exact ⟨io, shows, created.trans (Exec.bind_ok flushed)⟩

end Steps

/-- What is read from a table that was just created is what its page 0 holds. -/
theorem Created.readsBack {columns : List Column} {start table : TableIo}
    (created : Created columns start table) :
    ReadsBack table.store table.disk
      (table.store.rootPage, table.store.columns.map Column.stored) := by
  obtain ⟨before, encoded⟩ := created.metadata
  have decoded := decodeMetadata_encoded encoded
  have limit : maxPages < 2 ^ 32 := by decide
  rw [Nat.mod_eq_of_lt (created.below.trans limit)] at decoded
  have first (pages : Nat → Page) (same : pages 0 = table.disk.page 0) :
      PagerIo.answers pages 0 = .ok (table.disk.page 0) := by
    unfold PagerIo.answers
    rw [if_neg (by decide), same]
  have aligned : table.disk.Aligned := created.coherent.fileAligned
  have opened := Pager.open_ok table.store.path aligned
  rw [Disk.recovered_of_empty created.log] at opened
  constructor
  · have io : (⟨table.store.pager, table.disk, []⟩ : PagerIo) = table.io :=
      congrArg (PagerIo.mk _ _) (created.quiet : table.schedule = []).symm
    have reads := settled_reads created.coherent created.settled
    rw [io, readMetadata_run created.quiet (by rw [reads]; exact first _ rfl), decoded]
  · refine ⟨_, _, opened, ?_⟩
    have fresh := Pager.fresh_coherent aligned []
    have reads := fresh.reads (PagerIo.noGap_of_lengths rfl)
    rw [Pager.fresh_view] at reads
    rw [@readMetadata_run ⟨Pager.fresh table.disk.db.length, table.disk, []⟩ _ rfl
      (by rw [reads]; exact first _ rfl), decoded]

end TableIo

/-! ### Creating a table -/

namespace Storage

variable {state after : Storage} {name path : String} {columns : List Column}

/-- A storage whose coming I/O calls all take effect. -/
def quieted (state : Storage) : Storage := { state with schedule := [] }

theorem firstCallDone_of_clear {schedule : List IoOutcome} (clear : Clear 1 schedule) :
    firstCallDone schedule = true := by
  cases schedule with
  | nil => rfl
  | cons outcome rest => exact decide_eq_true (clear outcome (by simp))

theorem oblivious_openPager (path : String) : Exec.Oblivious quieted (openPager path) := by
  intro state after pager ran
  obtain ⟨opened, rfl⟩ := Prod.mk.inj ran
  have ran : Pager.open path ⟨state.filesAt path, state.schedule⟩ =
      (.ok pager, (Pager.open path ⟨state.filesAt path, state.schedule⟩).2) :=
    Prod.ext opened rfl
  have quiet := Pager.oblivious_open path ⟨state.filesAt path, state.schedule⟩ _ pager ran
  have clear : Clear 1 state.schedule := by
    unfold Pager.open at ran
    obtain ⟨⟨⟩, middle, first, -⟩ := Exec.bind_eq_ok.mp ran
    by_contra failed
    obtain ⟨fault, left, stopped⟩ := @Medium.perform_failed
      (fun message => s!"Failed to open '{path}': {message}") (fun _ bytes => bytes) id
      ⟨(state.filesAt path).db, state.schedule⟩ failed
    have returned : (Medium.openFile (fun message => s!"Failed to open '{path}': {message}")
        ⟨(state.filesAt path).db, state.schedule⟩).1 = .ok () := congrArg Prod.fst first
    unfold Medium.openFile at returned
    rw [stopped] at returned
    cases returned
  unfold openPager
  rw [firstCallDone_of_clear clear]
  rw [show Pager.open path ⟨state.quieted.filesAt path, state.quieted.schedule⟩ = _ from quiet]
  rfl

theorem oblivious_addTable {pager : Pager} {setUp : Exec TableIo Unit}
    (oblivious : Exec.Oblivious TableIo.quieted setUp) :
    Exec.Oblivious quieted (addTable name path pager setUp) := by
  intro state after value ran
  rcases made : setUp (state.opening path pager) with ⟨fault | ⟨⟩, table⟩
  · rw [addTable_error made] at ran
    cases (Prod.mk.inj ran).1
  · have quiet := oblivious _ _ _ made
    have outcome (start : Storage) (result : TableIo)
        (made : setUp (start.opening path pager) = (.ok (), result)) :
        addTable name path pager setUp start = (.ok (),
          { start with
            dir := Function.update start.dir path (some result.disk)
            schedule := result.schedule
            tables := start.tables.insert name result.store }) := by
      unfold addTable
      rw [show setUp ⟨⟨path, pager, [], 0⟩, start.filesAt path, start.schedule⟩ = _ from made]
    rw [outcome state table made] at ran
    obtain ⟨-, rfl⟩ := Prod.mk.inj ran
    rw [outcome state.quieted table.quieted quiet]
    rfl

theorem oblivious_createTable (name : String) (columns : List Column) :
    Exec.Oblivious quieted (createTable name columns) := by
  apply Exec.Oblivious.getBind (by intro _; rfl)
  intro state
  split
  · exact Exec.Oblivious.throw _
  · exact (oblivious_openPager _).bind fun _ =>
      oblivious_addTable (TableIo.oblivious_create columns)

theorem reports_openPager (path : String) : Exec.Reports (openPager path) := by
  intro state after fault ran
  obtain ⟨stopped, -⟩ := Prod.mk.inj ran
  exact Pager.reports_open path ⟨state.filesAt path, state.schedule⟩ _ _ (Prod.ext stopped rfl)

theorem reports_addTable {pager : Pager} {setUp : Exec TableIo Unit}
    (reports : Exec.Reports setUp) : Exec.Reports (addTable name path pager setUp) := by
  intro state after fault ran
  rcases made : setUp (state.opening path pager) with ⟨stopped | ⟨⟩, table⟩
  · rw [addTable_error made] at ran
    obtain ⟨same, -⟩ := Prod.mk.inj ran
    obtain rfl := Except.error.inj same
    exact reports _ _ _ made
  · unfold addTable at ran
    rw [show setUp ⟨⟨path, pager, [], 0⟩, state.filesAt path, state.schedule⟩ = _ from made] at ran
    cases (Prod.mk.inj ran).1

theorem addTable_returned {pager : Pager} {setUp : Exec TableIo Unit}
    (samePath : Exec.Preserves TableIo.SamePath setUp)
    (ran : addTable name path pager setUp state = (.ok (), after)) :
    ∃ table, setUp (state.opening path pager) = (.ok (), table) ∧ table.store.path = path ∧
      after = state.put name table := by
  rcases made : setUp (state.opening path pager) with ⟨fault | ⟨⟩, table⟩
  · rw [addTable_error made] at ran
    cases (Prod.mk.inj ran).1
  · have path' : table.store.path = path := by
      have kept := samePath (state.opening path pager)
      rw [made] at kept
      exact kept
    rw [addTable_ok made path'] at ran
    exact ⟨table, rfl, path', (Prod.mk.inj ran).2.symm⟩

/-- The table that creation starts from, when I/O succeeds. -/
def creating (state : Storage) (path : String) : TableIo :=
  (state.withFiles path (state.filesAt path).recovered).opening path
    (Pager.fresh (state.filesAt path).recovered.db.length)

theorem creating_io (quiet : state.schedule = []) :
    (state.creating path).io = ⟨Pager.fresh (state.filesAt path).recovered.db.length,
      (state.filesAt path).recovered, []⟩ := by
  unfold creating TableIo.io opening
  rw [filesAt_withFiles]
  exact congrArg (PagerIo.mk _ _) quiet

theorem createTable_aligned (quiet : state.schedule = []) (fresh : state.tableAt name = none)
    (aligned : (state.filesAt (state.fileOf name)).Aligned) :
    createTable name columns state =
      addTable name (state.fileOf name)
        (Pager.fresh (state.filesAt (state.fileOf name)).recovered.db.length) (TableIo.create columns)
        (state.withFiles (state.fileOf name) (state.filesAt (state.fileOf name)).recovered) := by
  have opened := openPager_quiet quiet (state.fileOf name)
  rw [Pager.open_ok (state.fileOf name) aligned] at opened
  rw [createTable_opens fresh, Exec.bind_ok opened]

/-- A creation that succeeds puts in a table under a name that was free. -/
theorem createTable_eq_ok (quiet : state.schedule = [])
    (ran : createTable name columns state = (.ok (), after)) :
    state.tableAt name = none ∧ (state.creating (state.fileOf name)).io.Coherent ∧
      ∃ table, TableIo.create columns (state.creating (state.fileOf name)) = (.ok (), table) ∧
        table.store.path = state.fileOf name ∧
        after = (state.withFiles (state.fileOf name)
          (state.filesAt (state.fileOf name)).recovered).put name table := by
  have fresh : state.tableAt name = none := by
    rw [tableAt_eq_none]
    unfold createTable at ran
    rw [Exec.bind_ok (Exec.run_get state)] at ran
    by_contra there
    rw [if_pos (Option.isSome_iff_ne_none.mpr there)] at ran
    cases (Prod.mk.inj ran).1
  refine ⟨fresh, ?_⟩
  by_cases aligned : (state.filesAt (state.fileOf name)).Aligned
  · rw [createTable_aligned quiet fresh aligned] at ran
    refine ⟨?_, addTable_returned (TableIo.Safe.samePath (TableIo.create_safe columns)) ran⟩
    rw [creating_io quiet]
    exact Pager.fresh_coherent aligned.recovered _
  · have opened := openPager_quiet quiet (state.fileOf name)
    rw [Pager.open_misaligned (state.fileOf name) aligned] at opened
    rw [createTable_opens fresh, Exec.bind_error opened] at ran
    cases (Prod.mk.inj ran).1

/-- What a successful creation means, when I/O succeeds. -/
theorem createTable_returned (quiet : state.schedule = [])
    (ran : createTable name columns state = (.ok (), after)) :
    ∃ start table, TableIo.Created columns start table ∧
      after.tables.lookup name = some table.store ∧
      after.filesAt table.store.path = table.disk := by
  obtain ⟨-, coherent, table, made, path, rfl⟩ := createTable_eq_ok quiet ran
  have still : (state.creating (state.fileOf name)).io.Quiet := quiet
  exact ⟨_, table, TableIo.create_returned coherent still rfl made, tableAt_store tableAt_put_self,
    by rw [filesAt_put, if_pos rfl]⟩

/-- With metadata that fits, whatever happens to the I/O. -/
theorem createsFaithfully_of_fits (fits : MetadataFits columns) (state : Storage) (name : String) :
    CreatesFaithfully state name columns := by
  unfold CreatesFaithfully
  rcases ran : createTable name columns state with ⟨fault | ⟨⟩, after⟩
  · have reports : Exec.Reports (createTable name columns) := by
      apply Exec.Reports.get.bind
      intro state
      split
      · exact Exec.Reports.throw ⟨nofun, nofun⟩
      · exact (reports_openPager _).bind fun _ =>
          reports_addTable (TableIo.reports_create fits.size)
    exact reports _ _ _ ran
  · obtain ⟨start, table, created, found, files⟩ := createTable_returned rfl
      (oblivious_createTable name columns state after () ran)
    refine ⟨table.store, found, created.columns, ?_⟩
    have back := created.readsBack
    rw [created.columns, map_stored_iff.mpr fits.names, ← files] at back
    exact back

/-- The I/O succeeds, the name is not in use, and its file has whole pages and room for
two more. -/
structure ReadyFor (state : Storage) (name : String) : Prop where
  quiet : state.schedule = []
  fresh : state.tableAt name = none
  aligned : (state.filesAt (state.fileOf name)).Aligned
  room : (state.filesAt (state.fileOf name)).recovered.pageCount + 2 ≤ maxPages

theorem ReadyFor.sound (ready : state.ReadyFor name) : (state.creating (state.fileOf name)).io.Sound := by
  have limit : maxPages < 2 ^ 32 := by decide
  have room := ready.room
  rw [creating_io ready.quiet]
  exact
    { coherent := Pager.fresh_coherent ready.aligned.recovered _
      quiet := rfl
      noGap := PagerIo.noGap_of_lengths rfl
      counted := by
        change (state.filesAt (state.fileOf name)).recovered.pageCount < 2 ^ 32
        omega }

theorem ReadyFor.count (ready : state.ReadyFor name) :
    (state.creating (state.fileOf name)).io.count =
      (state.filesAt (state.fileOf name)).recovered.pageCount := by
  rw [creating_io ready.quiet]
  rfl

/-- Only metadata that fits is stored faithfully. -/
theorem fits_of_createsFaithfully (ready : state.ReadyFor name)
    (faithful : CreatesFaithfully state name columns) : MetadataFits columns := by
  have sound := ready.sound
  have room : (state.creating (state.fileOf name)).io.count + 2 ≤ maxPages := by
    rw [ready.count]
    exact ready.room
  have aligned := @createTable_aligned state name columns ready.quiet ready.fresh ready.aligned
  unfold CreatesFaithfully at faithful
  rcases encoded : encodeMetadata ((state.creating (state.fileOf name)).io.count + 1) columns
    ((state.creating (state.fileOf name)).io.view 0) with fault | page
  · obtain ⟨table, panicked⟩ := TableIo.create_panics sound room encoded
    rw [aligned, @addTable_error _ name _ _ _ _ _ panicked] at faithful
    exact absurd rfl faithful.1
  · obtain ⟨leaf, init, -⟩ := BTree.initLeaf_ok Page.zero
    obtain ⟨io, -, made⟩ := TableIo.create_succeeds sound room rfl init encoded
    have ran : createTable name columns state = (.ok (), _) :=
      aligned.trans (@addTable_ok _ name _ _ _ _ made rfl)
    rw [ran] at faithful
    obtain ⟨store, found, -, back, -⟩ := faithful
    obtain ⟨start, other, created, found', files⟩ := createTable_returned ready.quiet ran
    obtain rfl := Option.some.inj (found.symm.trans found')
    have stored := created.readsBack.1
    rw [created.columns, ← files, back] at stored
    have names := (Prod.mk.inj (Except.ok.inj stored)).2
    refine ⟨?_, map_stored_iff.mp names.symm⟩
    rw [← metadataBytes_length]
    exact (encodeMetadata_bytes encoded).1

/-- Creating a table stores its metadata faithfully if the metadata fits, and wherever
its file can be opened and has room, only then. -/
theorem createsFaithfully_iff (state : Storage) (name : String) (columns : List Column) :
    (MetadataFits columns → CreatesFaithfully state name columns) ∧
      (state.ReadyFor name → (CreatesFaithfully state name columns ↔ MetadataFits columns)) :=
  ⟨fun fits => createsFaithfully_of_fits fits state name,
    fun ready => ⟨fits_of_createsFaithfully ready,
      fun fits => createsFaithfully_of_fits fits state name⟩⟩

theorem readyFor_new (host : Host) (name : String) :
    (Storage.new host (fun _ => none) []).ReadyFor name where
  quiet := rfl
  fresh := tableAt_eq_none.mpr (Finmap.lookup_empty name)
  aligned := rfl
  room := by
    rw [show ∀ file, (Storage.new host (fun _ => none) []).filesAt file = ⟨[], []⟩ from fun _ => rfl,
      Disk.recovered_of_empty rfl]
    decide

theorem utf8Bytes_repeated (count : Nat) :
    (utf8Bytes (String.ofList (List.replicate count 'a'))).length = count := by
  have single : (String.utf8EncodeChar 'a').length = 1 := by decide
  unfold utf8Bytes
  rw [String.toList_ofList, List.flatMap_replicate, List.length_flatten, List.map_replicate,
    List.sum_replicate_nat, single, Nat.mul_one]

/-- Names that are longer than 255 bytes are cut. -/
theorem not_fits_longName {count : Nat} (long : 255 < count) :
    ¬ MetadataFits [⟨String.ofList (List.replicate count 'a'), .integer⟩] := by
  intro fits
  rcases fits.names _ List.mem_cons_self with short | ⟨front, same, -⟩
  · rw [utf8Bytes_repeated] at short
    omega
  · have last : '\uFFFD' ∈ List.replicate count 'a' := by
      rw [← @String.toList_ofList (List.replicate count 'a'), same]
      exact List.mem_append_right _ List.mem_cons_self
    exact absurd (List.eq_of_mem_replicate last) (by decide)

/-- Every column takes three bytes at least. -/
theorem not_fits_manyColumns {count : Nat} (many : 1362 < count) :
    ¬ MetadataFits (List.replicate count ⟨"", .integer⟩) := by
  intro fits
  have size := fits.size
  have none : (⟨"", .integer⟩ : Column).storedLength = 0 := by decide
  have start : metaColsOffset = 8 := rfl
  have whole : pageSize = 4096 := rfl
  rw [List.map_replicate, List.sum_replicate_nat, none] at size
  omega

theorem not_createsFaithfully_new {host : Host} (unfit : ¬ MetadataFits columns) :
    ¬ CreatesFaithfully (Storage.new host (fun _ => none) []) name columns :=
  fun faithful => unfit (fits_of_createsFaithfully (readyFor_new host name) faithful)

/-- A name of 256 bytes is stored cut, and with 1363 columns creating the table panics. -/
theorem createTable_unfaithful :
    ¬ CreatesFaithfully (Storage.new (Host.startingWith "t") (fun _ => none) []) "t"
        [⟨String.ofList (List.replicate 256 'a'), .integer⟩] ∧
      ¬ CreatesFaithfully (Storage.new (Host.startingWith "t") (fun _ => none) []) "t"
        (List.replicate 1363 ⟨"", .integer⟩) := by
  constructor
  · apply not_createsFaithfully_new
    apply not_fits_longName
    omega
  · apply not_createsFaithfully_new
    apply not_fits_manyColumns
    omega

end Storage

end MukhiDb.Model
