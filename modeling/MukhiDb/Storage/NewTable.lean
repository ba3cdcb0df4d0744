import MukhiDb.Storage.Creation

/-!
Contract: what a scan of a new table gives.

Owns: a scan that starts at an empty leaf, and one that starts at a blank page 0; tables
without rows; and the fact that creating a table gives one, next to the tables that were
there.

Does not own: which metadata fits.
-/

namespace MukhiDb.Model

open MukhiDb.Foundation

/-! ### Scans -/

namespace BTree

variable {answer : Nat → Except Fault Page}

/-- A scan of blank pages goes round page 0. -/
theorem scanAll_blank (blank : answer 0 = .ok Page.zero) :
    (scanAll 0).evaluate answer = .error .diverge := by
  have round (fuel : Nat) : (descendLeft fuel 0).evaluate answer = .error .diverge := by
    induction fuel with
    | zero => rfl
    | succ fuel inductionHypothesis =>
        exact (Program.evaluate_load blank _).trans inductionHypothesis
  unfold scanAll
  rw [Program.evaluate_bind, round]
  rfl

/-- A scan of an empty leaf gives no rows. -/
theorem scanAll_emptyLeaf {root : Nat} {leaf : Page} (found : answer root = .ok leaf)
    (empty : LeafAt leaf [] 0) : (scanAll root).evaluate answer = .ok [] := by
  have first : (descendLeft (maxPages + 1) root).evaluate answer = .ok root := by
    refine (Program.evaluate_load found _).trans ?_
    change Program.evaluate answer (if leaf.byte 0 = nodeTypeLeaf then pure root else _) = _
    rw [if_pos empty.kind]
    rfl
  unfold scanAll
  rw [Program.evaluate_bind, first]
  refine (Program.evaluate_load found _).trans ?_
  change ((do
    let n ← liftM (leafNumCells leaf)
    let rows ← liftM (collectFrom (leafCellRow leaf) n 0)
    let next ← liftM (leafNextLeaf leaf)
    if next = 0 then pure rows
    else
      let rest ← scanChain maxPages next
      pure (rows ++ rest) : PageProgram (List Bytes))).evaluate answer = _
  rw [leafNumCells_ok empty, leafNextLeaf_ok empty]
  rfl

end BTree

/-! ### Tables without rows -/

namespace TableIo

/-- The root page of the table is an empty leaf. -/
structure Empty (columns : List Column) (table : TableIo) : Prop where
  quiet : table.io.Quiet
  columns : table.store.columns = columns
  root : ∃ leaf, table.io.reads table.store.rootPage = .ok leaf ∧ BTree.LeafAt leaf [] 0

variable {columns : List Column} {table start : TableIo}

/-- A scan of a table without rows leaves it so. -/
theorem Empty.selectAll (empty : Empty columns table) :
    ∃ after, TableIo.selectAll table = (.ok (columns.map Column.name, []), after) ∧
      Empty columns after := by
  obtain ⟨leaf, found, leafAt⟩ := empty.root
  have scanned := PagerIo.run_readOnly (BTree.readOnly_scanAll table.store.rootPage) empty.quiet
  have filled := PagerIo.perform_filled (BTree.readOnly_scanAll table.store.rootPage) table.io
  have ran : onPages (BTree.scanAll table.store.rootPage) table =
      (.ok [], table.withIo (Pager.perform (BTree.scanAll table.store.rootPage) table.io).2) :=
    Prod.ext (scanned.1.trans (BTree.scanAll_emptyLeaf found leafAt)) rfl
  refine ⟨table.withIo (Pager.perform (BTree.scanAll table.store.rootPage) table.io).2, ?_,
    scanned.2, empty.columns, leaf, ?_, leafAt⟩
  · unfold TableIo.selectAll
    rw [Exec.bind_ok (Exec.run_get table), Exec.bind_ok ran, ← empty.columns]
    rfl
  · exact (congrFun filled.reads _).trans found

/-- A table that was just created has no rows. -/
theorem create_empty (sound : start.io.Sound) (room : start.io.count + 2 ≤ maxPages)
    (idle : start.store.pager.inTransaction = false)
    (fits : (metadataBytes (start.io.count + 1) columns).length ≤ pageSize) :
    ∃ table, create columns start = (.ok (), table) ∧ table.store.path = start.store.path ∧
      Empty columns table := by
  obtain ⟨leaf, init, leafAt⟩ := BTree.initLeaf_leafAt Page.zero
  obtain ⟨page, encoded⟩ : ∃ page,
      encodeMetadata (start.io.count + 1) columns (start.io.view 0) = .ok page :=
    encodeMetadata_ok fits
  obtain ⟨io, shows, made⟩ := create_succeeds sound room idle init encoded
  refine ⟨_, made, rfl, shows.sound.quiet, rfl, leaf, ?_, leafAt⟩
  have coherent := shows.sound.coherent
  have reads := @settled_reads (start.withIo io.committed) coherent.committed_coherent
    coherent.consistent.dirtyAfter_all
  refine (congrFun reads _).trans ?_
  have limit : ¬ maxPages ≤ start.io.count + 1 := by omega
  have stored : (start.withIo io.committed).disk.page (start.io.count + 1) = leaf := by
    change io.committed.disk.page (start.io.count + 1) = leaf
    have length := PagerIo.book_length start.io
    rw [coherent.consistent.committed_page, shows.view, Binding.at_, List.getD_eq_getElem?_getD,
      List.getElem?_set_ne (by omega), List.getElem?_append_right (by simp [length])]
    simp [length]
  unfold PagerIo.answers
  rw [if_neg limit, stored]

end TableIo

/-! ### New tables in a storage -/

namespace Storage

variable {state : Storage} {name other : String} {columns : List Column} {table : TableIo}

/-- Creating a table where its file has room for it. -/
theorem createTable_empty (ready : state.ReadyFor name)
    (fits : (metadataBytes 0 columns).length ≤ pageSize) :
    ∃ table, createTable name columns state =
        (.ok (), (state.withFiles (state.fileOf name)
          (state.filesAt (state.fileOf name)).recovered).put name table) ∧
      table.store.path = state.fileOf name ∧ table.Empty columns := by
  have room : (state.creating (state.fileOf name)).io.count + 2 ≤ maxPages := by
    rw [ready.count]
    exact ready.room
  obtain ⟨table, made, path, empty⟩ := TableIo.create_empty ready.sound room rfl
    (by rw [metadataBytes_length] at fits ⊢; exact fits)
  exact ⟨table, (createTable_aligned ready.quiet ready.fresh ready.aligned).trans
    (addTable_ok made path), path, empty⟩

/-- A scan of a table without rows. -/
theorem selectAll_empty (found : state.tableAt name = some table) (empty : table.Empty columns) :
    ∃ after, selectAll name state = (.ok (columns.map Column.name, []), state.put name after) ∧
      after.Empty columns ∧ after.store.path = table.store.path := by
  obtain ⟨after, ran, emptyAfter⟩ := empty.selectAll
  have samePath := TableIo.Safe.samePath TableIo.selectAll_safe table
  rw [ran] at samePath
  refine ⟨after, ?_, emptyAfter, samePath⟩
  unfold selectAll
  rw [onTable_found found (TableIo.Safe.samePath TableIo.selectAll_safe), ran]

/-- The scans of two tables without rows, one after the other. -/
theorem selectAll_twoEmpty {first second : TableIo} {firstColumns secondColumns : List Column}
    (different : name ≠ other) (firstFound : state.tableAt name = some first)
    (secondFound : state.tableAt other = some second)
    (apart : second.store.path ≠ first.store.path) (firstEmpty : first.Empty firstColumns)
    (secondEmpty : second.Empty secondColumns) :
    ∃ middle after, selectAll name state = (.ok (firstColumns.map Column.name, []), middle) ∧
      selectAll other middle = (.ok (secondColumns.map Column.name, []), after) := by
  obtain ⟨scanned, ran, empty, path⟩ := selectAll_empty firstFound firstEmpty
  have quiet : scanned.schedule = state.schedule :=
    empty.quiet.trans ((tableAt_schedule secondFound).symm.trans secondEmpty.quiet).symm
  have found : (state.put name scanned).tableAt other = some second := by
    rw [tableAt_put_other different.symm ?_ quiet, secondFound]
    intro there opened
    rw [secondFound] at opened
    obtain rfl := Option.some.inj opened
    rw [path]
    exact apart
  obtain ⟨last, ran', -⟩ := selectAll_empty found secondEmpty
  exact ⟨_, _, ran, ran'⟩

/-- The storage over an empty directory after two tables were created. -/
def twoTables (first second : String) (firstColumns secondColumns : List Column) : Storage :=
  ((createTable first firstColumns >>= fun _ => createTable second secondColumns)
    (Storage.new (Host.startingWith first) (fun _ => none) [])).2

section TwoTables

variable {first second : String} {firstColumns secondColumns : List Column}
  (apart : Host.inDirectory (pathOf second) ≠ Host.inDirectory (pathOf first))
  (firstFits : (metadataBytes 0 firstColumns).length ≤ pageSize)
  (secondFits : (metadataBytes 0 secondColumns).length ≤ pageSize)

include apart firstFits secondFits

theorem twoTables_tables :
    ∃ firstTable secondTable, (twoTables first second firstColumns secondColumns).schedule = [] ∧
      (twoTables first second firstColumns secondColumns).tableAt first = some firstTable ∧
      (twoTables first second firstColumns secondColumns).tableAt second = some secondTable ∧
      firstTable.Empty firstColumns ∧ secondTable.Empty secondColumns ∧
      secondTable.store.path ≠ firstTable.store.path := by
  have different : first ≠ second := fun same => apart (by rw [same])
  obtain ⟨firstTable, ran, path, empty⟩ :=
    createTable_empty (readyFor_new (Host.startingWith first) first) firstFits
  generalize opened : ((Storage.new (Host.startingWith first) (fun _ => none) []).withFiles
    _ _).put first firstTable = middle at ran
  have found : middle.tableAt first = some firstTable := by
    rw [← opened]
    exact tableAt_put_self
  have others (name : String) (other : name ≠ first) : middle.tableAt name = none := by
    rw [← opened]
    exact tableAt_eq_none.mpr ((Finmap.lookup_insert_of_ne _ other).trans (Finmap.lookup_empty _))
  have file : middle.fileOf second = Host.inDirectory (pathOf second) := by
    rw [← opened]
    rfl
  rw [show (Storage.new (Host.startingWith first) (fun _ => none) []).fileOf first =
    Host.inDirectory (pathOf first) from rfl] at path
  have apart : middle.fileOf second ≠ Host.inDirectory (pathOf first) := file ▸ apart
  have files : middle.filesAt (middle.fileOf second) = ⟨[], []⟩ := by
    rw [file, ← opened, filesAt_put, if_neg (by rw [path, ← file]; exact apart)]
    unfold filesAt withFiles
    dsimp only
    rw [Function.update_of_ne (by rw [← file]; exact apart)]
    rfl
  have quiet : middle.schedule = [] := by
    rw [← opened]
    exact empty.quiet
  have ready : middle.ReadyFor second :=
    { quiet
      fresh := others second different.symm
      aligned := by
        rw [files]
        rfl
      room := by
        rw [files, Disk.recovered_of_empty rfl]
        decide }
  obtain ⟨secondTable, ran', path', empty'⟩ := createTable_empty ready secondFits
  have whole : twoTables first second firstColumns secondColumns =
      (middle.withFiles (middle.fileOf second)
        (middle.filesAt (middle.fileOf second)).recovered).put second secondTable := by
    unfold twoTables
    rw [Exec.bind_ok ran, ran']
  have closed : middle.Closed (middle.fileOf second) := by
    intro name there present
    by_cases same : name = first
    · rw [same, found] at present
      obtain rfl := Option.some.inj present
      rw [path]
      exact apart.symm
    · rw [others name same] at present
      cases present
  have still := @tableAt_withFiles middle (middle.fileOf second) closed
    (middle.filesAt (middle.fileOf second)).recovered
  rw [whole]
  refine ⟨firstTable, secondTable, empty'.quiet, ?_, tableAt_put_self, empty, empty', by
    rw [path, path']
    exact apart⟩
  refine (@tableAt_put_other (middle.withFiles (middle.fileOf second)
    (middle.filesAt (middle.fileOf second)).recovered) second first secondTable different ?_
    (empty'.quiet.trans quiet.symm)).trans ?_
  · intro there present
    rw [still] at present
    rw [path']
    exact closed first there present
  · rw [still, found]

theorem twoTables_scans :
    ∃ middle after, selectAll first (twoTables first second firstColumns secondColumns) =
        (.ok (firstColumns.map Column.name, []), middle) ∧
      selectAll second middle = (.ok (secondColumns.map Column.name, []), after) := by
  obtain ⟨firstTable, secondTable, -, found, found', empty, empty', distinct⟩ :=
    twoTables_tables apart firstFits secondFits
  exact selectAll_twoEmpty (fun same => apart (by rw [same])) found found' distinct
    empty empty'

end TwoTables

end Storage

end MukhiDb.Model
