import MukhiDb.BTree.Dump
import MukhiDb.Pager.Stopped
import MukhiDb.Storage.Contents
import MukhiDb.Storage.Standing

/-!
Contract: one table as the database sees it.

Owns: when the pager and the file of a table show the rows that the database says they hold;
and that each call on the table answers as the database may answer and shows what it may
leave.

Does not own: storages with several tables, and I/O calls that fail.
-/

namespace MukhiDb.Model

open MukhiDb.Foundation
open BTree (Tree)

namespace TableIo

/-- The pager works on a tree of the rows that statements see, and the file holds a tree of the
rows that are saved. -/
structure Views (sizes : Nat → Prop) (view : TableView) (table : TableIo) : Prop where
  state : table.store.pager.inTransaction = view.inTransaction
  log : IdleLog table.disk.log
  trees : ∃ live saved : Tree,
    Trees (fun row => sizes row.length) view.columns live saved table ∧
      Stores view.columns live table.io.count view.live ∧
      Stores view.columns saved table.disk.pageCount view.saved

section Views

variable {sizes : Nat → Prop} {view : TableView} {table : TableIo} {values : List Value}

theorem Views.quiet (views : Views sizes view table) : table.io.Quiet := by
  obtain ⟨live, saved, trees, -⟩ := views.trees
  exact trees.quiet

theorem Views.columns (views : Views sizes view table) : table.store.columns = view.columns := by
  obtain ⟨live, saved, trees, -⟩ := views.trees
  exact trees.schema

/-! ### Reading -/

/-- Loading pages shows the same rows. -/
theorem Views.readOnly (views : Views sizes view table) {α : Type} {program : PageProgram α}
    (readOnly : program.ReadOnly) : Views sizes view (onPages program table).2 := by
  obtain ⟨live, saved, trees, stores, kept⟩ := views.trees
  have shows := PagerIo.shows_readOnly readOnly (PagerIo.shows_book trees.sound)
  have count : (onPages program table).2.io.count = table.io.count :=
    shows.count.trans (PagerIo.book_length table.io)
  have disk : (onPages program table).2.disk = table.disk := shows.frame.disk
  refine ⟨shows.frame.inTransaction.trans views.state, ?_, live, saved, trees.readOnly readOnly, ?_, ?_⟩
  · rw [disk]
    exact views.log
  · rwa [count]
  · rwa [disk]

/-- What a program gives that only loads, when the working pages give it. -/
theorem Views.loads (views : Views sizes view table) {α : Type} {program : PageProgram α} {value : α}
    (readOnly : program.ReadOnly)
    (gives : program.run binding.store table.io.book = (.ok value, table.io.book)) :
    ∃ after, onPages program table = (.ok value, after) ∧ Views sizes view after := by
  obtain ⟨live, saved, trees, -⟩ := views.trees
  obtain ⟨io, performed, -⟩ := PagerIo.perform_shows (PagerIo.shows_book trees.sound) gives (by simp)
  have ran : onPages program table = (.ok value, table.withIo io) := by
    unfold onPages
    rw [run_onPager, performed]
  have same := views.readOnly readOnly
  rw [ran] at same
  exact ⟨_, ran, same⟩

/-- A scan returns the rows. -/
theorem Views.selectAll (views : Views sizes view table) :
    ∃ rows after, TableIo.selectAll table = (.ok (view.columns.map Column.name, rows), after) ∧
      view.InOrder rows ∧ Views sizes view after := by
  obtain ⟨live, saved, trees, stores, -⟩ := views.trees
  obtain ⟨rows, decoded, order⟩ := stores.scanned rfl rfl
  obtain ⟨after, ran, same⟩ := views.loads (BTree.readOnly_scanAll live.root)
    (BTree.scanAll_ok trees.working.held)
  refine ⟨rows, after, ?_, order, same⟩
  unfold TableIo.selectAll
  rw [Exec.bind_ok (Exec.run_get table), trees.root, Exec.bind_ok ran, trees.schema, decoded]
  rfl

/-- A dump prints the tree. -/
theorem Views.dumpBtree (views : Views sizes view table) :
    ∃ text after, TableIo.dumpBtree table = (.ok text, after) ∧ Views sizes view after := by
  obtain ⟨live, saved, trees, -⟩ := views.trees
  obtain ⟨after, ran, same⟩ := views.loads (BTree.readOnly_dumpTree _ _ _)
    (BTree.dumpTree_ok trees.working.held)
  refine ⟨BTree.joinLines (BTree.treeLines live), after, ?_, same⟩
  unfold TableIo.dumpBtree
  rw [Exec.bind_ok (Exec.run_get table), trees.root]
  exact ran

/-! ### Transactions -/

theorem Views.begin (views : Views sizes view table) (idle : view.inTransaction = false) :
    ∃ after, TableIo.begin table = (.ok (), after) ∧ Views sizes view.begin after := by
  obtain ⟨live, saved, trees, stores, kept⟩ := views.trees
  have ran := @PagerIo.begin_ok table.io (views.state.trans idle)
  have next := trees.begin
  unfold TableIo.begin at next ⊢
  rw [run_onPager, ran] at next ⊢
  exact ⟨_, rfl, rfl, views.log, live, saved, next, stores, kept⟩

/-- A table in a transaction stays as it is. -/
theorem Views.busy (views : Views sizes view table) (busy : view.inTransaction = true) :
    TableIo.begin table = (.error (.error "Already in a transaction."), table) := by
  unfold TableIo.begin
  rw [run_onPager, @PagerIo.begin_busy table.io (views.state.trans busy)]
  rfl

/-- A commit puts the rows in the file. -/
theorem Views.commit (views : Views sizes view table) :
    ∃ after, TableIo.commit table = (.ok (), after) ∧ Views sizes view.commit after := by
  obtain ⟨live, saved, trees, stores, -⟩ := views.trees
  obtain ⟨ran, next⟩ := trees.commit_ok
  refine ⟨_, ran, rfl, idleLog_nil, live, live, next, stores, ?_⟩
  have pages : (table.withIo table.io.committed).disk.pageCount = table.io.count :=
    trees.sound.coherent.committed_pageCount
  rw [pages]
  exact stores

/-- A rollback goes back to the rows in the file. -/
theorem Views.rollback (views : Views sizes view table) :
    ∃ after, TableIo.rollback table = (.ok (), after) ∧ Views sizes view.rollback after := by
  obtain ⟨live, saved, trees, -, kept⟩ := views.trees
  obtain ⟨after, ran, next, ⟨idle, -⟩, count, disk⟩ := trees.rollback_runs
  refine ⟨after, ran, idle, ?_, saved, saved, next, ?_, ?_⟩
  · rw [disk]
    exact idleLog_nil
  · rwa [count]
  · rw [disk]
    exact kept

/-! ### Inserting -/

/-- Values that are no row of the table change nothing. -/
theorem Views.refused (views : Views sizes view table)
    (unfit : ¬ TableView.Admits view.columns values) :
    ∃ message, TableIo.encodeRow view.columns values = .error (.error message) ∧
      TableIo.insert values table = (.error (.error message), table) := by
  obtain ⟨message, refused⟩ := encodeRow_refused unfit
  refine ⟨message, refused, ?_⟩
  unfold TableIo.insert
  rw [Exec.bind_ok (Exec.run_get table), views.columns, refused]
  rfl

/-- Leaves of rows of steady sizes split into parts that fit. -/
theorem Trees.splitsFit_steady {columns : List Column} {live saved : Tree}
    (trees : Trees (fun row => sizes row.length) columns live saved table)
    (steady : BTree.Steady sizes) {key : Int64} {buf : Bytes} (sized : sizes buf.length)
    (short : buf.length ≤ BTree.maxRowDataSize) : SplitsFit live key buf := by
  have linked := trees.working.held.linked
  refine BTree.splitFits_steady steady (trees.working.fits _ (BTree.target_held linked key)) ?_ short
  intro cell member
  rcases List.mem_cons.mp member with rfl | inside
  · exact sized
  · exact trees.working.rows cell (BTree.target_subset linked key cell inside)

/-- A row is inserted, or there are no more pages and many rows. -/
theorem Views.insert (views : Views sizes view table) (steady : BTree.Steady sizes)
    (admits : TableView.Admits view.columns values) (sized : sizes (rowBytes values).length) :
    ∃ result after, TableIo.insert values table = (result, after) ∧
      ((result = .ok () ∧ Views sizes (view.insert ⟨values⟩) after) ∨
        (result = .error (.error (Pager.pageLimitMessage maxPages)) ∧
          assuredRows ≤ view.live.rows.card ∧ ∃ left, (left = view ∨ left = view.addStopped ⟨values⟩) ∧
            Views sizes left after)) := by
  obtain ⟨live, saved, trees, stores, kept⟩ := views.trees
  have accepted := admits_iff.mp admits
  have linked := trees.working.held.linked
  rw [PagerIo.book_length] at linked
  rcases grows : live.insert BTree.layout table.io.count (cellOf view.columns ⟨values⟩).1
    (cellOf view.columns ⟨values⟩).2 with ⟨tree, pages, complete⟩
  obtain ⟨after, ran, next, count, state, wrote⟩ := trees.insertRow_runs accepted.short sized
    (trees.splitsFit_steady steady sized accepted.short) grows
  have started : TableIo.insert values table =
      insertRow (cellOf view.columns ⟨values⟩).1 (cellOf view.columns ⟨values⟩).2 table := by
    unfold TableIo.insert
    rw [Exec.bind_ok (Exec.run_get table), views.columns, encodeRow_admits admits]
    rfl
  have same := state.trans views.state
  refine ⟨_, after, started.trans ran, ?_⟩
  dsimp only at next count wrote
  rcases @Stores.insert _ _ _ _ stores linked ⟨values⟩ accepted _ grows with
    ⟨finished, grown⟩ | ⟨stopped, many, left⟩
  · obtain rfl : complete = true := finished
    refine Or.inl ⟨rfl, ?_⟩
    simp only [Bool.true_eq_false, or_false, views.state] at next wrote
    unfold TableView.insert
    unfold Wrote at wrote
    by_cases open_ : view.inTransaction = true
    · rw [if_pos open_] at next wrote ⊢
      refine ⟨same, ?_, tree, saved, next, ?_, ?_⟩
      · rw [wrote]
        exact views.log
      · rw [count]
        exact grown
      · rw [wrote]
        exact kept
    · rw [if_neg open_] at next wrote ⊢
      refine ⟨same, ?_, tree, tree, next, ?_, ?_⟩
      · rw [wrote.1]
        exact idleLog_nil
      · rw [count]
        exact grown
      · rw [wrote.2, count]
        exact grown
  · obtain rfl : complete = false := stopped
    rw [if_pos (Or.inr rfl)] at next
    rw [Wrote, if_pos (Or.inr rfl)] at wrote
    have log : IdleLog after.disk.log := by
      rw [wrote]
      exact views.log
    have kept' : Stores view.columns saved after.disk.pageCount view.saved := by
      rw [wrote]
      exact kept
    refine Or.inr ⟨rfl, many, ?_⟩
    rcases left with unchanged | added
    · obtain ⟨rfl, rfl⟩ : tree = live ∧ pages = table.io.count := by simpa using unchanged
      refine ⟨view, Or.inl rfl, same, log, tree, saved, next, ?_, kept'⟩
      rw [count]
      exact stores
    · refine ⟨_, Or.inr rfl, same, log, tree, saved, next, ?_, kept'⟩
      rw [count]
      exact added

/-! ### Creating -/

/-- A table that was created in an empty file has no rows. -/
theorem views_create {columns : List Column} {start : TableIo} (sound : start.io.Sound)
    (empty : start.io.count = 0) (idle : start.store.pager.inTransaction = false)
    (small : MetadataFits columns) :
    ∃ after, create columns start = (.ok (), after) ∧ after.store.path = start.store.path ∧
      after.disk.log = [] ∧ Views sizes (.fresh columns) after := by
  obtain ⟨after, ran, path, state, trees, count, log, pages⟩ :=
    @trees_create (fun row => sizes row.length) columns start sound empty idle small
  refine ⟨after, ran, path, log, state, ?_, _, _, trees, ?_, ?_⟩
  · rw [log]
    exact idleLog_nil
  · rw [count]
    exact stores_fresh columns
  · rw [pages]
    exact stores_fresh columns

end Views

end TableIo

end MukhiDb.Model
