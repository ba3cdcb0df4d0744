import MukhiDb.BTree.Pointers
import MukhiDb.BTree.Runs
import MukhiDb.Storage.Creation
import MukhiDb.Storage.RowBytes

/-!
Contract: the two trees of a table, the one it works on and the one in its file.

Owns: pages that hold a table, with its metadata on page 0 and its tree on the others; and
what creating a table, inserting a row, begin, commit and rollback do to the two trees,
also when the page limit stops an insertion half way.

Does not own: storages, and leaves that overflow when they are split.
-/

namespace MukhiDb.Model

open MukhiDb.Foundation
open BTree (Tree Held LeavesFit SplitFits)

/-- The pages of a file, as a book. -/
def Disk.book (disk : Disk) : List Page := (List.range disk.pageCount).map disk.page

/-! ### Books of files -/

/-- The pages of a file, one by one. -/
theorem Disk.at_book {disk : Disk} {index : Nat} (inside : index < disk.book.length) :
    binding.at_ disk.book index = disk.page index := by
  apply Binding.at_of_getElem?
  unfold Disk.book at inside ⊢
  rw [List.length_map, List.length_range] at inside
  rw [List.getElem?_map, List.getElem?_range inside]
  rfl

namespace PagerIo

variable {base state after : PagerIo} {book : List Page}

theorem Sound.committed_sound (sound : state.Sound) : state.committed.Sound where
  coherent := sound.coherent.committed_coherent
  quiet := sound.quiet
  noGap := noGap_of_lengths sound.coherent.committed_fileLength.symm
  counted := sound.counted

theorem committed_book (sound : state.Sound) : state.committed.book = state.book := by
  unfold PagerIo.book
  rw [committed_count, sound.coherent.consistent.committed_view]

/-- A commit puts the working pages in the file. -/
theorem committed_disk_book (sound : state.Sound) : state.committed.disk.book = state.book := by
  unfold PagerIo.book Disk.book
  rw [sound.coherent.committed_pageCount, sound.coherent.consistent.committed_page]

theorem Sound.rolledBack_sound (sound : state.Sound) : state.rolledBack.Sound where
  coherent := sound.coherent.consistent.rolledBack_coherent
  quiet := sound.quiet
  noGap := noGap_of_lengths rfl
  counted := Nat.lt_of_le_of_lt sound.coherent.pageCount_le sound.counted

/-- A rollback goes back to the pages of the file. -/
theorem rolledBack_book (sound : state.Sound) : state.rolledBack.book = state.disk.book := by
  unfold PagerIo.book Disk.book
  rw [rolledBack_count, sound.coherent.consistent.rolledBack_view]

/-- A program that only loads shows the same book afterwards. -/
theorem shows_readOnly {α : Type} {program : PageProgram α} (readOnly : program.ReadOnly)
    (shows : Shows base state book) : Shows base (Pager.perform program state).2 book := by
  induction readOnly generalizing state with
  | result value => exact shows
  | @load index next _ inductionHypothesis =>
      change Shows base ((Pager.getPage index >>= fun page => Pager.perform (next page)) state).2 book
      by_cases below : index < maxPages
      · obtain ⟨after, loaded, reached⟩ := getPage_sound shows.sound below
        rw [Exec.bind_ok loaded]
        apply inductionHypothesis
        rw [shows.view, shows.count] at reached
        exact Reached.trans shows reached
      · rw [Exec.bind_error (show Pager.getPage index state = _ from
          loadPage_limit state (Nat.le_of_not_lt below))]
        exact shows

end PagerIo

/-! ### Pages that hold a table -/

/-- Pages hold a table: page 0 gives its metadata, and the others hold a tree that fits in them
and whose rows are as required. -/
structure Holds (rows : Bytes → Prop) (columns : List Column) (book : List Page) (tree : Tree) :
    Prop where
  held : Held 1 book tree
  fits : LeavesFit tree
  rows : ∀ cell ∈ tree.rows, rows cell.2
  metadata : decodeMetadata (binding.at_ book 0) = .ok (tree.root, columns)

section Holds

variable {rows : Bytes → Prop} {columns : List Column} {book : List Page} {tree : Tree}

theorem zero_outside (held : Held 1 book tree) : 0 ∉ tree.pages :=
  fun member => absurd (held.linked.within 0 member).1 (by decide)

theorem zero_inside (held : Held 1 book tree) : 0 < book.length :=
  Nat.zero_lt_of_lt (held.linked.within _ (BTree.root_mem held.linked)).2

theorem root_small (held : Held 1 book tree) : tree.root < 2 ^ 32 :=
  Nat.lt_trans (held.inside (BTree.root_mem held.linked)).2 (by decide)

theorem run_readMetadata_book (holds : Holds rows columns book tree) :
    readMetadata.run binding.store book = (.ok (tree.root, columns), book) := by
  unfold readMetadata
  rw [Program.run_bind_ok (BTree.run_getPage (by decide))]
  exact congrArg (·, book) holds.metadata

/-- Writing the metadata of a table whose tree the pages hold. -/
theorem writeMetadata_holds (held : Held 1 book tree) (fits : LeavesFit tree)
    (known : ∀ cell ∈ tree.rows, rows cell.2) (small : MetadataFits columns) :
    ∃ page, (writeMetadata tree.root columns).run binding.store book = (.ok (), book.set 0 page) ∧
      Holds rows columns (book.set 0 page) tree := by
  have inside := zero_inside held
  obtain ⟨page, encoded⟩ : ∃ page, encodeMetadata tree.root columns (binding.at_ book 0) = .ok page :=
    encodeMetadata_ok (by rw [metadataBytes_length]; exact small.size)
  refine ⟨page, BTree.run_modifyPage held.small inside encoded,
    held.set (zero_outside held) page, fits, known, ?_⟩
  have decoded := decodeMetadata_encoded encoded
  rw [Nat.mod_eq_of_lt (root_small held), map_stored_iff.mpr small.names] at decoded
  rwa [binding.at_of_getElem? (List.getElem?_set_self inside)]

end Holds

/-! ### Tables -/

namespace TableIo

/-- The pager works on pages that hold one tree, and the file holds another one. -/
structure Trees (rows : Bytes → Prop) (columns : List Column) (live saved : Tree) (table : TableIo) :
    Prop where
  sound : table.io.Sound
  schema : table.store.columns = columns
  small : MetadataFits columns
  working : Holds rows columns table.io.book live
  root : table.store.rootPage = live.root
  stored : Holds rows columns table.disk.book saved

section Trees

variable {rows : Bytes → Prop} {columns : List Column} {live saved : Tree} {table : TableIo}

theorem Trees.quiet (trees : Trees rows columns live saved table) : table.io.Quiet :=
  trees.sound.quiet

/-- The pager was worked on without touching the file. -/
theorem Trees.worked (trees : Trees rows columns live saved table) {io : PagerIo} {book : List Page}
    {tree : Tree} (shows : PagerIo.Shows table.io io book) (holds : Holds rows columns book tree) :
    Trees rows columns tree saved ((table.withIo io).withRoot tree.root) where
  sound := shows.sound
  schema := trees.schema
  small := trees.small
  working := by
    rw [io_withRoot, io_withIo, shows.book]
    exact holds
  root := rfl
  stored := by
    have disk : io.disk = table.disk := shows.frame.disk
    change Holds rows columns io.disk.book saved
    rw [disk]
    exact trees.stored

/-- Loading pages changes neither tree. -/
theorem Trees.readOnly (trees : Trees rows columns live saved table) {α : Type}
    {program : PageProgram α} (readOnly : program.ReadOnly) :
    Trees rows columns live saved (onPages program table).2 := by
  have shows := PagerIo.shows_readOnly readOnly (PagerIo.shows_book trees.sound)
  have same := trees.worked shows trees.working
  rw [← trees.root] at same
  exact same

/-! ### Ending a transaction -/

theorem Trees.commit_ok (trees : Trees rows columns live saved table) :
    onPager Pager.commit table = (.ok (), table.withIo table.io.committed) ∧
      Trees rows columns live live (table.withIo table.io.committed) := by
  constructor
  · rw [run_onPager, PagerIo.commit_ok trees.quiet]
  · exact
      { sound := trees.sound.committed_sound
        schema := trees.schema
        small := trees.small
        working := by
          rw [io_withIo, PagerIo.committed_book trees.sound]
          exact trees.working
        root := trees.root
        stored := by
          have disk := PagerIo.committed_disk_book trees.sound
          change Holds rows columns table.io.committed.disk.book live
          rw [disk]
          exact trees.working }

/-- A rollback goes back to the tree in the file and empties the log. -/
theorem Trees.rollback_runs (trees : Trees rows columns live saved table) :
    ∃ after, rollback table = (.ok (), after) ∧ Trees rows columns saved saved after ∧
      (after.store.pager.inTransaction = false ∧ after.io.Settled) ∧
      after.io.count = table.disk.pageCount ∧ after.disk = ⟨table.disk.db, []⟩ := by
  have back := trees.sound.rolledBack_sound
  have book : table.io.rolledBack.book = table.disk.book := PagerIo.rolledBack_book trees.sound
  have holds := trees.stored
  rw [← book] at holds
  obtain ⟨io, performed, shows⟩ :=
    PagerIo.perform_shows (PagerIo.shows_book back) (run_readMetadata_book holds) (by simp)
  have first : onPager Pager.rollback table = (.ok (), table.withIo table.io.rolledBack) := by
    rw [run_onPager, PagerIo.rollback_ok trees.quiet]
  have second : onPages readMetadata (table.withIo table.io.rolledBack) =
      (.ok (saved.root, columns), table.withIo io) := by
    unfold onPages
    rw [run_onPager, io_withIo, performed]
    rfl
  have filled := PagerIo.perform_filled readOnly_readMetadata table.io.rolledBack
  rw [performed] at filled
  refine ⟨(table.withIo io).withRoot saved.root, ?_, ?_,
    ⟨shows.frame.inTransaction, fun index => congrFun filled.dirty index⟩, ?_, shows.frame.disk⟩
  · unfold rollback
    rw [Exec.bind_ok first, Exec.bind_ok second]
    rfl
  · -- the log was emptied, the pages of the file are what they were
    have disk : io.disk.book = table.io.rolledBack.disk.book := congrArg Disk.book shows.frame.disk
    have same : table.io.rolledBack.disk.book = table.disk.book := rfl
    exact
      { sound := shows.sound
        schema := trees.schema
        small := trees.small
        working := by
          rw [io_withRoot, io_withIo, shows.book]
          exact holds
        root := rfl
        stored := by
          change Holds rows columns io.disk.book saved
          rw [disk, same]
          exact trees.stored }
  · rw [io_withRoot, io_withIo, shows.count, PagerIo.book_length]
    rfl

theorem Trees.rollback_ok (trees : Trees rows columns live saved table) :
    ∃ after, rollback table = (.ok (), after) ∧ Trees rows columns saved saved after ∧
      after.store.pager.inTransaction = false ∧ after.io.Settled := by
  obtain ⟨after, ran, back, idle, -⟩ := trees.rollback_runs
  exact ⟨after, ran, back, idle⟩

theorem Trees.begin (trees : Trees rows columns live saved table) :
    Trees rows columns live saved (TableIo.begin table).2 := by
  unfold TableIo.begin
  rw [run_onPager]
  rcases busy : table.store.pager.inTransaction with _ | _
  · rw [@PagerIo.begin_ok table.io busy]
    exact { trees with sound := { trees.sound with coherent := { trees.sound.coherent with } } }
  · rw [@PagerIo.begin_busy table.io busy]
    exact trees

/-! ### Inserting a row -/

theorem run_flushOutside (table : TableIo) :
    flushOutside table = if table.store.pager.inTransaction then (.ok (), table)
      else onPager Pager.commit table := by
  unfold flushOutside
  rw [Exec.bind_ok (Exec.run_get table)]
  split <;> rfl

/-- What a call did to the files of a table: it left them alone, or it put the working pages in
them and emptied the log. -/
def Wrote (kept : Prop) [Decidable kept] (before after : TableIo) : Prop :=
  if kept then after.disk = before.disk
  else after.disk.log = [] ∧ after.disk.pageCount = after.io.count

/-- Outside of a transaction the working tree is put in the file. -/
theorem Trees.flushOutside (trees : Trees rows columns live saved table) :
    ∃ after, TableIo.flushOutside table = (.ok (), after) ∧
      Trees rows columns live (if table.store.pager.inTransaction then saved else live) after ∧
      after.io.count = table.io.count ∧
      after.store.pager.inTransaction = table.store.pager.inTransaction ∧
      Wrote (table.store.pager.inTransaction = true) table after := by
  rw [run_flushOutside]
  unfold Wrote
  split
  · exact ⟨table, rfl, trees, rfl, rfl, rfl⟩
  · next outside =>
      obtain ⟨ran, ended⟩ := trees.commit_ok
      exact ⟨_, ran, ended, rfl, (Bool.eq_false_iff.mpr outside).symm, rfl,
        trees.sound.coherent.committed_pageCount⟩

/-- The rows of a leaf that a full leaf is split into. -/
def SplitsFit (tree : Tree) (key : Int64) (buf : Bytes) : Prop :=
  BTree.layout.room (tree.target key) (key, buf) = false →
    SplitFits (place (tree.target key) key buf)

/-- What an insertion of a row in a table returns. -/
def inserted (grown : BPlusTree.Grown Int64 Bytes) : Except Fault Unit :=
  if grown.complete then .ok () else .error (.error (Pager.pageLimitMessage maxPages))

/-- The part of an insertion in front of the flush. -/
def insertPages (key : Int64) (buf : Bytes) : Exec TableIo Unit := do
  let table ← Exec.get
  let newRoot ← onPages (BTree.insert table.store.rootPage key buf)
  if newRoot ≠ table.store.rootPage then do
    setRoot newRoot
    onPages (writeMetadata newRoot table.store.columns)
  else pure ()

theorem insertRow_eq (key : Int64) (buf : Bytes) :
    insertRow key buf = (do insertPages key buf; flushOutside) := by
  funext table
  unfold insertRow insertPages
  simp only [Exec.run_bind, Exec.run_get]
  split <;> rfl

/-- A page limit stops an insertion before the metadata is written. -/
theorem Trees.insertPages_runs (trees : Trees rows columns live saved table) {key : Int64} {buf : Bytes}
    (short : buf.length ≤ BTree.maxRowDataSize) (fine : rows buf) (fits : SplitsFit live key buf)
    {grown : BPlusTree.Grown Int64 Bytes} (grows : live.insert BTree.layout table.io.count key buf = grown) :
    ∃ after, insertPages key buf table = (inserted grown, after) ∧
      Trees rows columns grown.tree saved after ∧ after.io.count = grown.count ∧
      after.store.pager.inTransaction = table.store.pager.inTransaction ∧ after.disk = table.disk := by
  have held := trees.working.held
  have length := PagerIo.book_length table.io
  obtain ⟨book, run, counted, next⟩ := BTree.insert_ok held key (BTree.short_cell short) fits
  have kept := BTree.insert_kept held key (BTree.short_cell short) fits (zero_inside held)
    (zero_outside held)
  have small := BTree.insert_leavesFit held.linked trees.working.fits fits
  have known := BTree.insert_rows_subset held.linked key buf
  have stays := BPlusTree.insert_root BTree.layout_splits live table.io.book.length key buf
  rw [length, grows] at run counted next small known stays
  rw [run] at kept
  have fineAll : ∀ cell ∈ grown.tree.rows, rows cell.2 := by
    intro cell member
    rcases List.mem_cons.mp (known cell member) with rfl | old
    · exact fine
    · exact trees.working.rows cell old
  have metadata : binding.at_ book 0 = binding.at_ table.io.book 0 := by
    unfold Binding.at_
    rw [List.getD_eq_getElem?_getD, List.getD_eq_getElem?_getD, kept]
  obtain ⟨io, performed, shows⟩ := PagerIo.perform_shows (PagerIo.shows_book trees.sound) run (by
    unfold BTree.answer
    split <;> simp)
  have ran : onPages (BTree.insert table.store.rootPage key buf) table =
      (BTree.answer grown, table.withIo io) := by
    unfold onPages
    rw [run_onPager, trees.root, performed]
  -- while the root stays, page 0 gives it
  have same (root : grown.tree.root = live.root) :
      Trees rows columns grown.tree saved (table.withIo io) := by
    have holds : Holds rows columns book grown.tree :=
      ⟨next, small, fineAll, by rw [metadata, root]; exact trees.working.metadata⟩
    have worked := trees.worked shows holds
    rw [root, ← trees.root] at worked
    exact worked
  have count : (table.withIo io).io.count = grown.count := by rw [io_withIo, shows.count, counted]
  unfold insertPages
  rw [Exec.bind_ok (Exec.run_get table)]
  by_cases complete : grown.complete = true
  · rw [BTree.answer, if_pos complete] at ran
    rw [Exec.bind_ok ran, inserted, if_pos complete]
    by_cases moved : grown.tree.root ≠ table.store.rootPage
    · obtain ⟨page, wrote, holds⟩ := writeMetadata_holds next small fineAll trees.small
      obtain ⟨last, updated, shown⟩ := PagerIo.perform_shows shows wrote (by simp)
      refine ⟨(table.withIo last).withRoot grown.tree.root, ?_, trees.worked shown holds, ?_,
        shown.frame.inTransaction, shown.frame.disk⟩
      · rw [if_pos moved, Exec.bind_ok (run_setRoot _ _), trees.schema]
        unfold onPages
        rw [run_onPager, io_withRoot, io_withIo, updated]
        rfl
      · rw [io_withRoot, io_withIo, shown.count, List.length_set, counted]
    · rw [if_neg moved]
      refine ⟨table.withIo io, rfl, same ?_, count, shows.frame.inTransaction, shows.frame.disk⟩
      rw [← trees.root]
      exact not_not.mp moved
  · have stopped : grown.complete = false := Bool.eq_false_iff.mpr complete
    rw [BTree.answer, if_neg complete] at ran
    rw [Exec.bind_error ran, inserted, if_neg complete]
    exact ⟨table.withIo io, rfl, same (stays stopped), count, shows.frame.inTransaction, shows.frame.disk⟩

/-- An insertion that a page limit stops is not flushed. -/
theorem Trees.insertRow_runs (trees : Trees rows columns live saved table) {key : Int64} {buf : Bytes}
    (short : buf.length ≤ BTree.maxRowDataSize) (fine : rows buf) (fits : SplitsFit live key buf)
    {grown : BPlusTree.Grown Int64 Bytes} (grows : live.insert BTree.layout table.io.count key buf = grown) :
    ∃ after, insertRow key buf table = (inserted grown, after) ∧
      Trees rows columns grown.tree
        (if table.store.pager.inTransaction ∨ grown.complete = false then saved else grown.tree)
        after ∧
      after.io.count = grown.count ∧
      after.store.pager.inTransaction = table.store.pager.inTransaction ∧
      Wrote (table.store.pager.inTransaction = true ∨ grown.complete = false) table after := by
  obtain ⟨middle, ran, middleTrees, sameCount, sameState, sameDisk⟩ :=
    trees.insertPages_runs short fine fits grows
  rw [insertRow_eq]
  by_cases complete : grown.complete = true
  · obtain ⟨after, flushed, ended, count, state, wrote⟩ := middleTrees.flushOutside
    rw [inserted, if_pos complete] at ran ⊢
    refine ⟨after, ?_, ?_, count.trans sameCount, state.trans sameState, ?_⟩
    · rw [Exec.bind_ok ran, flushed]
    · rw [sameState] at ended
      simpa [complete] using ended
    · unfold Wrote at wrote ⊢
      rw [sameState, sameDisk] at wrote
      simpa [complete] using wrote
  · have stopped : grown.complete = false := Bool.eq_false_iff.mpr complete
    rw [inserted, if_neg complete] at ran ⊢
    refine ⟨middle, Exec.bind_error ran, ?_, sameCount, sameState, ?_⟩
    · rw [if_pos (Or.inr stopped)]
      exact middleTrees
    · rw [Wrote, if_pos (Or.inr stopped)]
      exact sameDisk

theorem Trees.insertRow_ok (trees : Trees rows columns live saved table) {key : Int64} {buf : Bytes}
    (short : buf.length ≤ BTree.maxRowDataSize) (fine : rows buf) (fits : SplitsFit live key buf)
    {grown : BPlusTree.Grown Int64 Bytes} (grows : live.insert BTree.layout table.io.count key buf = grown) :
    ∃ after, insertRow key buf table = (inserted grown, after) ∧
      Trees rows columns grown.tree
        (if table.store.pager.inTransaction ∨ grown.complete = false then saved else grown.tree)
        after := by
  obtain ⟨after, ran, next, -⟩ := trees.insertRow_runs short fine fits grows
  exact ⟨after, ran, next⟩

end Trees

/-! ### Creating a table in an empty file -/

theorem trees_create {rows : Bytes → Prop} {columns : List Column} {start : TableIo}
    (sound : start.io.Sound) (empty : start.io.count = 0)
    (idle : start.store.pager.inTransaction = false) (small : MetadataFits columns) :
    ∃ after, create columns start = (.ok (), after) ∧ after.store.path = start.store.path ∧
      after.store.pager.inTransaction = false ∧
      Trees rows columns (BPlusTree.single 1) (BPlusTree.single 1) after ∧
      after.io.count = 2 ∧ after.disk.log = [] ∧ after.disk.pageCount = 2 := by
  have none : start.io.book = [] :=
    List.eq_nil_of_length_eq_zero ((PagerIo.book_length start.io).trans empty)
  have few : start.io.count + 2 ≤ maxPages := by
    rw [empty]
    decide
  obtain ⟨leaf, init, leafAt⟩ := BTree.initLeaf_leafAt Page.zero
  obtain ⟨page, encoded⟩ : ∃ page,
      encodeMetadata (start.io.count + 1) columns (start.io.view 0) = .ok page :=
    encodeMetadata_ok (by rw [metadataBytes_length]; exact small.size)
  obtain ⟨io, shows, made⟩ := create_succeeds sound few idle init encoded
  have book : io.book = [page, leaf] := by
    rw [shows.book, none]
    rfl
  have decoded := decodeMetadata_encoded encoded
  rw [empty, map_stored_iff.mpr small.names] at decoded
  have holds : Holds rows columns io.book (BPlusTree.single 1) := by
    rw [book]
    exact
      { held :=
          { small := (by decide : 2 ≤ maxPages)
            linked := BPlusTree.linked_single (by decide : 1 < 2)
            nodes := trivial
            chained := ⟨⟨leaf, rfl, leafAt⟩, trivial⟩ }
        fits := by
          intro other member
          obtain rfl := List.mem_singleton.mp member
          exact (by decide : BTree.leafSize [] ≤ pageSize)
        rows := fun _ member => absurd member List.not_mem_nil
        metadata := decoded }
  have count : io.count = 2 := by
    rw [← PagerIo.book_length, book]
    rfl
  refine ⟨_, made, rfl, rfl, ?_, count, rfl, shows.sound.coherent.committed_pageCount.trans count⟩
  exact
    { sound := shows.sound.committed_sound
      schema := rfl
      small := small
      working := by
        change Holds rows columns io.committed.book _
        rw [PagerIo.committed_book shows.sound]
        exact holds
      root := congrArg (· + 1) empty
      stored := by
        change Holds rows columns io.committed.disk.book _
        rw [PagerIo.committed_disk_book shows.sound]
        exact holds }

end TableIo

end MukhiDb.Model
