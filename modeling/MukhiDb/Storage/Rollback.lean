import MukhiDb.Storage.Reachable

/-!
Contract: a transaction that is rolled back.

Owns: what statements inside a transaction leave alone; the table that a rollback
leaves; and the fact that begin, statements and rollback lead back to the storage
at begin, as far as every answer and every root page goes, when the metadata page
in each file gives the root page of its table.

Does not own: when a metadata page can be trusted, and failed I/O.
-/

namespace MukhiDb.Model

open MukhiDb.Foundation

namespace TableIo

variable {table other after : TableIo}

/-! ### Answers -/

/-- A program that only loads answers by what the pages read as. -/
theorem onPages_readOnly {α : Type} {program : PageProgram α} (readOnly : program.ReadOnly)
    (quiet : table.io.Quiet) : (onPages program table).1 = program.evaluate table.io.reads :=
  PagerIo.perform_readOnly readOnly quiet

/-- A scan only loads pages. -/
theorem selectAll_state (table : TableIo) : (selectAll table).2 =
    table.withIo (Pager.perform (BTree.scanAll table.store.rootPage) table.io).2 := by
  unfold selectAll
  rw [Exec.bind_ok (Exec.run_get table)]
  rcases ran : onPages (BTree.scanAll table.store.rootPage) table with ⟨fault | rawRows, last⟩
  · rw [Exec.bind_error ran]
    exact (congrArg Prod.snd ran).symm
  · rw [Exec.bind_ok ran]
    rcases decodeRows table.store.columns rawRows with fault | rows
    · exact (congrArg Prod.snd ran).symm
    · exact (congrArg Prod.snd ran).symm

/-- Tables with the same pages, root page and columns answer a scan alike. -/
theorem selectAll_congr (quiet : table.io.Quiet) (quiet' : other.io.Quiet)
    (reads : other.io.reads = table.io.reads) (root : other.store.rootPage = table.store.rootPage)
    (columns : other.store.columns = table.store.columns) :
    (selectAll other).1 = (selectAll table).1 := by
  have scans : (onPages (BTree.scanAll other.store.rootPage) other).1 =
      (onPages (BTree.scanAll table.store.rootPage) table).1 := by
    rw [onPages_readOnly (BTree.readOnly_scanAll _) quiet,
      onPages_readOnly (BTree.readOnly_scanAll _) quiet', reads, root]
  unfold selectAll
  rw [Exec.bind_ok (Exec.run_get table), Exec.bind_ok (Exec.run_get other), columns]
  rcases ran : onPages (BTree.scanAll table.store.rootPage) table with ⟨fault | rawRows, final⟩
  · rcases ran' : onPages (BTree.scanAll other.store.rootPage) other with ⟨result, final'⟩
    rw [ran, ran'] at scans
    obtain rfl : result = .error fault := scans
    rw [Exec.bind_error ran, Exec.bind_error ran']
  · rcases ran' : onPages (BTree.scanAll other.store.rootPage) other with ⟨result, final'⟩
    rw [ran, ran'] at scans
    obtain rfl : result = .ok rawRows := scans
    rw [Exec.bind_ok ran, Exec.bind_ok ran']
    rcases decodeRows table.store.columns rawRows with fault | rows <;> rfl

/-- Tables with the same pages and root page answer a dump alike. -/
theorem dumpBtree_congr (quiet : table.io.Quiet) (quiet' : other.io.Quiet)
    (reads : other.io.reads = table.io.reads)
    (root : other.store.rootPage = table.store.rootPage) :
    (dumpBtree other).1 = (dumpBtree table).1 := by
  unfold dumpBtree
  rw [Exec.bind_ok (Exec.run_get table), Exec.bind_ok (Exec.run_get other),
    onPages_readOnly (BTree.readOnly_dumpTree _ _ _) quiet,
    onPages_readOnly (BTree.readOnly_dumpTree _ _ _) quiet', reads, root]

/-! ### Statements in a transaction -/

/-- What statements in a transaction leave alone. -/
structure Inside (before after : TableIo) : Prop where
  path : after.store.path = before.store.path
  columns : after.store.columns = before.store.columns
  disk : after.disk = before.disk
  schedule : after.schedule = before.schedule
  inTransaction : after.store.pager.inTransaction = before.store.pager.inTransaction
  coherent : after.io.Coherent

/-- Statements in a transaction. -/
def Working (before after : TableIo) : Prop :=
  before.io.Coherent → before.io.Quiet → before.store.pager.inTransaction = true →
    Inside before after

theorem Inside.refl (coherent : table.io.Coherent) : Inside table table :=
  ⟨rfl, rfl, rfl, rfl, rfl, coherent⟩

theorem Inside.trans {first second third : TableIo} (left : Inside first second)
    (right : Inside second third) : Inside first third :=
  ⟨right.path.trans left.path, right.columns.trans left.columns, right.disk.trans left.disk,
    right.schedule.trans left.schedule, right.inTransaction.trans left.inTransaction,
    right.coherent⟩

theorem Working.refl (table : TableIo) : Working table table :=
  fun coherent _ _ => Inside.refl coherent

theorem Working.trans {first second third : TableIo} (left : Working first second)
    (right : Working second third) : Working first third := by
  intro coherent quiet busy
  have middle := left coherent quiet busy
  exact middle.trans
    (right middle.coherent (middle.schedule.trans quiet) (middle.inTransaction.trans busy))

theorem Working.bind {α β : Type} {first : Exec TableIo α} {next : α → Exec TableIo β}
    (head : Exec.Preserves Working first) (tail : ∀ value, Exec.Preserves Working (next value)) :
    Exec.Preserves Working (first >>= next) :=
  Exec.Preserves.bind (fun left right => left.trans right) head tail

theorem Working.of_unchanged {α : Type} {program : Exec TableIo α}
    (unchanged : ∀ state, (program state).2 = state) : Exec.Preserves Working program :=
  Exec.Preserves.of_unchanged Working.refl unchanged

theorem onPages_working {α : Type} (program : PageProgram α) :
    Exec.Preserves Working (onPages program) := by
  intro table coherent quiet _
  obtain ⟨coherentAfter, frame⟩ := PagerIo.perform_loose program table.io coherent quiet
  exact ⟨rfl, rfl, frame.disk, frame.schedule, frame.inTransaction, coherentAfter⟩

theorem setRoot_working (root : Nat) : Exec.Preserves Working (setRoot root) :=
  fun _ coherent _ _ => ⟨rfl, rfl, rfl, rfl, rfl, coherent⟩

/-- In a transaction nothing is flushed. -/
theorem flushOutside_working : Exec.Preserves Working flushOutside := by
  intro table coherent _ busy
  unfold flushOutside
  rw [Exec.bind_ok (Exec.run_get table), if_pos busy]
  exact Inside.refl coherent

theorem insert_working (values : List Value) : Exec.Preserves Working (insert values) := by
  apply Working.bind (Working.of_unchanged fun _ => rfl)
  intro table
  apply Working.bind (Working.of_unchanged fun _ => rfl)
  intro encoded
  apply Working.bind (Working.of_unchanged fun _ => rfl)
  intro table
  apply Working.bind (onPages_working _)
  intro newRoot
  refine Working.bind ?_ fun _ => flushOutside_working
  split
  · exact Working.bind (setRoot_working _) fun _ => onPages_working _
  · exact Working.of_unchanged fun _ => rfl

theorem selectAll_working : Exec.Preserves Working selectAll := by
  apply Working.bind (Working.of_unchanged fun _ => rfl)
  intro table
  apply Working.bind (onPages_working _)
  intro rawRows
  apply Working.bind (Working.of_unchanged fun _ => rfl)
  exact fun rows => Working.of_unchanged fun _ => rfl

/-! ### Begin and rollback -/

/-- The table in a transaction. -/
def begun (table : TableIo) : TableIo :=
  { table with store :=
    { table.store with pager := { table.store.pager with inTransaction := true } } }

theorem begin_ok (idle : table.store.pager.inTransaction = false) :
    begin table = (.ok (), table.begun) := by
  have ran := @PagerIo.begin_ok table.io idle
  unfold begin
  rw [run_onPager, ran]
  rfl

/-- Page 0 of the file gives the root page of the table. -/
def Rooted (table : TableIo) : Prop :=
  ∃ columns, decodeMetadata (table.disk.page 0) = .ok (table.store.rootPage, columns)

/-- Reading the metadata of a pager that can read page 0. -/
theorem readMetadata_run {state : PagerIo} {page : Page} (quiet : state.Quiet)
    (found : state.reads 0 = .ok page) :
    (Pager.perform readMetadata state).1 = decodeMetadata page := by
  rw [PagerIo.perform_readOnly readOnly_readMetadata quiet]
  exact Program.evaluate_load found _

/-- A settled table has no gap. -/
theorem settled_noGap (coherent : table.io.Coherent) (settled : table.io.Settled) (index : Nat) :
    ¬ table.io.Gap index :=
  PagerIo.noGap_of_lengths (coherent.settled_length settled) index

theorem settled_reads (coherent : table.io.Coherent) (settled : table.io.Settled) :
    table.io.reads = PagerIo.answers table.disk.page := by
  rw [coherent.reads (settled_noGap coherent settled), coherent.settled_view settled]
  rfl

/-- The table is as good as one before a transaction. -/
structure Restored (before after : TableIo) : Prop where
  path : after.store.path = before.store.path
  columns : after.store.columns = before.store.columns
  rootPage : after.store.rootPage = before.store.rootPage
  reads : after.io.reads = before.io.reads
  db : after.disk.db = before.disk.db
  quiet : after.io.Quiet
  coherent : after.io.Coherent
  settled : after.io.Settled
  idle : after.store.pager.inTransaction = false

theorem rolledBack_reads {state : PagerIo} (coherent : state.Coherent) :
    state.rolledBack.reads = PagerIo.answers state.disk.page := by
  rw [coherent.consistent.rolledBack_coherent.reads (PagerIo.noGap_of_lengths rfl), coherent.consistent.rolledBack_view]

/-- The table is as its file has it. -/
structure Reread (root : Nat) (before after : TableIo) : Prop where
  path : after.store.path = before.store.path
  columns : after.store.columns = before.store.columns
  rootPage : after.store.rootPage = root
  reads : after.io.reads = PagerIo.answers before.disk.page
  db : after.disk.db = before.disk.db
  quiet : after.io.Quiet
  coherent : after.io.Coherent
  settled : after.io.Settled
  idle : after.store.pager.inTransaction = false

/-- A rollback goes back to the file, if page 0 of it can be decoded. -/
theorem rollback_reread {working : TableIo} {root : Nat} {names : List Column}
    (coherent : working.io.Coherent) (quiet : working.io.Quiet)
    (decoded : decodeMetadata (working.disk.page 0) = .ok (root, names)) :
    ∃ after, rollback working = (.ok (), after) ∧ Reread root working after := by
  have backQuiet : working.io.rolledBack.Quiet := quiet
  have backCoherent := coherent.consistent.rolledBack_coherent
  have reads : working.io.rolledBack.reads = PagerIo.answers working.disk.page :=
    rolledBack_reads coherent
  have found : working.io.rolledBack.reads 0 = .ok (working.disk.page 0) := by
    rw [reads]
    exact if_neg (by decide)
  have metadata := readMetadata_run backQuiet found
  rw [decoded] at metadata
  have filled := PagerIo.perform_filled readOnly_readMetadata working.io.rolledBack
  obtain ⟨lastCoherent, frame⟩ :=
    PagerIo.perform_loose readMetadata working.io.rolledBack backCoherent backQuiet
  rcases ran : Pager.perform readMetadata working.io.rolledBack with ⟨result, last⟩
  rw [ran] at metadata filled lastCoherent frame
  dsimp only at metadata filled lastCoherent frame
  subst metadata
  have first : onPager Pager.rollback working = (.ok (), working.withIo working.io.rolledBack) := by
    rw [run_onPager, PagerIo.rollback_ok quiet]
  have second : onPages readMetadata (working.withIo working.io.rolledBack) =
      (.ok (root, names), working.withIo last) := by
    unfold onPages
    rw [run_onPager, io_withIo, ran]
    rfl
  refine ⟨(working.withIo last).withRoot root, ?_, ?_⟩
  · unfold rollback
    rw [Exec.bind_ok first, Exec.bind_ok second]
    rfl
  · exact
      { path := rfl
        columns := rfl
        rootPage := rfl
        reads := filled.reads.trans reads
        db := by
          have same : last.disk.db = working.io.rolledBack.disk.db := congrArg Disk.db frame.disk
          exact same
        quiet := frame.quiet backQuiet
        coherent := lastCoherent
        settled := by
          intro index
          have same : last.pager.dirty = working.io.rolledBack.pager.dirty := filled.dirty
          exact congrFun same index
        idle := frame.inTransaction }

/-- A rollback undoes what was done without touching the files. -/
theorem rollback_ok {start working : TableIo} (coherent : start.io.Coherent)
    (settled : start.io.Settled) (rooted : start.Rooted)
    (path : working.store.path = start.store.path)
    (columns : working.store.columns = start.store.columns) (disk : working.disk = start.disk)
    (workingCoherent : working.io.Coherent) (workingQuiet : working.io.Quiet) :
    ∃ after, rollback working = (.ok (), after) ∧ Restored start after := by
  obtain ⟨names, decoded⟩ := rooted
  rw [← disk] at decoded
  obtain ⟨after, ran, reread⟩ := rollback_reread workingCoherent workingQuiet decoded
  exact ⟨after, ran,
    { path := reread.path.trans path
      columns := reread.columns.trans columns
      rootPage := reread.rootPage
      reads := by rw [reread.reads, disk, settled_reads coherent settled]
      db := by rw [reread.db, disk]
      quiet := reread.quiet
      coherent := reread.coherent
      settled := reread.settled
      idle := reread.idle }⟩

/-- The root page after a rollback that succeeds is the one that page 0 of the file gives. -/
theorem rollback_root {working : TableIo} (coherent : working.io.Coherent)
    (quiet : working.io.Quiet) (ran : (rollback working).1 = .ok ()) :
    ∃ columns, decodeMetadata (working.disk.page 0) =
      .ok ((rollback working).2.store.rootPage, columns) := by
  have backQuiet : working.io.rolledBack.Quiet := quiet
  have found : working.io.rolledBack.reads 0 = .ok (working.disk.page 0) := by
    rw [rolledBack_reads coherent]
    exact if_neg (by decide)
  have metadata := readMetadata_run backQuiet found
  have first : onPager Pager.rollback working = (.ok (), working.withIo working.io.rolledBack) := by
    rw [run_onPager, PagerIo.rollback_ok quiet]
  unfold rollback at ran ⊢
  rw [Exec.bind_ok first] at ran ⊢
  rcases read : onPages readMetadata (working.withIo working.io.rolledBack) with
    ⟨fault | ⟨root, columns⟩, last⟩
  · rw [Exec.bind_error read] at ran
    cases ran
  · rw [Exec.bind_ok read]
    exact ⟨columns, metadata.symm.trans (congrArg Prod.fst read)⟩

end TableIo

/-! ### Storages in a transaction -/

namespace Storage

variable {state begun middle after : Storage} {name : String}

/-- No table is in a transaction and no page is dirty. -/
def AtRest (state : Storage) : Prop :=
  ∀ name table, state.tableAt name = some table →
    table.store.pager.inTransaction = false ∧ table.io.Settled

/-- Page 0 of every file gives the root page of its table. -/
def Rooted (state : Storage) : Prop :=
  ∀ name table, state.tableAt name = some table → table.Rooted

/-- What statements in a transaction lead to: the tables that were open at begin are as
such statements leave them, and every other table is new. -/
structure Within (new : TableIo → Prop) (begun after : Storage) : Prop where
  quiet : after.schedule = []
  apart : after.Apart
  old : ∀ name table, begun.tableAt name = some table →
    ∃ table', after.tableAt name = some table' ∧ TableIo.Inside table table'
  new : ∀ name table, begun.tableAt name = none → after.tableAt name = some table → new table

/-- Every table is in a transaction. -/
def Busy (state : Storage) : Prop :=
  ∀ name table, state.tableAt name = some table → table.store.pager.inTransaction = true

theorem Within.refl {new : TableIo → Prop} (kept : state.Kept) : Within new state state where
  quiet := kept.quiet
  apart := kept.apart
  old := fun name table found => ⟨table, found, TableIo.Inside.refl (kept.coherent name table found)⟩
  new := fun name table absent found => by
    rw [absent] at found
    contradiction

/-- A table that was open at begin is changed in the transaction. -/
theorem Within.putOld {new : TableIo → Prop} {start table changed : TableIo}
    (within : Within new begun middle) (opened : begun.tableAt name = some start)
    (found : middle.tableAt name = some table) (inside : TableIo.Inside start table)
    (stays : TableIo.Inside table changed) : Within new begun (middle.put name changed) := by
  have unused := within.apart.unused found stays.path
  have still : changed.schedule = middle.schedule :=
    stays.schedule.trans (tableAt_schedule found)
  refine ⟨still.trans within.quiet, within.apart.put unused still, ?_, ?_⟩
  · intro other there openedThere
    rw [tableAt_put unused still]
    by_cases same : other = name
    · subst same
      rw [opened] at openedThere
      obtain rfl := Option.some.inj openedThere
      exact ⟨changed, Function.update_self _ _ _, inside.trans stays⟩
    · rw [Function.update_of_ne same]
      exact within.old other there openedThere
  · intro other there absent foundThere
    rw [tableAt_put unused still] at foundThere
    have different : other ≠ name := by
      rintro rfl
      rw [opened] at absent
      contradiction
    rw [Function.update_of_ne different] at foundThere
    exact within.new other there absent foundThere

/-- A table that is not open at begin is put in or changed. -/
theorem Within.putNew {new : TableIo → Prop} {changed : TableIo} (within : Within new begun middle)
    (absent : begun.tableAt name = none) (unused : middle.Unused name changed.store.path)
    (quiet : changed.schedule = []) (fresh : new changed) :
    Within new begun (middle.put name changed) := by
  have still : changed.schedule = middle.schedule := quiet.trans within.quiet.symm
  refine ⟨quiet, within.apart.put unused still, ?_, ?_⟩
  · intro other there openedThere
    have different : other ≠ name := by
      rintro rfl
      rw [openedThere] at absent
      contradiction
    rw [tableAt_put unused still, Function.update_of_ne different]
    exact within.old other there openedThere
  · intro other there absentThere foundThere
    rw [tableAt_put unused still] at foundThere
    by_cases same : other = name
    · subst same
      rw [Function.update_self] at foundThere
      obtain rfl := Option.some.inj foundThere
      exact fresh
    · rw [Function.update_of_ne same] at foundThere
      exact within.new other there absentThere foundThere

/-- A statement on a table that was open at begin. -/
theorem Within.onOld {new : TableIo → Prop} {α : Type} {call : Exec TableIo α} {missing : Fault}
    {start : TableIo} (within : Within new begun middle) (busy : begun.Busy)
    (samePath : Exec.Preserves TableIo.SamePath call)
    (working : Exec.Preserves TableIo.Working call) (opened : begun.tableAt name = some start) :
    Within new begun (onTable name missing call middle).2 := by
  obtain ⟨table, found, inside⟩ := within.old name start opened
  rw [onTable_found found samePath]
  have quiet : table.io.Quiet := (tableAt_schedule found).trans within.quiet
  exact within.putOld opened found inside
    (working table inside.coherent quiet (inside.inTransaction.trans (busy name start opened)))

/-- `begin` of a storage without a table in a transaction. -/
theorem begin_opens (kept : state.Kept)
    (idle : ∀ name table, state.tableAt name = some table →
      table.store.pager.inTransaction = false) :
    ∃ begun, Storage.begin state = (.ok (), begun) ∧ begun.Kept ∧ begun.Busy ∧
      ∀ name, begun.tableAt name = (state.tableAt name).map TableIo.begun := by
  obtain ⟨begun, ran, quiet, apart, -, tables⟩ := @forAll_ok state TableIo.begin
    (TableIo.Safe.samePath TableIo.begin_safe) kept.quiet kept.apart fun name table found => by
      rw [TableIo.begin_ok (idle name table found)]
      exact ⟨rfl, (tableAt_schedule found).trans kept.quiet⟩
  have opened : ∀ name, begun.tableAt name = (state.tableAt name).map TableIo.begun := by
    intro name
    rw [tables]
    rcases found : state.tableAt name with _ | table
    · rfl
    · rw [Option.map_some, Option.map_some, TableIo.begin_ok (idle name table found)]
  refine ⟨begun, ran, ⟨quiet, apart, ?_⟩, ?_, opened⟩
  · intro name table found
    rw [opened] at found
    obtain ⟨start, there, rfl⟩ := Option.map_eq_some_iff.mp found
    exact { kept.coherent name start there with }
  · intro name table found
    rw [opened] at found
    obtain ⟨start, -, rfl⟩ := Option.map_eq_some_iff.mp found
    rfl

/-- `begin` of a storage at rest. -/
theorem begin_ok (kept : state.Kept) (rest : state.AtRest) :
    ∃ begun, Storage.begin state = (.ok (), begun) ∧ begun.Kept ∧ begun.Busy ∧
      ∀ name, begun.tableAt name = (state.tableAt name).map TableIo.begun :=
  begin_opens kept fun name table found => (rest name table found).1

/-- A `begin` that succeeds finds no table in a transaction. -/
theorem begin_idle (kept : state.Kept) (started : (Storage.begin state).1 = .ok ()) :
    ∀ name table, state.tableAt name = some table → table.store.pager.inTransaction = false := by
  intro name table found
  have returned := kept.forAll_returned TableIo.begin_safe started name table found
  rcases busy : table.store.pager.inTransaction with _ | _
  · rfl
  · unfold TableIo.begin at returned
    rw [TableIo.run_onPager, PagerIo.begin_busy busy] at returned
    cases returned

/-- `rollback` of what statements in a transaction led to. -/
theorem rollback_ok {new : TableIo → Prop} (kept : state.Kept) (rest : state.AtRest)
    (rooted : state.Rooted)
    (opened : ∀ name, begun.tableAt name = (state.tableAt name).map TableIo.begun)
    (within : Within new begun middle)
    (newRollsBack : ∀ table, new table → table.io.Quiet →
      ∃ after, TableIo.rollback table = (.ok (), after) ∧ TableIo.Restored table after) :
    ∃ restored, Storage.rollback middle = (.ok (), restored) ∧ restored.Kept ∧ restored.AtRest ∧
      (∀ name table, state.tableAt name = some table →
        ∃ after, restored.tableAt name = some after ∧ TableIo.Restored table after) ∧
      ∀ name after, state.tableAt name = none → restored.tableAt name = some after →
        ∃ table, middle.tableAt name = some table ∧ TableIo.Restored table after := by
  have each : ∀ name table, middle.tableAt name = some table →
      ∃ before after, TableIo.rollback table = (.ok (), after) ∧ TableIo.Restored before after ∧
        (state.tableAt name = some before ∨ state.tableAt name = none ∧ before = table) := by
    intro name table found
    have quiet : table.io.Quiet := (tableAt_schedule found).trans within.quiet
    rcases there : state.tableAt name with _ | start
    · have absent : begun.tableAt name = none := by rw [opened, there]; rfl
      obtain ⟨after, ran, restored⟩ := newRollsBack table (within.new name table absent found) quiet
      exact ⟨table, after, ran, restored, Or.inr ⟨rfl, rfl⟩⟩
    · obtain ⟨table', found', inside⟩ :=
        within.old name start.begun (by rw [opened, there]; rfl)
      rw [found] at found'
      obtain rfl := Option.some.inj found'
      obtain ⟨after, ran, restored⟩ := @TableIo.rollback_ok start table
        (kept.coherent name start there) (rest name start there).2 (rooted name start there)
        inside.path inside.columns inside.disk inside.coherent quiet
      exact ⟨start, after, ran, restored, Or.inl rfl⟩
  obtain ⟨restored, ran, quiet, apart, -, tables⟩ := @forAll_ok middle TableIo.rollback
    (TableIo.Safe.samePath TableIo.rollback_safe) within.quiet within.apart
    fun name table found => by
      obtain ⟨before, after, ran, restored, -⟩ := each name table found
      rw [ran]
      exact ⟨rfl, restored.quiet⟩
  have reached : ∀ name after, restored.tableAt name = some after →
      ∃ table, middle.tableAt name = some table ∧ TableIo.rollback table = (.ok (), after) := by
    intro name after found
    rw [tables] at found
    obtain ⟨table, there, rfl⟩ := Option.map_eq_some_iff.mp found
    obtain ⟨before, last, ran, -⟩ := each name table there
    rw [ran]
    exact ⟨table, there, ran⟩
  refine ⟨restored, ran, ⟨quiet, apart, ?_⟩, ?_, ?_, ?_⟩
  · intro name after found
    obtain ⟨table, there, ran⟩ := reached name after found
    obtain ⟨before, last, ran', restored, -⟩ := each name table there
    obtain rfl := (Prod.mk.inj (ran.symm.trans ran')).2
    exact restored.coherent
  · intro name after found
    obtain ⟨table, there, ran⟩ := reached name after found
    obtain ⟨before, last, ran', restored, -⟩ := each name table there
    obtain rfl := (Prod.mk.inj (ran.symm.trans ran')).2
    exact ⟨restored.idle, restored.settled⟩
  · intro name start there
    obtain ⟨table, found, -⟩ := within.old name start.begun (by rw [opened, there]; rfl)
    obtain ⟨before, after, ran, restored, source⟩ := each name table found
    rw [there] at source
    obtain rfl := Option.some.inj (source.resolve_right fun none => by cases none.1)
    refine ⟨after, ?_, restored⟩
    rw [tables, found, Option.map_some, ran]
  · intro name after absent found
    obtain ⟨table, there, ran⟩ := reached name after found
    obtain ⟨before, last, ran', restored, source⟩ := each name table there
    obtain rfl := (Prod.mk.inj (ran.symm.trans ran')).2
    rw [absent] at source
    obtain ⟨-, rfl⟩ := source.resolve_left fun some => by cases some
    exact ⟨before, there, restored⟩

/-- A rollback that succeeds leaves the tables that were open at begin as their files have them,
and the new tables as they can be rolled back. -/
theorem rollback_returned {new : TableIo → Prop} (kept : middle.Kept)
    (within : Within new begun middle) (ended : (Storage.rollback middle).1 = .ok ()) :
    (∀ name table, begun.tableAt name = some table → ∃ root after,
      (Storage.rollback middle).2.tableAt name = some after ∧ TableIo.Reread root table after) ∧
    ∀ name after, begun.tableAt name = none →
      (Storage.rollback middle).2.tableAt name = some after →
      ∃ table, new table ∧ middle.tableAt name = some table ∧
        TableIo.rollback table = (.ok (), after) := by
  have returned := kept.forAll_returned TableIo.rollback_safe ended
  obtain ⟨last, ran, -, -, -, tables⟩ := @forAll_ok middle TableIo.rollback
    (TableIo.Safe.samePath TableIo.rollback_safe) kept.quiet kept.apart fun name table found =>
      ⟨returned name table found,
        (TableIo.rollback_safe table).2 (kept.coherent name table found) (kept.table_quiet found) |>.2⟩
  have ran : Storage.rollback middle = (.ok (), last) := ran
  rw [ran]
  constructor
  · intro name start opened
    obtain ⟨table, found, inside⟩ := within.old name start opened
    have quiet := kept.table_quiet found
    obtain ⟨names, decoded⟩ :=
      TableIo.rollback_root inside.coherent quiet (returned name table found)
    obtain ⟨after, same, reread⟩ := TableIo.rollback_reread inside.coherent quiet decoded
    refine ⟨(TableIo.rollback table).2.store.rootPage, after,
      by rw [tables, found, Option.map_some, same], ?_⟩
    exact
      { reread with
        path := reread.path.trans inside.path
        columns := reread.columns.trans inside.columns
        reads := by rw [reread.reads, inside.disk]
        db := by rw [reread.db, inside.disk] }
  · intro name after absent found
    rw [tables] at found
    obtain ⟨table, there, rfl⟩ := Option.map_eq_some_iff.mp found
    exact ⟨table, within.new name table absent there, there,
      Prod.ext (returned name table there) rfl⟩

/-! ### Transactions that are rolled back -/

/-- The tables that were open at begin answer as they did then, and nothing is left of
the transaction. -/
structure Undone (before after : Storage) : Prop where
  rest : after.AtRest
  tables : ∀ name table, before.tableAt name = some table →
    (∃ table', after.tableAt name = some table' ∧
      table'.store.rootPage = table.store.rootPage) ∧
    (Storage.selectAll name after).1 = (Storage.selectAll name before).1 ∧
    (Storage.dumpBtree name after).1 = (Storage.dumpBtree name before).1

theorem onTable_congr {α : Type} {call : Exec TableIo α} {other : Storage}
    {table table' : TableIo} (samePath : Exec.Preserves TableIo.SamePath call)
    (found : state.tableAt name = some table) (found' : other.tableAt name = some table')
    (same : (call table').1 = (call table).1) (missing : Fault) :
    (onTable name missing call other).1 = (onTable name missing call state).1 := by
  rw [onTable_found found samePath, onTable_found found' samePath]
  exact same

/-- Restored tables answer as they did. -/
theorem undone_of_restored (kept : state.Kept) (rest : after.AtRest)
    (tables : ∀ name table, state.tableAt name = some table →
      ∃ table', after.tableAt name = some table' ∧ TableIo.Restored table table') :
    Undone state after := by
  refine ⟨rest, fun name table found => ?_⟩
  obtain ⟨table', found', restored⟩ := tables name table found
  have quiet := kept.table_quiet found
  refine ⟨⟨table', found', restored.rootPage⟩, ?_, ?_⟩
  · exact onTable_congr (TableIo.Safe.samePath TableIo.selectAll_safe) found found'
      (TableIo.selectAll_congr quiet restored.quiet restored.reads restored.rootPage
        restored.columns) _
  · exact onTable_congr (TableIo.Safe.samePath TableIo.dumpBtree_safe) found found'
      (TableIo.dumpBtree_congr quiet restored.quiet restored.reads restored.rootPage) _

end Storage

/-- `insert` and `select_all`. -/
def StorageCall.Queries : StorageCall → Prop
  | insert _ _ => True
  | selectAll _ => True
  | _ => False

namespace Storage

variable {state begun middle after : Storage} {name : String}

/-- A statement on any table, open at begin or not there. -/
theorem Within.onAny {α : Type} {call : Exec TableIo α} {missing : Fault}
    (within : Within (fun _ => False) begun middle) (busy : begun.Busy)
    (samePath : Exec.Preserves TableIo.SamePath call)
    (working : Exec.Preserves TableIo.Working call) :
    Within (fun _ => False) begun (onTable name missing call middle).2 := by
  rcases opened : begun.tableAt name with _ | start
  · rcases found : middle.tableAt name with _ | table
    · rw [onTable_missing found]
      exact within
    · exact (within.new name table opened found).elim
  · exact within.onOld busy samePath working opened

theorem discard_after {α : Type} (call : Exec Storage α) (state : Storage) :
    ((do let _ ← call : Exec Storage Unit) state).2 = (call state).2 := by
  rw [Exec.run_bind]
  rcases call state with ⟨_ | _, _⟩ <;> rfl

/-- What `insert` and `select_all` calls lead to after begin. -/
theorem within_of_queries {calls : List StorageCall} (kept : begun.Kept) (busy : begun.Busy)
    (reaches : Reaches Step begun calls middle) (queries : ∀ call ∈ calls, call.Queries) :
    Within (fun _ => False) begun middle := by
  induction reaches with
  | refl => exact Within.refl kept
  | @next calls call state after _ taken inductionHypothesis =>
      have within := inductionHypothesis fun other member =>
        queries other (List.mem_append_left _ member)
      obtain ⟨-, rfl⟩ := taken
      have query := queries call (List.mem_append_right _ (List.mem_singleton.mpr rfl))
      cases call with
      | insert name values =>
          exact within.onAny busy (TableIo.Safe.samePath (TableIo.insert_safe values))
            (TableIo.insert_working values)
      | selectAll name =>
          change Within _ begun ((do let _ ← Storage.selectAll name : Exec Storage Unit) state).2
          rw [discard_after]
          exact within.onAny busy (TableIo.Safe.samePath TableIo.selectAll_safe)
            TableIo.selectAll_working
      | _ => exact query.elim

/-- From every storage that calls lead to, whose files have metadata that give the root
pages: begin, inserts and scans, whatever they return, and rollback undo everything. -/
theorem rollback_undoes {host : Host} {dir : String → Option Disk}
    {calls statements : List StorageCall} {working : Storage}
    (reached : Reaches StepApart (new host dir []) calls state) (rest : state.AtRest)
    (rooted : state.Rooted) (queries : ∀ call ∈ statements, call.Queries)
    (ran : Reaches Step (Storage.begin state).2 statements working) :
    (Storage.begin state).1 = .ok () ∧ (Storage.rollback working).1 = .ok () ∧
      Undone state (Storage.rollback working).2 := by
  have kept := reaches_kept reached
  obtain ⟨begun, started, begunKept, busy, opened⟩ := begin_ok kept rest
  rw [started] at ran ⊢
  have within := within_of_queries begunKept busy ran queries
  obtain ⟨restored, ended, -, restAfter, old, -⟩ :=
    rollback_ok kept rest rooted opened within fun _ none => none.elim
  rw [ended]
  exact ⟨rfl, rfl, undone_of_restored kept restAfter old⟩

/-- If nothing at all is undone, page 0 gave the root pages. -/
theorem rooted_of_undone (kept : state.Kept) (rest : state.AtRest)
    (ended : (Storage.rollback (Storage.begin state).2).1 = .ok ())
    (undone : Undone state (Storage.rollback (Storage.begin state).2).2) : state.Rooted := by
  obtain ⟨begun, started, begunKept, -, opened⟩ := begin_ok kept rest
  rw [started] at ended undone
  intro name table found
  have there : begun.tableAt name = some table.begun := by rw [opened, found]; rfl
  have each := begunKept.forAll_returned TableIo.rollback_safe ended
  obtain ⟨after, ran, -, -, -, tables⟩ := @forAll_ok begun TableIo.rollback
    (TableIo.Safe.samePath TableIo.rollback_safe) begunKept.quiet begunKept.apart
    fun other there found => ⟨each other there found,
      (TableIo.rollback_safe there |>.2 (begunKept.coherent other there found)
        (begunKept.table_quiet found)).2⟩
  obtain ⟨columns, decoded⟩ := TableIo.rollback_root (begunKept.coherent name _ there)
    (begunKept.table_quiet there) (each name _ there)
  obtain ⟨⟨last, stands, root⟩, -, -⟩ := undone.tables name table found
  rw [show Storage.rollback begun = (.ok (), after) from ran, tables, there] at stands
  obtain rfl := Option.some.inj stands
  exact ⟨columns, root ▸ decoded⟩

end Storage

end MukhiDb.Model
