import MukhiDb.Storage.NewTable
import MukhiDb.Storage.Undoing

/-!
Contract: a transaction in which tables are created, and its rollback.

Owns: tables without rows whose pagers hold nothing that their files do not; the fact that
creating a table gives one, in a transaction too; and a rollback after any statements that
put no row in a table created since begin: the tables that were there answer as at begin,
and the new ones have no rows.

Does not own: rows that are put in such a table. They are flushed at once.
-/

namespace MukhiDb.Model

open MukhiDb.Foundation

/-! ### New tables -/

namespace TableIo

variable {columns : List Column} {table start after : TableIo}

/-- A table without rows, whose pager holds nothing that its file does not. -/
structure New (table : TableIo) : Prop where
  coherent : table.io.Coherent
  settled : table.io.Settled
  rooted : table.Rooted
  empty : table.Empty table.store.columns

/-- A creation that succeeds finds room for two pages. -/
theorem create_room (sound : start.io.Sound) (ran : create columns start = (.ok (), table)) :
    start.io.count + 2 ≤ maxPages := by
  by_contra full
  obtain ⟨_, first, allocated, ran⟩ := Exec.bind_eq_ok.mp ran
  obtain ⟨_, second, treed, -⟩ := Exec.bind_eq_ok.mp ran
  have length := PagerIo.book_length start.io
  have shows := PagerIo.shows_book sound
  by_cases room : start.io.count < maxPages
  · obtain ⟨io, extended, shows⟩ := PagerIo.perform_shows shows
      (BTree.run_allocatePage (by omega)) (by simp)
    have same : start.withIo io = first := by
      have reached := congrArg Prod.snd allocated
      rwa [onPages, run_onPager, extended] at reached
    have whole : maxPages ≤ (start.io.book ++ [Page.zero]).length := by
      rw [List.length_append, List.length_singleton]
      omega
    have refused : BTree.createTree.run binding.store _ = (.error _, _) :=
      Program.run_bind_error (BTree.run_allocatePage_full whole)
    obtain ⟨last, failed, -⟩ := PagerIo.perform_shows shows refused (by simp)
    rw [← same, onPages, run_onPager, io_withIo, failed] at treed
    cases treed
  · obtain ⟨last, failed, -⟩ := PagerIo.perform_shows shows
      (BTree.run_allocatePage_full (by omega)) (by simp)
    rw [onPages, run_onPager, failed] at allocated
    cases allocated

/-- A creation that succeeds gives a new table. -/
theorem create_new (sound : start.io.Sound) (idle : start.store.pager.inTransaction = false)
    (ran : create columns start = (.ok (), table)) : New table := by
  have room := create_room sound ran
  have created := create_returned sound.coherent sound.quiet idle ran
  obtain ⟨before, encoded⟩ := created.metadata
  have decoded := decodeMetadata_encoded encoded
  have fits := (encodeMetadata_bytes encoded).1
  rw [Nat.mod_eq_of_lt (Nat.lt_trans created.below (by decide))] at decoded
  rw [metadataBytes_length, created.columns] at fits
  obtain ⟨made, ran', -, empty⟩ := create_empty sound room idle
    (by rw [metadataBytes_length]; exact fits)
  obtain rfl := (Prod.mk.inj (ran.symm.trans ran')).2
  exact
    { coherent := created.coherent
      settled := created.settled
      rooted := ⟨_, decoded⟩
      empty := by
        rw [created.columns]
        exact empty }

/-- A scan leaves a new table so. -/
theorem New.selectAll (new : New table) : New (selectAll table).2 := by
  have filled := PagerIo.perform_filled (BTree.readOnly_scanAll table.store.rootPage) table.io
  have coherent := (selectAll_safe table).2 new.coherent new.empty.quiet
  obtain ⟨after, ran, empty⟩ := new.empty.selectAll
  obtain rfl : (TableIo.selectAll table).2 = after := congrArg Prod.snd ran
  refine ⟨coherent.1, ?_, ?_, ?_⟩
  · intro index
    rw [selectAll_state, io_withIo, filled.dirty]
    exact new.settled index
  · obtain ⟨names, decoded⟩ := new.rooted
    refine ⟨names, ?_⟩
    rw [selectAll_state]
    change decodeMetadata (Disk.page (Pager.perform _ table.io).2.disk 0) = _
    rw [filled.disk]
    exact decoded
  · rw [empty.columns]
    exact empty

/-- A rollback leaves a new table without rows. -/
theorem New.rollback (new : New table) :
    ∃ after, TableIo.rollback table = (.ok (), after) ∧ Restored table after :=
  rollback_ok new.coherent new.settled new.rooted rfl rfl rfl new.coherent new.empty.quiet

theorem Empty.restored (empty : Empty columns table) (restored : Restored table after) :
    Empty columns after := by
  obtain ⟨leaf, found, leafAt⟩ := empty.root
  refine ⟨restored.quiet, restored.columns.trans empty.columns, leaf, ?_, leafAt⟩
  rw [restored.rootPage, restored.reads, found]

end TableIo

/-! ### Creating tables in a transaction -/

namespace Storage

variable {state begun middle after : Storage} {name : String} {columns : List Column}
  {table : TableIo}

/-- A file with fewer than 2^32 pages is opened soundly. -/
theorem creating_sound (kept : state.Kept) (aligned : (state.filesAt (state.fileOf name)).Aligned)
    (few : (state.filesAt (state.fileOf name)).recovered.pageCount < 2 ^ 32) :
    (state.creating (state.fileOf name)).io.Sound := by
  rw [creating_io kept.quiet]
  exact
    { coherent := Pager.fresh_coherent aligned.recovered _
      quiet := rfl
      noGap := PagerIo.noGap_of_lengths rfl
      counted := few }

/-- `create_table` adds a new table, or it fails and leaves all tables as they are. -/
theorem createTable_tables (kept : state.Kept)
    (closed : (StorageCall.createTable name columns).OpensClosed state)
    (few : (state.filesAt (state.fileOf name)).recovered.pageCount < 2 ^ 32) :
    (∃ fault, (createTable name columns state).1 = .error fault) ∧
        (createTable name columns state).2.tableAt = state.tableAt ∨
      state.tableAt name = none ∧ ∃ table, table.New ∧ table.store.path = state.fileOf name ∧
        (createTable name columns state).2.tableAt =
          Function.update state.tableAt name (some table) := by
  rcases opened : state.tableAt name with _ | there
  · have closed : state.Closed (state.fileOf name) :=
      closed.resolve_left (by rw [tableAt_eq_none.mp opened]; simp)
    have closedNext (disk : Disk) : (state.withFiles (state.fileOf name) disk).Closed (state.fileOf name) := by
      unfold Closed
      rw [tableAt_withFiles closed]
      exact closed
    by_cases aligned : (state.filesAt (state.fileOf name)).Aligned
    · have sound := creating_sound kept aligned few
      rw [createTable_aligned kept.quiet opened aligned]
      have safe := TableIo.create_safe columns (state.creating (state.fileOf name))
      rcases made : TableIo.create columns (state.creating (state.fileOf name)) with ⟨fault | ⟨⟩, table⟩
      · left
        rw [made] at safe
        have still : table.schedule = state.schedule :=
          (safe.2 sound.coherent sound.quiet).2.trans kept.quiet.symm
        rw [addTable_error made, still]
        exact ⟨⟨fault, rfl⟩,
          (tableAt_withFiles (closedNext _) table.disk).trans (tableAt_withFiles closed _)⟩
      · right
        have new := TableIo.create_new sound rfl made
        rw [made] at safe
        have path : table.store.path = state.fileOf name := safe.1
        refine ⟨rfl, table, new, path, ?_⟩
        rw [addTable_ok made path, tableAt_put, tableAt_withFiles closed]
        · rw [path]
          exact (closedNext _).unused
        · exact Eq.trans new.empty.quiet kept.quiet.symm
    · left
      have refused := openPager_quiet kept.quiet (state.fileOf name)
      rw [Pager.open_misaligned (state.fileOf name) aligned] at refused
      rw [createTable_opens opened, Exec.bind_error refused]
      exact ⟨⟨_, rfl⟩, tableAt_withFiles closed _⟩
  · left
    unfold createTable
    rw [Exec.bind_ok (Exec.run_get state), if_pos (by rw [tableAt_store opened]; rfl)]
    exact ⟨⟨_, rfl⟩, rfl⟩

/-- A table was created in the transaction. -/
theorem Within.created {new : TableIo → Prop} (within : Within new begun middle) (kept : after.Kept)
    (absent : middle.tableAt name = none) (fresh : new table)
    (tables : after.tableAt = Function.update middle.tableAt name (some table)) :
    Within new begun after where
  quiet := kept.quiet
  apart := kept.apart
  old := by
    intro other start opened
    obtain ⟨there, found, inside⟩ := within.old other start opened
    refine ⟨there, ?_, inside⟩
    rw [tables, Function.update_of_ne, found]
    rintro rfl
    rw [absent] at found
    cases found
  new := by
    intro other there closed found
    rw [tables] at found
    by_cases same : other = name
    · subst same
      rw [Function.update_self] at found
      obtain rfl := Option.some.inj found
      exact fresh
    · rw [Function.update_of_ne same] at found
      exact within.new other there closed found

theorem Within.sameTables {new : TableIo → Prop} (within : Within new begun middle)
    (kept : after.Kept) (tables : after.tableAt = middle.tableAt) : Within new begun after where
  quiet := kept.quiet
  apart := kept.apart
  old := by
    rw [tables]
    exact within.old
  new := by
    rw [tables]
    exact within.new

/-- A statement that keeps to the rule for new tables, on a table that was not open at begin. -/
theorem Within.onNew {new : TableIo → Prop} {α : Type} {call : Exec TableIo α} {missing : Fault}
    (within : Within new begun middle) (samePath : Exec.Preserves TableIo.SamePath call)
    (absent : begun.tableAt name = none)
    (keeps : ∀ table, middle.tableAt name = some table → new table →
      new (call table).2 ∧ (call table).2.schedule = []) :
    Within new begun (onTable name missing call middle).2 := by
  rcases found : middle.tableAt name with _ | table
  · rw [onTable_missing found]
    exact within
  · obtain ⟨stays, quiet⟩ := keeps table found (within.new name table absent found)
    rw [onTable_found found samePath]
    exact within.putNew absent (within.apart.unused found (samePath table)) quiet stays

end Storage

/-- The statements `create_table`, `insert` and `select_all` of a transaction, with no row for a
table created in it. A row that the checks of `insert` refuse is none. -/
def StorageCall.KeepsOut (begun : Storage) : StorageCall → Storage → Prop
  | createTable name columns, state =>
      (createTable name columns).OpensClosed state ∧
        (state.filesAt (state.fileOf name)).recovered.pageCount < 2 ^ 32
  | insert name values, state => begun.tableAt name = none → ∀ table, state.tableAt name = some table →
      ∃ fault, TableIo.encodeRow table.store.columns values = .error fault
  | selectAll _, _ => True
  | _, _ => False

namespace Storage

variable {state begun middle after : Storage} {name : String}

/-- A statement that came back and put no row in a table created since begin. -/
def StepOut (begun state : Storage) (call : StorageCall) (after : Storage) : Prop :=
  call.KeepsOut begun state ∧ Step state call after

theorem Within.perform {call : StorageCall} (within : Within TableIo.New begun middle)
    (kept : middle.Kept) (busy : begun.Busy) (out : call.KeepsOut begun middle) :
    (call.perform middle).2.Kept ∧ Within TableIo.New begun (call.perform middle).2 := by
  cases call with
  | createTable name columns =>
      have keptAfter := kept.perform out.1
      refine ⟨keptAfter, ?_⟩
      rcases createTable_tables kept out.1 out.2 with ⟨-, same⟩ | ⟨absent, table, fresh, -, tables⟩
      · exact within.sameTables keptAfter same
      · exact within.created keptAfter absent fresh tables
  | insert name values =>
      refine ⟨kept.onTable (TableIo.insert_safe values) name _, ?_⟩
      rcases opened : begun.tableAt name with _ | start
      · refine within.onNew (TableIo.Safe.samePath (TableIo.insert_safe values)) opened ?_
        intro table found new
        obtain ⟨fault, refused⟩ := out opened table found
        have same : (TableIo.insert values table).2 = table := by
          unfold TableIo.insert
          rw [Exec.bind_ok (Exec.run_get table), refused]
          rfl
        rw [same]
        exact ⟨new, new.empty.quiet⟩
      · exact within.onOld busy (TableIo.Safe.samePath (TableIo.insert_safe values))
          (TableIo.insert_working values) opened
  | selectAll name =>
      change ((do let _ ← Storage.selectAll name : Exec Storage Unit) middle).2.Kept ∧
        Within _ begun ((do let _ ← Storage.selectAll name : Exec Storage Unit) middle).2
      rw [discard_after]
      refine ⟨kept.onTable TableIo.selectAll_safe name _, ?_⟩
      rcases opened : begun.tableAt name with _ | start
      · exact within.onNew (TableIo.Safe.samePath TableIo.selectAll_safe) opened
          fun table found new => ⟨new.selectAll, new.selectAll.empty.quiet⟩
      · exact within.onOld busy (TableIo.Safe.samePath TableIo.selectAll_safe)
          TableIo.selectAll_working opened
  | _ => exact out.elim

theorem within_of_statements {calls : List StorageCall} (kept : begun.Kept) (busy : begun.Busy)
    (reaches : Reaches (StepOut begun) begun calls middle) :
    middle.Kept ∧ Within TableIo.New begun middle := by
  apply reaches.invariant ⟨kept, Within.refl kept⟩
  rintro state call after ⟨keptThere, within⟩ ⟨out, -, rfl⟩
  exact within.perform keptThere busy out

/-- The tables that were open before the transaction answer as they did then, and the others
have no rows. -/
structure Emptied (before after : Storage) : Prop where
  old : Undone before after
  new : ∀ name table, before.tableAt name = none → after.tableAt name = some table →
    ∃ headers, (Storage.selectAll name after).1 = .ok (headers, [])

/-- From every storage at rest that calls lead to which open no file twice, and whose files give
the root pages of their tables: begin, statements that put no row in a table created since then,
and rollback leave nothing of any row that was inserted. -/
theorem rollback_empties {host : Host} {dir : String → Option Disk}
    {calls statements : List StorageCall} (reached : Reaches StepApart (new host dir []) calls state)
    (rest : state.AtRest) (rooted : state.Rooted) (started : Storage.begin state = (.ok (), begun))
    (ran : Reaches (StepOut begun) begun statements middle) :
    (Storage.rollback middle).1 = .ok () ∧ Emptied state (Storage.rollback middle).2 := by
  have kept := reaches_kept reached
  obtain ⟨begun', started', begunKept, busy, opened⟩ := begin_ok kept rest
  obtain rfl : begun = begun' := congrArg Prod.snd (started.symm.trans started')
  obtain ⟨-, within⟩ := within_of_statements begunKept busy ran
  obtain ⟨restored, ended, -, restAfter, old, fresh⟩ :=
    rollback_ok kept rest rooted opened within fun table new _ => new.rollback
  rw [ended]
  refine ⟨rfl, undone_of_restored kept restAfter old, ?_⟩
  intro name after absent found
  obtain ⟨table, there, restoredTable⟩ := fresh name after absent found
  have new := within.new name table (by rw [opened, absent]; rfl) there
  obtain ⟨last, ran, -⟩ := selectAll_empty found (new.empty.restored restoredTable)
  exact ⟨_, congrArg Prod.fst ran⟩

/-- Whatever is dirty at begin and whatever page 0 of the files gives: if the rollback succeeds, the
tables that were open at begin are as their files had them then, without any row that was inserted
since, and the tables created since have no rows. -/
theorem rollback_forgets {host : Host} {dir : String → Option Disk}
    {calls statements : List StorageCall} (reached : Reaches StepApart (new host dir []) calls state)
    (started : Storage.begin state = (.ok (), begun))
    (ran : Reaches (StepOut begun) begun statements middle)
    (ended : (Storage.rollback middle).1 = .ok ()) :
    (∀ name table, state.tableAt name = some table → ∃ root after,
      (Storage.rollback middle).2.tableAt name = some after ∧ TableIo.Reread root table after) ∧
    ∀ name table, state.tableAt name = none →
      (Storage.rollback middle).2.tableAt name = some table →
      ∃ headers, (Storage.selectAll name (Storage.rollback middle).2).1 = .ok (headers, []) := by
  have kept := reaches_kept reached
  obtain ⟨begun', started', begunKept, busy, opened⟩ :=
    begin_opens kept (begin_idle kept (congrArg Prod.fst started))
  obtain rfl : begun = begun' := congrArg Prod.snd (started.symm.trans started')
  obtain ⟨middleKept, within⟩ := within_of_statements begunKept busy ran
  obtain ⟨old, fresh⟩ := rollback_returned middleKept within ended
  constructor
  · intro name table found
    obtain ⟨root, after, there, reread⟩ := old name table.begun (by rw [opened, found]; rfl)
    exact ⟨root, after, there, { reread with }⟩
  · intro name after absent found
    obtain ⟨table, new, there, rolledBack⟩ :=
      fresh name after (by rw [opened, absent]; rfl) found
    obtain ⟨restored, same, restoredTable⟩ := new.rollback
    obtain rfl := congrArg Prod.snd (rolledBack.symm.trans same)
    obtain ⟨last, ran, -⟩ := selectAll_empty found (new.empty.restored restoredTable)
    exact ⟨_, congrArg Prod.fst ran⟩

/-- A table is created in a transaction, and a row is inserted in another one. -/
theorem rollback_empties_created :
    ∃ state begun middle, (Storage.selectAll "a" state).1 = .ok (["id"], []) ∧
      Storage.begin state = (.ok (), begun) ∧
      Reaches (StepOut begun) begun [.createTable "b" [], .insert "a" [.integer 8]] middle ∧
      (Storage.rollback middle).1 = .ok () ∧ Emptied state (Storage.rollback middle).2 := by
  have answers : (createTable "a" [⟨"id", .integer⟩] emptyStorage).1 = .ok () ∧
      (Storage.selectAll "a" (createTable "a" [⟨"id", .integer⟩] emptyStorage).2).1 =
        .ok (["id"], []) ∧
      (Storage.begin (createTable "a" [⟨"id", .integer⟩] emptyStorage).2).1 = .ok () ∧
      (performAll [.createTable "b" [], .insert "a" [.integer 8]]
        (Storage.begin (createTable "a" [⟨"id", .integer⟩] emptyStorage).2).2).1 = .ok () ∧
      ((Storage.begin (createTable "a" [⟨"id", .integer⟩] emptyStorage).2).2.filesAt
        "b.db").recovered.pageCount < 2 ^ 32 ∧
      (Storage.begin (createTable "a" [⟨"id", .integer⟩] emptyStorage).2).2.fileOf "b" = "b.db" := by
    decide +kernel
  obtain ⟨created, empty, started, inserted, few, file⟩ := answers
  have closedEmpty (path : String) : emptyStorage.Closed path := by
    intro name table found
    cases found
  have tables := @createTable_tables emptyStorage "a" [⟨"id", .integer⟩] (kept_new _ _)
    (Or.inr (closedEmpty _)) (by decide)
  generalize reached : (createTable "a" [⟨"id", .integer⟩] emptyStorage).2 = state at *
  have ran : StorageCall.perform (.createTable "a" [⟨"id", .integer⟩]) emptyStorage = (.ok (), state) :=
    Prod.ext created reached
  obtain ⟨-, table, new, path, tables⟩ := tables.resolve_left (by simp [created])
  have only (name : String) (there : TableIo) (found : state.tableAt name = some there) :
      name = "a" ∧ there = table := by
    rw [tables] at found
    by_cases same : name = "a"
    · rw [same, Function.update_self] at found
      exact ⟨same, (Option.some.inj found).symm⟩
    · rw [Function.update_of_ne same] at found
      cases found
  have statement : (StorageCall.createTable "a" [⟨"id", .integer⟩]).IsStatement := trivial
  have rest := ((atRest_new _ _).perform rfl statement ran).1
  have rooted : state.Rooted := by
    intro name there found
    obtain ⟨-, rfl⟩ := only name there found
    exact new.rooted
  have step : StepApart emptyStorage (.createTable "a" [⟨"id", .integer⟩]) state :=
    ⟨Or.inr (closedEmpty _), step_ok ran⟩
  have reachedState := Reaches.refl.next step
  obtain ⟨begun, ran', -, -, opened⟩ := begin_ok (reaches_kept reachedState) rest
  rw [ran'] at inserted few file
  rw [← file] at few
  obtain ⟨⟨⟩, second, createdThere, later⟩ :=
    Exec.bind_eq_ok.mp (show performAll _ begun = (.ok (), _) from Prod.ext inserted rfl)
  obtain ⟨⟨⟩, third, insertedThere, ended⟩ := Exec.bind_eq_ok.mp later
  have closed : begun.Closed (begun.fileOf "b") := by
    intro name there found
    rw [opened] at found
    obtain ⟨start, stands, rfl⟩ := Option.map_eq_some_iff.mp found
    obtain ⟨-, rfl⟩ := only name start stands
    rw [show start.begun.store.path = start.store.path from rfl, path, file]
    decide
  have present : begun.tableAt "a" ≠ none := by
    rw [opened, tables, Function.update_self]
    simp
  have first : StepOut begun begun (.createTable "b" []) second :=
    ⟨⟨Or.inr closed, few⟩, step_ok createdThere⟩
  have next : StepOut begun second (.insert "a" [.integer 8]) third :=
    ⟨fun absent => absurd absent present, step_ok insertedThere⟩
  have statements := (Reaches.refl.next first).next next
  exact ⟨state, begun, third, empty, ran', statements,
    rollback_empties reachedState rest rooted ran' statements⟩

/-- A row in a table created in the transaction is there after the rollback. -/
theorem rollback_keeps_created :
    ∃ begun middle, Storage.begin emptyStorage = (.ok (), begun) ∧
      Reaches Step begun [.createTable "a" [⟨"id", .integer⟩], .insert "a" [.integer 7]] middle ∧
      (Storage.rollback middle).1 = .ok () ∧ ¬ Emptied emptyStorage (Storage.rollback middle).2 := by
  have answers : (Storage.begin emptyStorage).1 = .ok () ∧
      (performAll [.createTable "a" [⟨"id", .integer⟩], .insert "a" [.integer 7]]
        (Storage.begin emptyStorage).2).1 = .ok () ∧
      (Storage.rollback (performAll [.createTable "a" [⟨"id", .integer⟩], .insert "a" [.integer 7]]
        (Storage.begin emptyStorage).2).2).1 = .ok () ∧
      (Storage.selectAll "a" (Storage.rollback
        (performAll [.createTable "a" [⟨"id", .integer⟩], .insert "a" [.integer 7]]
          (Storage.begin emptyStorage).2).2).2).1 = .ok (["id"], [⟨[.integer 7]⟩]) := by
    decide +kernel
  obtain ⟨started, succeeds, ended, row⟩ := answers
  generalize reached : (performAll [.createTable "a" [⟨"id", .integer⟩], .insert "a" [.integer 7]]
    (Storage.begin emptyStorage).2).2 = middle at ended row
  refine ⟨(Storage.begin emptyStorage).2, middle, Prod.ext started rfl,
    reaches_performAll (Prod.ext succeeds reached) fun _ _ _ => step_ok, ended, fun emptied => ?_⟩
  rcases found : (Storage.rollback middle).2.tableAt "a" with _ | table
  · rw [Storage.selectAll, onTable_missing found] at row
    cases row
  · obtain ⟨headers, none⟩ := emptied.new "a" table rfl found
    rw [row] at none
    simp at none

end Storage

end MukhiDb.Model
