import MukhiDb.Storage.Invariants
import MukhiDb.Storage.NewTable
import MukhiDb.Storage.Trees

/-!
Contract: the tables of a storage over a directory that was empty.

Owns: the invariant that every table has two trees, in a file of its own, and that all
other files are empty; and the calls that keep it.

Does not own: which rows make leaves split in parts that fit, and tables that were there before.
-/

namespace MukhiDb.Model

open MukhiDb.Foundation
open BTree (Tree)

/-! ### One table -/

namespace TableIo

/-- The pager and the file of a table hold a tree each. -/
def Stands (rows : Bytes → Prop) (table : TableIo) : Prop :=
  ∃ columns live saved, Trees rows columns live saved table

section Stands

variable {rows : Bytes → Prop} {table : TableIo} {length : Nat}

theorem Stands.quiet (stands : Stands rows table) : table.io.Quiet := by
  obtain ⟨columns, live, saved, trees⟩ := stands
  exact trees.quiet

/-- The leaves of a table with rows of one length split into parts that fit. -/
theorem Trees.splitsFit {columns : List Column} {live saved : Tree}
    (trees : Trees (fun row => row.length = length) columns live saved table) {key : Int64} {buf : Bytes}
    (same : buf.length = length) (short : buf.length ≤ BTree.maxRowDataSize) :
    SplitsFit live key buf := by
  have linked := trees.working.held.linked
  intro full
  apply BTree.splitFits_uniform _ (trees.working.fits _ (BTree.target_held linked key))
    (BTree.nonempty_of_full short full)
  · exact length
  · intro cell member
    rcases List.mem_cons.mp member with rfl | inside
    · exact same
    · exact trees.working.rows cell (BTree.target_subset linked key cell inside)

/-- An insert whose row, if it is accepted, is as required, and goes in a leaf that does not need to
be split or splits in parts that fit. -/
theorem Stands.insert_fits {values : List Value} (stands : Stands rows table)
    (fine : ∀ columns live saved, Trees rows columns live saved table →
      ∀ key buf, encodeRow table.store.columns values = .ok (key, buf) →
        buf.length ≤ BTree.maxRowDataSize → rows buf ∧ SplitsFit live key buf) :
    Stands rows (TableIo.insert values table).2 := by
  unfold TableIo.insert
  rw [Exec.bind_ok (Exec.run_get table)]
  rcases encoded : encodeRow table.store.columns values with fault | ⟨key, buf⟩
  · exact stands
  · obtain ⟨columns, live, saved, trees⟩ := stands
    obtain ⟨accepted, rfl, -⟩ := encodeRow_ok encoded
    obtain ⟨known, fits⟩ := fine columns live saved trees key _ encoded accepted.short
    obtain ⟨after, ran, next⟩ := trees.insertRow_ok accepted.short known fits rfl
    change Stands _ (insertRow key (rowBytes values) table).2
    rw [ran]
    exact ⟨columns, _, _, next⟩

/-- An insert whose row, if it is accepted, has the length of the others. -/
theorem Stands.insert (stands : Stands (fun row => row.length = length) table) {values : List Value}
    (uniform : ∀ key buf, encodeRow table.store.columns values = .ok (key, buf) →
      buf.length = length) :
    Stands (fun row => row.length = length) (TableIo.insert values table).2 :=
  stands.insert_fits fun _ _ _ trees key buf encoded short =>
    have same := uniform key buf encoded
    ⟨same, trees.splitsFit same short⟩

theorem Stands.readOnly (stands : Stands rows table) {α : Type} {program : PageProgram α}
    (readOnly : program.ReadOnly) : Stands rows (onPages program table).2 := by
  obtain ⟨columns, live, saved, trees⟩ := stands
  exact ⟨columns, live, saved, trees.readOnly readOnly⟩

theorem Stands.selectAll (stands : Stands rows table) : Stands rows (TableIo.selectAll table).2 := by
  rw [selectAll_state]
  exact stands.readOnly (BTree.readOnly_scanAll table.store.rootPage)

theorem Stands.dumpBtree (stands : Stands rows table) : Stands rows (TableIo.dumpBtree table).2 :=
  stands.readOnly (BTree.readOnly_dumpTree _ _ _)

theorem Stands.begin (stands : Stands rows table) : Stands rows (TableIo.begin table).2 := by
  obtain ⟨columns, live, saved, trees⟩ := stands
  exact ⟨columns, live, saved, trees.begin⟩

theorem Stands.commit (stands : Stands rows table) : Stands rows (TableIo.commit table).2 := by
  obtain ⟨columns, live, saved, trees⟩ := stands
  obtain ⟨ran, ended⟩ := trees.commit_ok
  unfold TableIo.commit
  rw [ran]
  exact ⟨columns, live, live, ended⟩

theorem Stands.rollback (stands : Stands rows table) : Stands rows (TableIo.rollback table).2 := by
  obtain ⟨columns, live, saved, trees⟩ := stands
  obtain ⟨after, ran, ended, -⟩ := trees.rollback_ok
  rw [ran]
  exact ⟨columns, saved, saved, ended⟩

end Stands

end TableIo

/-! ### All tables -/

namespace Storage

variable {rows : String → Bytes → Prop} {state : Storage} {name : String}

/-- Every table stands in a file of its own, and the files that no table has open are empty. -/
structure Standing (rows : String → Bytes → Prop) (state : Storage) : Prop where
  each : Each (fun name table => table.Stands (rows name)) state
  unopened : ∀ file, state.Closed file → state.filesAt file = ⟨[], []⟩

/-- A table that stands in a file that no other table has open is put in. -/
theorem Standing.put {table : TableIo} (standing : Standing rows state)
    (unused : state.Unused name table.store.path) (stands : table.Stands (rows name))
    (had : ∀ there, state.tableAt name = some there → there.store.path = table.store.path) :
    Standing rows (state.put name table) where
  each := standing.each.put stands stands.quiet unused
  unopened := by
    intro file closed
    have still : table.schedule = state.schedule := Eq.trans stands.quiet standing.each.quiet.symm
    have tables := tableAt_put unused still
    have apart : file ≠ table.store.path := fun same =>
      closed name table tableAt_put_self same.symm
    rw [filesAt_put, if_neg apart]
    refine standing.unopened file fun other there found same => ?_
    by_cases here : other = name
    · subst here
      exact apart (same.symm.trans (had there found))
    · refine closed other there ?_ same
      rw [tables, Function.update_of_ne here]
      exact found

/-- A call on one table, whatever it returns. -/
theorem Standing.onTable {α : Type} {call : Exec TableIo α} (standing : Standing rows state)
    (samePath : Exec.Preserves TableIo.SamePath call)
    (keeps : ∀ table, state.tableAt name = some table → table.Stands (rows name) →
      (call table).2.Stands (rows name)) (missing : Fault) :
    Standing rows (onTable name missing call state).2 := by
  rcases found : state.tableAt name with _ | table
  · rw [onTable_missing found]
    exact standing
  · rw [onTable_found found samePath]
    refine standing.put (standing.each.apart.unused found (samePath table))
      (keeps table found (standing.each.tables name table found)) fun there same => ?_
    obtain rfl := Option.some.inj (found.symm.trans same)
    exact (samePath table).symm

theorem Standing.forAll {call : Exec TableIo Unit} (standing : Standing rows state)
    (samePath : Exec.Preserves TableIo.SamePath call)
    (keeps : ∀ name table, table.Stands (rows name) → (call table).2.Stands (rows name)) :
    Standing rows (forAll call state).2 :=
  forAll_keeps (fun name _ standing =>
    standing.onTable samePath (fun table _ => keeps name table) .panic) standing

/-- A table with metadata that fits is created, unless there is one of the name. -/
theorem Standing.createTable_ok {columns : List Column} (standing : Standing rows state)
    (absent : state.tableAt name = none) (closed : state.Closed (state.fileOf name))
    (small : MetadataFits columns) :
    ∃ table, createTable name columns state =
        (.ok (), (state.withFiles (state.fileOf name) ⟨[], []⟩).put name table) ∧
      table.store.path = state.fileOf name ∧ table.store.pager.inTransaction = false ∧
      TableIo.Trees (rows name) columns (BPlusTree.single 1) (BPlusTree.single 1) table ∧
      table.io.count = 2 ∧ table.disk.log = [] ∧ table.disk.pageCount = 2 := by
  have files := standing.unopened _ closed
  have recovered : (state.filesAt (state.fileOf name)).recovered = ⟨[], []⟩ := by
    rw [files]
    exact Disk.recovered_of_empty rfl
  have ready : state.ReadyFor name :=
    { quiet := standing.each.quiet
      fresh := absent
      aligned := by
        rw [files]
        rfl
      room := by
        rw [recovered]
        decide }
  have count : (state.creating (state.fileOf name)).io.count = 0 := by
    rw [ready.count, recovered]
    rfl
  obtain ⟨table, made, path, idle, trees, sizes⟩ :=
    @TableIo.trees_create (rows name) columns _ ready.sound count rfl small
  refine ⟨table, ?_, path, idle, trees, sizes⟩
  rw [createTable_aligned ready.quiet absent ready.aligned]
  refine (addTable_ok made path).trans ?_
  rw [recovered]

theorem Standing.createTable {columns : List Column} (standing : Standing rows state)
    (closed : (StorageCall.createTable name columns).OpensClosed state)
    (small : MetadataFits columns) : Standing rows (createTable name columns state).2 := by
  rcases opened : state.tableAt name with _ | there
  · have closed : state.Closed (state.fileOf name) :=
      closed.resolve_left (by rw [tableAt_eq_none.mp opened]; simp)
    obtain ⟨table, ran, path, -, trees, -⟩ := standing.createTable_ok opened closed small
    have tables := tableAt_withFiles closed ⟨[], []⟩
    have closedNext : (state.withFiles (state.fileOf name) ⟨[], []⟩).Closed (state.fileOf name) := by
      unfold Closed
      rw [tables]
      exact closed
    rw [ran]
    have started : Standing rows (state.withFiles (state.fileOf name) ⟨[], []⟩) :=
      { each := standing.each.withFiles closed _
        unopened := by
          intro file unopened
          by_cases same : file = state.fileOf name
          · rw [same, filesAt_withFiles]
          · have still : (state.withFiles (state.fileOf name) ⟨[], []⟩).filesAt file =
                state.filesAt file := by
              simp [withFiles, filesAt, same]
            rw [still]
            unfold Closed at unopened
            rw [tables] at unopened
            exact standing.unopened file unopened }
    refine started.put (path ▸ closedNext.unused) ⟨columns, _, _, trees⟩ fun there found => ?_
    rw [tables, opened] at found
    cases found
  · have taken : (state.tables.lookup name).isSome = true := by
      rw [tableAt_store opened]
      rfl
    unfold Storage.createTable
    rw [Exec.bind_ok (Exec.run_get state), if_pos taken]
    exact standing

theorem standing_new (host : Host) : Standing rows (new host (fun _ => none) []) where
  each :=
    { quiet := rfl
      apart := (kept_new host _).apart
      tables := by
        intro name table found
        cases found }
  unopened := fun _ _ => rfl

theorem closed_new (host : Host) (dir : String → Option Disk) (file : String) :
    (new host dir []).Closed file := by
  intro name table found
  cases found

end Storage

/-! ### Small tables -/

namespace Storage

theorem metadataFits_one {name : String} {dataType : DataType}
    (short : (utf8Bytes name).length ≤ 255) : MetadataFits [⟨name, dataType⟩] where
  size := by
    have length : (⟨name, dataType⟩ : Column).storedLength ≤ 255 := Nat.min_le_right _ _
    have sizes : metaColsOffset = 8 ∧ pageSize = 4096 := ⟨rfl, rfl⟩
    simp only [List.map_cons, List.map_nil, List.sum_cons, List.sum_nil]
    omega
  names := by
    intro column member
    obtain rfl := List.mem_singleton.mp member
    exact Or.inl short

theorem metadataFits_id : MetadataFits [⟨"id", .integer⟩] := metadataFits_one (by decide)

theorem metadataFits_text : MetadataFits [⟨"t", .text⟩] := metadataFits_one (by decide)

end Storage

end MukhiDb.Model
