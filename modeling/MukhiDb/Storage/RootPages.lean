import MukhiDb.Storage.Contents
import MukhiDb.Storage.Flags
import MukhiDb.Storage.Standing

/-!
Contract: the root pages of the tables of a storage over a directory that was empty.

Owns: what it means that page 0 gives the root page and the columns of a table and that pointers
stay in its pages; that it is so after every run of calls, with rows of one length for each
table, which opens no file twice; and two names that lead to one file, for which it fails.

Does not own: rows of different lengths, and tables that were there before.
-/

namespace MukhiDb.Model

open MukhiDb.Foundation
open BTree (Tree)

/-! ### Root pages and pointers -/

namespace TableIo

/-- A page of the table, as the table reads it, points to another page. -/
def Points (table : TableIo) (page target : Nat) : Prop :=
  ∃ contents, (onPages (BTree.getPage page) table).1 = .ok contents ∧
    BTree.PointsTo contents target

/-- Page 0 gives the root page and the columns that the table has in memory, and the pages that
pointers lead to from the root are pages of the table after page 0. -/
structure WellRooted (table : TableIo) : Prop where
  metadata : (onPages readMetadata table).1 = .ok (table.store.rootPage, table.store.columns)
  root : table.store.rootPage ≠ 0
  pointers : ∀ page target, Relation.ReflTransGen table.Points table.store.rootPage page →
    table.Points page target → target ≠ 0 ∧ target < table.store.pager.numPages

theorem Trees.wellRooted {rows : Bytes → Prop} {columns : List Column} {live saved : Tree}
    {table : TableIo} (trees : Trees rows columns live saved table) : table.WellRooted := by
  have held := trees.working.held
  have shows := PagerIo.shows_book trees.sound
  have length := PagerIo.book_length table.io
  -- what the table reads is the page of its book
  have reads {page target : Nat} (points : table.Points page target) :
      BTree.PointsTo (binding.at_ table.io.book page) target := by
    obtain ⟨contents, found, points⟩ := points
    by_cases below : page < binding.limit
    · obtain ⟨io, performed, -⟩ := PagerIo.perform_shows shows (BTree.run_getPage below) (by simp)
      unfold onPages at found
      rw [run_onPager, performed] at found
      obtain rfl := Except.ok.inj found
      exact points
    · have refused := PagerIo.loadPage_limit table.io (Nat.le_of_not_lt below)
      have failed : (onPages (BTree.getPage page) table).1 =
          .error (.error (Pager.pageLimitMessage page)) :=
        congrArg Prod.fst (Exec.bind_error refused)
      rw [failed] at found
      cases found
  have inTree {page : Nat} (leads : Relation.ReflTransGen table.Points table.store.rootPage page) :
      page ∈ live.pages := by
    rw [trees.root] at leads
    exact held.leadsTo (Relation.ReflTransGen.mono (fun _ _ => reads) _ _ leads)
  refine ⟨?_, ?_, ?_⟩
  · obtain ⟨io, performed, -⟩ :=
      PagerIo.perform_shows shows (run_readMetadata_book trees.working) (by simp)
    unfold onPages
    rw [run_onPager, performed, trees.root, trees.schema]
  · intro zero
    rw [trees.root] at zero
    exact zero_outside held (zero ▸ BTree.root_mem held.linked)
  · intro page target leads points
    have member := held.pointsTo (inTree leads) (reads points)
    have inside := (held.linked.within target member).2
    refine ⟨fun zero => zero_outside held (zero ▸ member), ?_⟩
    rw [length] at inside
    rw [show table.store.pager.numPages = table.io.count from trees.sound.numPages]
    exact inside

end TableIo

/-! ### Runs -/

/-- Tables are created with metadata that fits, and a row that is accepted has the length that its
table's rows have. -/
def StorageCall.Uniform (lengths : String → Nat) : StorageCall → Storage → Prop
  | createTable _ columns, _ => MetadataFits columns
  | insert name values, state => ∀ table, state.tableAt name = some table →
      ∀ key buf, TableIo.encodeRow table.store.columns values = .ok (key, buf) →
        buf.length = lengths name
  | openTable _ _, _ => False
  | _, _ => True

namespace Storage

variable {lengths : String → Nat} {state after : Storage}

/-- A call with rows of one length for each table, whatever it returns. -/
def StepUniform (lengths : String → Nat) (state : Storage) (call : StorageCall) (after : Storage) :
    Prop :=
  call.Uniform lengths state ∧ after = (call.perform state).2

/-- Such a call that creates no table in a file that a table has open. -/
def StepUniformApart (lengths : String → Nat) (state : Storage) (call : StorageCall)
    (after : Storage) : Prop :=
  call.OpensClosed state ∧ StepUniform lengths state call after

/-- What a call does to a storage is kept when its answer is dropped. -/
theorem Standing.discard {rows : String → Bytes → Prop} {α : Type} {call : Exec Storage α}
    (standing : Standing rows (call state).2) :
    Standing rows ((do let _ ← call : Exec Storage Unit) state).2 := by
  rwa [discard_after]

theorem Standing.perform {call : StorageCall}
    (standing : Standing (fun name row => row.length = lengths name) state)
    (uniform : call.Uniform lengths state) (closed : call.OpensClosed state) :
    Standing (fun name row => row.length = lengths name) (call.perform state).2 := by
  cases call with
  | openTable name path => exact uniform.elim
  | createTable name columns => exact standing.createTable closed uniform
  | insert name values =>
      exact standing.onTable (TableIo.Safe.samePath (TableIo.insert_safe values))
        (fun table found stands => stands.insert (uniform table found)) _
  | selectAll name =>
      exact Standing.discard (standing.onTable (TableIo.Safe.samePath TableIo.selectAll_safe)
        (fun table _ stands => stands.selectAll) _)
  | dumpBtree name =>
      exact Standing.discard (standing.onTable (TableIo.Safe.samePath TableIo.dumpBtree_safe)
        (fun table _ stands => stands.dumpBtree) _)
  | begin =>
      exact standing.forAll (TableIo.Safe.samePath TableIo.begin_safe) fun name table stands =>
        stands.begin
  | commit =>
      exact standing.forAll (TableIo.Safe.samePath TableIo.commit_safe) fun name table stands =>
        stands.commit
  | rollback =>
      exact standing.forAll (TableIo.Safe.samePath TableIo.rollback_safe) fun name table stands =>
        stands.rollback

theorem reaches_standing {host : Host} {calls : List StorageCall}
    (reaches : Reaches (StepUniformApart lengths) (new host (fun _ => none) []) calls state) :
    Standing (fun name row => row.length = lengths name) state := by
  apply reaches.invariant (standing_new host)
  rintro before call after standing ⟨closed, uniform, rfl⟩
  exact standing.perform uniform closed

/-- In every storage that such calls lead to from an empty directory, as long as no table is created
in a file that a table has open, every table has the root page and the columns that page 0
gives, and its pointers stay in its pages. -/
theorem reaches_wellRooted {host : Host} {calls : List StorageCall}
    (reaches : Reaches (StepUniformApart lengths) (new host (fun _ => none) []) calls state) :
    ∀ name table, state.tableAt name = some table → table.WellRooted := by
  intro name table found
  obtain ⟨columns, live, saved, trees⟩ := (reaches_standing reaches).each.tables name table found
  exact trees.wellRooted

/-- A table that is created and takes in a row. -/
theorem reaches_wellRooted_row :
    ∃ state, Reaches (StepUniformApart fun _ => 8) (new (Host.startingWith "t") (fun _ => none) [])
        [.createTable "t" [⟨"id", .integer⟩], .insert "t" [.integer 7]] state ∧
      ∃ table, state.tableAt "t" = some table ∧ table.WellRooted := by
  obtain ⟨table, made, -⟩ :=
    (@standing_new (fun _ _ => True) (Host.startingWith "t")).createTable_ok
      (tableAt_eq_none.mpr (Finmap.lookup_empty "t")) (closed_new _ _ _) metadataFits_id
  have created : StepUniformApart (fun _ => 8) (new (Host.startingWith "t") (fun _ => none) [])
      (.createTable "t" [⟨"id", .integer⟩]) _ :=
    ⟨Or.inr (closed_new _ _ _), metadataFits_id, congrArg Prod.snd made.symm⟩
  have inserted (state : Storage) : StepUniformApart (fun _ => 8) state (.insert "t" [.integer 7])
      (StorageCall.perform (.insert "t" [.integer 7]) state).2 := by
    refine ⟨trivial, fun there _ key buf encoded => ?_, rfl⟩
    obtain ⟨-, rfl, -⟩ := encodeRow_ok encoded
    decide
  have reaches := (Reaches.refl.next created).next (inserted _)
  obtain ⟨after, found⟩ : ∃ after, (StorageCall.perform (.insert "t" [.integer 7])
      ((Storage.withFiles "t.db" ⟨[], []⟩ (new (Host.startingWith "t") (fun _ => none) [])).put "t"
        table)).2.tableAt "t" =
      some after := by
    change ∃ after, (onTable "t" _ _ _).2.tableAt "t" = some after
    rw [onTable_found tableAt_put_self (TableIo.Safe.samePath (TableIo.insert_safe _))]
    exact ⟨_, tableAt_put_self⟩
  exact ⟨_, reaches, after, found, reaches_wellRooted reaches "t" after found⟩

end Storage

/-! ### Two names for one file -/

namespace Storage

/-- A row of one text, three of which do not fit in a leaf. -/
def longRow : List Value := [.text (String.ofList (List.replicate 1400 'a'))]

theorem textRow_size (text : String) :
    serializedSize ⟨[.text text]⟩ [⟨"t", .text⟩] = 4 + (utf8Bytes text).length := rfl

theorem longRow_size : serializedSize ⟨longRow⟩ [⟨"t", .text⟩] = 1404 := by
  unfold longRow
  rw [textRow_size, utf8Bytes_repeated]

theorem longRow_admits : TableView.Admits [⟨"t", .text⟩] longRow where
  typed := .cons trivial .nil
  short := by
    rw [longRow_size]
    decide

theorem longRow_encoded : TableIo.encodeRow [⟨"t", .text⟩] longRow = .ok (0, rowBytes longRow) :=
  encodeRow_admits longRow_admits

theorem longRow_bytes : (rowBytes longRow).length = 1404 := by
  obtain ⟨accepted, -⟩ := encodeRow_ok longRow_encoded
  rw [rowBytes_length accepted.arity accepted.typed]
  exact longRow_size

end Storage

namespace TableIo

variable {rows : Bytes → Prop} {columns : List Column} {live saved : Tree} {table : TableIo}

/-- Page 0 is dirty when the tree in the file has another root. -/
theorem Trees.dirty_zero (trees : Trees rows columns live saved table) (moved : live.root ≠ saved.root) :
    table.store.pager.dirty 0 = true := by
  by_contra clean
  have coherent := trees.sound.coherent
  have same : table.io.view 0 = table.disk.page 0 := by
    unfold PagerIo.view
    cases cached : table.io.pager.pages 0 with
    | none => rfl
    | some page => exact coherent.clean 0 page cached (Bool.eq_false_iff.mpr clean)
  have working := trees.working.metadata
  have stored := trees.stored.metadata
  rw [PagerIo.at_book coherent, same] at working
  rw [Disk.at_book (zero_inside trees.stored.held), working] at stored
  exact moved (congrArg Prod.fst (Except.ok.inj stored))

/-- A rollback that gives up page 0 reads it from the file. -/
theorem rollback_rereads (quiet : table.io.Quiet) (dirty : table.store.pager.dirty 0 = true)
    {metadata : Nat × List Column} (decoded : decodeMetadata (table.disk.page 0) = .ok metadata) :
    ∃ after, rollback table = (.ok (), after) ∧ after.store.columns = table.store.columns ∧
      after.store.pager.pages 0 = some (table.disk.page 0) := by
  have still : table.io.rolledBack.Quiet := quiet
  have missing : table.io.rolledBack.pager.pages 0 = none := if_pos dirty
  have found : table.io.rolledBack.reads 0 = .ok (table.disk.page 0) := by
    rw [PagerIo.reads_missing (by decide) missing]
    unfold PagerIo.stored
    by_cases inside : 0 < table.disk.pageCount
    · have whole : (0 + 1) * pageSize ≤ table.io.rolledBack.pager.fileLength :=
        (table.disk.page_inside_iff 0).mpr inside
      rw [if_pos whole, if_pos (show 0 < table.io.rolledBack.disk.pageCount from inside)]
      rfl
    · have short : ¬ (0 + 1) * pageSize ≤ table.io.rolledBack.pager.fileLength :=
        mt (table.disk.page_inside_iff 0).mp inside
      rw [if_neg short, Disk.page_of_le (Nat.le_of_not_lt inside)]
  have loaded : onPages readMetadata (table.withIo table.io.rolledBack) =
      (.ok metadata, table.withIo (Pager.cachePage 0 (table.disk.page 0) table.io.rolledBack)) := by
    unfold onPages
    rw [run_onPager, io_withIo, run_readMetadata, PagerIo.loadPage_quiet still, found,
      PagerIo.loaded_ok found]
    exact congrArg (·, _) decoded
  have first : onPager Pager.rollback table = (.ok (), table.withIo table.io.rolledBack) := by
    rw [run_onPager, PagerIo.rollback_ok quiet]
  refine ⟨(table.withIo (Pager.cachePage 0 (table.disk.page 0) table.io.rolledBack)).withRoot metadata.1,
    ?_, rfl, ?_⟩
  · unfold rollback
    rw [Exec.bind_ok first, Exec.bind_ok loaded]
    rfl
  · change (Pager.cachePage 0 (table.disk.page 0) table.io.rolledBack).pager.pages 0 = _
    simp [Pager.cachePage]

/-- Page 0 is in the cache and gives other columns. -/
theorem not_wellRooted {page : Page} {metadata : Nat × List Column}
    (cached : table.store.pager.pages 0 = some page) (decoded : decodeMetadata page = .ok metadata)
    (different : metadata.2 ≠ table.store.columns) : ¬ table.WellRooted := by
  intro rooted
  have loaded : Pager.loadPage 0 table.io = (.ok page, table.io) := by
    unfold Pager.loadPage
    rw [if_neg (by decide), Exec.bind_ok (Exec.run_get table.io),
      show table.io.pager.pages 0 = some page from cached]
    rfl
  have read : (onPages readMetadata table).1 = .ok metadata := by
    unfold onPages
    rw [run_onPager, run_readMetadata, loaded]
    exact decoded
  have same := read.symm.trans rooted.metadata
  exact different (congrArg Prod.snd (Except.ok.inj same))

/-- One more long row in a transaction. -/
theorem Trees.insert_long (trees : Trees (fun row => row.length = 1404) [⟨"t", .text⟩] live saved table)
    (open_ : table.store.pager.inTransaction = true) {grown : BPlusTree.Grown Int64 Bytes}
    (grows : live.insert BTree.layout table.io.count 0 (rowBytes Storage.longRow) = grown) :
    ∃ after, (TableIo.insert Storage.longRow table).2 = after ∧
      Trees (fun row => row.length = 1404) [⟨"t", .text⟩] grown.tree saved after ∧
      after.io.count = grown.count ∧ after.store.pager.inTransaction = true ∧
      after.disk = table.disk := by
  have encoded := Storage.longRow_encoded
  obtain ⟨accepted, -⟩ := encodeRow_ok encoded
  obtain ⟨after, ran, next, count, state, wrote⟩ := trees.insertRow_runs accepted.short
    Storage.longRow_bytes (trees.splitsFit Storage.longRow_bytes accepted.short) grows
  rw [if_pos (Or.inl open_)] at next
  rw [Wrote, if_pos (Or.inl open_)] at wrote
  refine ⟨after, ?_, next, count, state.trans open_, wrote⟩
  unfold TableIo.insert
  rw [Exec.bind_ok (Exec.run_get table), trees.schema, encoded]
  exact congrArg Prod.snd ran

end TableIo

theorem Host.order_startingWith {first : String} {names : Finset String} (member : first ∈ names) :
    (Host.startingWith first).order names = first :: (names.erase first).sort (· ≤ ·) :=
  if_pos member

namespace Storage

/-- One table in a storage. -/
structure Lone (name : String) (table : TableIo) (state : Storage) : Prop where
  host : state.host = Host.startingWith name
  quiet : state.schedule = []
  tables : state.tableAt = Function.update (fun _ => none) name (some table)

variable {name : String} {table : TableIo} {state : Storage}

theorem Lone.found (lone : Lone name table state) : state.tableAt name = some table := by
  rw [lone.tables, Function.update_self]

theorem Lone.onTable {α : Type} {call : Exec TableIo α} (lone : Lone name table state)
    (samePath : Exec.Preserves TableIo.SamePath call) (quiet : (call table).2.io.Quiet)
    (missing : Fault) : Lone name (call table).2 (onTable name missing call state).2 := by
  rw [onTable_found lone.found samePath]
  refine ⟨lone.host, quiet, ?_⟩
  have unused : state.Unused name (call table).2.store.path := by
    intro other there different found
    rw [lone.tables, Function.update_of_ne different] at found
    cases found
  rw [tableAt_put unused (Eq.trans quiet lone.quiet.symm), lone.tables, Function.update_idem]

theorem Lone.visited (lone : Lone name table state) : state.visited = [name] := by
  have keys : state.tables.keys = {name} := by
    ext other
    rw [mem_keys, lone.tables, Finset.mem_singleton]
    by_cases same : other = name
    · subst same
      simp
    · simp [same]
  unfold Storage.visited
  rw [keys, lone.host]
  simp [Host.startingWith]

theorem Lone.begin (lone : Lone name table state) (quiet : (TableIo.begin table).2.io.Quiet) :
    Lone name (TableIo.begin table).2 (Storage.begin state).2 := by
  have next := lone.onTable (TableIo.Safe.samePath TableIo.begin_safe) quiet .panic
  unfold Storage.begin forAll
  rw [Exec.bind_ok (Exec.run_get state), lone.visited]
  unfold forEach
  rcases ran : Storage.onTable name .panic TableIo.begin state with ⟨_ | _, after⟩
  · rw [Exec.bind_error ran]
    rwa [ran] at next
  · rw [Exec.bind_ok ran]
    rwa [ran] at next

theorem rowBytes_longRow : rowBytes longRow = leBytes 4 1400 ++ List.replicate 1400 97 := by
  have single : String.utf8EncodeChar 'a' = [97] := by decide
  have text : utf8Bytes (String.ofList (List.replicate 1400 'a')) = List.replicate 1400 97 := by
    unfold utf8Bytes
    rw [String.toList_ofList, List.flatMap_replicate, single, List.flatten_replicate_singleton]
  unfold longRow rowBytes
  rw [List.flatMap_cons, List.flatMap_nil, List.append_nil]
  dsimp only [valueBytes]
  rw [text, List.length_replicate]

/-- The third long row splits the root of a new table. -/
theorem root_longRows :
    ∃ first second third : BPlusTree.Grown Int64 Bytes,
      (BPlusTree.single 1 : Tree).insert BTree.layout 2 0 (rowBytes longRow) = first ∧
      first.tree.insert BTree.layout first.count 0 (rowBytes longRow) = second ∧
      second.tree.insert BTree.layout second.count 0 (rowBytes longRow) = third ∧
      third.tree.root = 3 := by
  refine ⟨_, _, _, rfl, rfl, rfl, ?_⟩
  rw [rowBytes_longRow]
  decide +kernel

/-- The table `a` was created in an empty directory. -/
theorem lone_created :
    ∃ table state, StepUniform (fun _ => 1404) (new (Host.startingWith "a") (fun _ => none) [])
        (.createTable "a" [⟨"t", .text⟩]) state ∧
      Lone "a" table state ∧ table.store.path = "a.db" ∧
      table.store.pager.inTransaction = false ∧
      TableIo.Trees (fun row => row.length = 1404) [⟨"t", .text⟩] (BPlusTree.single 1)
        (BPlusTree.single 1) table ∧
      table.io.count = 2 ∧ table.disk.log = [] ∧ table.disk.pageCount = 2 := by
  obtain ⟨made, ran, path, idle, trees, count, log, pages⟩ :=
    (@standing_new (fun _ row => row.length = 1404) (Host.startingWith "a")).createTable_ok
      (tableAt_eq_none.mpr (Finmap.lookup_empty "a")) (closed_new _ _ _) metadataFits_text
  refine ⟨made, _, ⟨metadataFits_text, congrArg Prod.snd ran.symm⟩, ⟨rfl, trees.quiet, ?_⟩,
    path.trans (by decide), idle, trees, count, log, pages⟩
  have unused : (withFiles ((new (Host.startingWith "a") (fun _ => none) []).fileOf "a") ⟨[], []⟩
      (new (Host.startingWith "a") (fun _ => none) [])).Unused "a" made.store.path := by
    intro other there _ found
    cases found
  rw [tableAt_put unused trees.quiet]
  rfl

/-- A transaction begins on the table alone. -/
theorem begin_lone {table : TableIo}
    (trees : TableIo.Trees (fun row => row.length = 1404) [⟨"t", .text⟩] live saved table)
    (idle : table.store.pager.inTransaction = false) :
    (TableIo.begin table).2.store.pager.inTransaction = true ∧
      (TableIo.begin table).2.disk = table.disk ∧ (TableIo.begin table).2.io.count = table.io.count ∧
      (TableIo.begin table).2.store.path = table.store.path ∧
      TableIo.Trees (fun row => row.length = 1404) [⟨"t", .text⟩] live saved
        (TableIo.begin table).2 := by
  have next := trees.begin
  unfold TableIo.begin at next ⊢
  rw [TableIo.run_onPager, @PagerIo.begin_ok table.io idle] at next ⊢
  exact ⟨rfl, rfl, rfl, rfl, next⟩

/-- A long row goes into the table alone. -/
theorem Lone.insert {table after : TableIo} {state : Storage} (lone : Lone "a" table state)
    (ran : (TableIo.insert longRow table).2 = after) (quiet : after.io.Quiet) :
    StepUniform (fun _ => 1404) state (.insert "a" longRow)
        (StorageCall.perform (.insert "a" longRow) state).2 ∧
      Lone "a" after (StorageCall.perform (.insert "a" longRow) state).2 ∧
      after.store.path = table.store.path := by
  subst ran
  refine ⟨⟨fun there _ key buf encoded => ?_, rfl⟩,
    lone.onTable (TableIo.Safe.samePath (TableIo.insert_safe longRow)) quiet (notFound "a"),
    TableIo.Safe.samePath (TableIo.insert_safe longRow) table⟩
  obtain ⟨-, rfl, -⟩ := encodeRow_ok encoded
  exact longRow_bytes

/-- The table `a` in a transaction in which its root was split. -/
theorem lone_split :
    ∃ table live saved state, Reaches (StepUniform fun _ => 1404)
        (new (Host.startingWith "a") (fun _ => none) [])
        [.createTable "a" [⟨"t", .text⟩], .begin, .insert "a" longRow, .insert "a" longRow,
          .insert "a" longRow] state ∧
      Lone "a" table state ∧
      TableIo.Trees (fun row => row.length = 1404) [⟨"t", .text⟩] live saved table ∧
      live.root ≠ saved.root ∧ table.store.path = "a.db" ∧ table.disk.log = [] ∧
      table.disk.pageCount = 2 := by
  obtain ⟨made, state, created, lone, path, idle, trees, count, log, pages⟩ := lone_created
  obtain ⟨open_, sameDisk, sameCount, samePath, treesBegun⟩ := begin_lone trees idle
  have begun := lone.begin treesBegun.quiet
  have begins : StepUniform (fun _ => 1404) state .begin (Storage.begin state).2 := ⟨trivial, rfl⟩
  generalize (TableIo.begin made).2 = working at open_ sameDisk sameCount samePath begun treesBegun
  -- three rows, the third of which splits the root
  obtain ⟨one, two, three, oneGrows, twoGrows, threeGrows, root⟩ := root_longRows
  obtain ⟨second, secondRan, secondTrees, secondCount, secondOpen, secondDisk⟩ :=
    treesBegun.insert_long open_ (Eq.trans (by rw [sameCount, count]) oneGrows)
  obtain ⟨third, thirdRan, thirdTrees, thirdCount, thirdOpen, thirdDisk⟩ :=
    secondTrees.insert_long secondOpen (Eq.trans (by rw [secondCount]) twoGrows)
  obtain ⟨fourth, fourthRan, fourthTrees, -, -, fourthDisk⟩ :=
    thirdTrees.insert_long thirdOpen (Eq.trans (by rw [thirdCount]) threeGrows)
  obtain ⟨stepSecond, loneSecond, pathSecond⟩ := begun.insert secondRan secondTrees.quiet
  obtain ⟨stepThird, loneThird, pathThird⟩ := loneSecond.insert thirdRan thirdTrees.quiet
  obtain ⟨stepFourth, loneFourth, pathFourth⟩ := loneThird.insert fourthRan fourthTrees.quiet
  refine ⟨fourth, _, _, _, ((((Reaches.refl.next created).next begins).next stepSecond).next
    stepThird).next stepFourth, loneFourth, fourthTrees, ?_, ?_, ?_, ?_⟩
  · rw [root]
    decide
  · rw [pathFourth, pathThird, pathSecond, samePath, path]
  · rw [fourthDisk, thirdDisk, secondDisk, sameDisk, log]
  · rw [fourthDisk, thirdDisk, secondDisk, sameDisk, pages]

/-- The second table writes its own metadata on page 0 of the file. -/
theorem createTable_shared (lone : Lone "a" table state) (coherent : table.io.Coherent)
    (path : table.store.path = "a.db") (log : table.disk.log = []) (pages : table.disk.pageCount = 2) :
    ∃ after, (createTable "./a" [⟨"y", .integer⟩] state).2 = after ∧
      after.host = Host.startingWith "a" ∧ after.tables.keys = {"a", "./a"} ∧
      ∃ disk root, after.tableAt "a" = some ⟨table.store, disk, []⟩ ∧
        decodeMetadata (disk.page 0) = .ok (root, [⟨"y", .integer⟩]) := by
  have file : state.fileOf "./a" = "a.db" := by
    unfold fileOf
    rw [lone.host]
    decide
  have disk : state.filesAt (state.fileOf "./a") = table.disk := by
    rw [file, ← path, tableAt_disk lone.found]
  have ready : state.ReadyFor "./a" :=
    { quiet := lone.quiet
      fresh := by rw [lone.tables, Function.update_of_ne (by decide)]
      aligned := by
        rw [disk]
        exact coherent.fileAligned
      room := by
        rw [disk, Disk.recovered_of_empty log, pages]
        decide }
  have fits : MetadataFits [⟨"y", .integer⟩] := metadataFits_one (by decide)
  obtain ⟨second, ran, secondPath, empty⟩ := createTable_empty ready
    (by rw [metadataBytes_length]; exact fits.size)
  rw [file] at ran secondPath
  obtain ⟨start, made, created, found, files⟩ := createTable_returned lone.quiet ran
  obtain ⟨before, encoded⟩ := created.metadata
  have decoded := decodeMetadata_encoded encoded
  rw [created.columns, map_stored_iff.mpr fits.names, ← files] at decoded
  have same : made.store = second.store :=
    Option.some.inj (found.symm.trans (tableAt_store tableAt_put_self))
  rw [same, secondPath] at decoded
  refine ⟨_, congrArg Prod.snd ran, lone.host, ?_, _, _, tableAt_eq_some.mpr ⟨table.store, ?_, ?_⟩, decoded⟩
  · ext other
    change other ∈ (state.tables.insert "./a" second.store).keys ↔ _
    rw [Finmap.mem_keys, Finmap.mem_insert, ← Finmap.mem_keys, mem_keys, lone.tables]
    by_cases here : other = "a"
    · simp [here]
    · simp [here]
  · exact (Finmap.lookup_insert_of_ne _ (by decide)).trans (show state.tables.lookup "a" = _ from
      tableAt_store lone.found)
  · rw [path]
    exact congrArg (TableIo.mk _ _) empty.quiet.symm

/-- A loop over other tables leaves the memory of a table alone. -/
theorem forEach_lookup {call : Exec TableIo Unit} {names : List String} (outside : name ∉ names) :
    (forEach call names state).2.tables.lookup name = state.tables.lookup name := by
  induction names generalizing state with
  | nil => rfl
  | cons first rest inductionHypothesis =>
      rw [List.mem_cons, not_or] at outside
      have same : (Storage.onTable first .panic call state).2.tables.lookup name =
          state.tables.lookup name := by
        unfold Storage.onTable
        split
        · rfl
        · exact Finmap.lookup_insert_of_ne _ outside.1
      unfold forEach
      rcases ran : Storage.onTable first .panic call state with ⟨fault | ⟨⟩, middle⟩
      · rw [ran] at same
        rw [Exec.bind_error ran]
        exact same
      · rw [ran] at same
        rw [Exec.bind_ok ran, inductionHypothesis outside.2]
        exact same

/-- The table `./a` is created on the file of `a` while page 0 is dirty in the cache of `a`. The
rollback takes the metadata of the other table for its own. -/
theorem reaches_wellRooted_shared :
    ∃ state table, Reaches (StepUniform fun _ => 1404) (new (Host.startingWith "a") (fun _ => none) [])
        [.createTable "a" [⟨"t", .text⟩], .begin, .insert "a" longRow, .insert "a" longRow,
          .insert "a" longRow, .createTable "./a" [⟨"y", .integer⟩], .rollback] state ∧
      state.tableAt "a" = some table ∧ ¬ table.WellRooted := by
  obtain ⟨table, live, saved, working, reaches, lone, trees, moved, path, log, pages⟩ := lone_split
  obtain ⟨shared, ran, host, keys, disk, root, found, decoded⟩ :=
    createTable_shared lone trees.sound.coherent path log pages
  have created : StepUniform (fun _ => 1404) working (.createTable "./a" [⟨"y", .integer⟩]) shared :=
    ⟨metadataFits_one (by decide), ran.symm⟩
  have ended : StepUniform (fun _ => 1404) shared .rollback (Storage.rollback shared).2 :=
    ⟨trivial, rfl⟩
  obtain ⟨after, rolledBack, columns, cached⟩ :=
    @TableIo.rollback_rereads ⟨table.store, disk, []⟩ rfl (trees.dirty_zero moved) _ decoded
  have visited : ∃ rest, shared.visited = "a" :: rest ∧ "a" ∉ rest := by
    unfold Storage.visited
    rw [host, keys]
    refine ⟨_, Host.order_startingWith (by decide), ?_⟩
    rw [Finset.mem_sort]
    exact Finset.notMem_erase _ _
  obtain ⟨rest, visited, outside⟩ := visited
  have first : Storage.onTable "a" .panic TableIo.rollback shared = (.ok (), shared.put "a" after) := by
    rw [onTable_found found (TableIo.Safe.samePath TableIo.rollback_safe), rolledBack]
  have store : (Storage.rollback shared).2.tables.lookup "a" = some after.store := by
    unfold Storage.rollback forAll
    rw [Exec.bind_ok (Exec.run_get shared), visited]
    unfold forEach
    rw [Exec.bind_ok first, forEach_lookup outside]
    exact Finmap.lookup_insert _
  refine ⟨_, _, (reaches.next created).next ended, tableAt_eq_some.mpr ⟨_, store, rfl⟩, ?_⟩
  refine TableIo.not_wellRooted cached decoded ?_
  rw [columns, trees.schema]
  exact (by decide : ([⟨"y", .integer⟩] : List Column) ≠ [⟨"t", .text⟩])

end Storage

end MukhiDb.Model
