import MukhiDb.BTree.LeafSplits
import MukhiDb.Model.Startup
import MukhiDb.Storage.CreationCrash
import MukhiDb.Storage.Refinement
import MukhiDb.Storage.RootPages
import MukhiDb.Storage.Undoing

/-!
Contract: a restart over the files of a storage.

Owns: the names of tables that their files give back; what the start opens in a directory of
such files; statements that succeed, after which every file belongs to a table and nothing is
left in its log; and the fact that a restart then gives the same tables with the same answers
as long as page 0 of every file gives the root page and the columns of its table.

Does not own: when page 0 can be trusted.
-/

namespace MukhiDb.Model

open MukhiDb.Foundation
open BTree (Tree)

/-! ### Names -/

/-- The name of the file of a table gives the name of the table back. -/
theorem nameOf_pathOf {name : String} (plain : ¬ EndsWithDb name) :
    nameOf (Storage.pathOf name) = name := by
  have path : (Storage.pathOf name).toList.reverse = 'b' :: 'd' :: '.' :: name.toList.reverse := by
    unfold Storage.pathOf
    rw [String.toList_append]
    simp
  have stays : trimEndMatchesDb name.toList.reverse = name.toList.reverse := by
    unfold trimEndMatchesDb
    split
    · next rest same =>
        refine absurd ⟨rest.reverse, ?_⟩ plain
        rw [← List.reverse_reverse name.toList, same]
        simp
    · rfl
  unfold nameOf
  rw [path, trimEndMatchesDb, stays, List.reverse_reverse, String.ofList_toList]

theorem endsWithDb_pathOf (name : String) : EndsWithDb (Storage.pathOf name) := by
  refine ⟨name.toList, ?_⟩
  unfold Storage.pathOf
  rw [String.toList_append]
  rfl

/-- The file of a table of this name is in the working directory, under the path that the table
has for it, and gives the name back. -/
structure KeepsName (host : Host) (name : String) : Prop where
  plain : ¬ EndsWithDb name
  flat : '/' ∉ name.toList
  own : host.resolve (Storage.pathOf name) = Storage.pathOf name

theorem KeepsName.inside {host : Host} {name : String} (keeps : KeepsName host name) :
    '/' ∉ (Storage.pathOf name).toList := by
  unfold Storage.pathOf
  rw [String.toList_append, List.mem_append, not_or]
  exact ⟨keeps.flat, by decide⟩

/-- A later process finds the file in the same place. -/
theorem KeepsName.restarted {host : Host} {name : String} (keeps : KeepsName host name)
    (later : Host) : KeepsName (host.restarted later) name :=
  ⟨keeps.plain, keeps.flat, keeps.own⟩

/-! ### Opening the files of a directory -/

namespace Storage

variable {state after : Storage} {host : Host} {name path : String} {disk : Disk} {dir : String → Option Disk}

/-- A table as the start opens it from its file. -/
structure OpenedFrom (path : String) (disk : Disk) (table : TableIo) : Prop where
  file : table.store.path = path
  contents : table.disk = disk.recovered
  metadata : decodeMetadata (disk.recovered.page 0) = .ok (table.store.rootPage, table.store.columns)
  reads : table.io.reads = PagerIo.answers disk.recovered.page
  quiet : table.io.Quiet

/-- Opening a file of whole pages whose page 0 holds metadata. -/
theorem openTable_ok (quiet : state.schedule = []) (own : state.host.resolve path = path)
    (files : state.filesAt path = disk) (aligned : disk.Aligned)
    {metadata : Nat × List Column}
    (decoded : decodeMetadata (disk.recovered.page 0) = .ok metadata) :
    ∃ table, openTable name path state = (.ok (), (state.withFiles path disk.recovered).put name table) ∧
      OpenedFrom path disk table := by
  obtain ⟨rootPage, columns⟩ := metadata
  have opened := openPager_quiet quiet path
  rw [files, Pager.open_ok path aligned] at opened
  have coherent := Pager.fresh_coherent aligned.recovered []
  generalize atStart : (state.withFiles path disk.recovered).opening path
    (Pager.fresh disk.recovered.db.length) = start
  have io : start.io = ⟨Pager.fresh disk.recovered.db.length, disk.recovered, []⟩ := by
    rw [← atStart, TableIo.io, opening, filesAt_withFiles]
    exact congrArg (PagerIo.mk _ _) quiet
  have reads := coherent.reads (PagerIo.noGap_of_lengths rfl)
  rw [Pager.fresh_view] at reads
  rw [← io] at coherent reads
  have still : start.io.Quiet := by
    rw [io]
    rfl
  have answer : start.io.reads 0 = .ok (disk.recovered.page 0) := by
    rw [reads]
    exact if_neg (by decide)
  obtain ⟨table, loaded, samePath, root, names, quietAfter, same⟩ :=
    TableIo.load_ok coherent still answer decoded
  have sameDisk : table.disk = disk.recovered := by
    have frame := (PagerIo.perform_loose readMetadata start.io coherent still).2
    obtain ⟨_, middle, read, ended⟩ := Exec.bind_eq_ok.mp loaded
    obtain ⟨-, rfl⟩ := Prod.mk.inj ended
    have middleDisk : (TableIo.onPages readMetadata start).2.disk = start.io.disk := frame.disk
    rw [read, io] at middleDisk
    exact middleDisk
  rw [← atStart] at loaded samePath
  refine ⟨table, ?_, samePath, sameDisk, by rw [root, names]; exact decoded, same.trans reads,
    quietAfter⟩
  rw [openTable_opens, own, Exec.bind_ok opened]
  exact addTable_ok loaded samePath

/-- Every file of the directory belongs to a table whose name it keeps, and can be opened. -/
def Loadable (host : Host) (dir : String → Option Disk) : Prop :=
  ∀ path disk, dir path = some disk → ∃ name, path = pathOf name ∧ KeepsName host name ∧
    disk.Aligned ∧ ∃ metadata, decodeMetadata (disk.recovered.page 0) = .ok metadata

/-- Some of the files of a directory were opened. -/
structure Loading (host : Host) (dir : String → Option Disk) (opened : List String)
    (state : Storage) : Prop where
  sameHost : state.host = host
  kept : state.Kept
  rest : state.AtRest
  tables : ∀ name table, state.tableAt name = some table → pathOf name ∈ opened ∧
    ∃ disk, dir (pathOf name) = some disk ∧ OpenedFrom (pathOf name) disk table
  present : ∀ name, pathOf name ∈ opened → ∃ table, state.tableAt name = some table
  others : ∀ path, path ∉ opened → state.dir path = dir path
  files : ∀ path, (state.dir path).isSome ↔ (dir path).isSome

theorem Loading.openTable {opened : List String} (loading : Loading host dir opened state)
    (loadable : Loadable host dir) (file : (dir path).isSome) (fresh : path ∉ opened) :
    ∃ after, Storage.openTable (nameOf path) path state = (.ok (), after) ∧
      Loading host dir (path :: opened) after := by
  obtain ⟨disk, found⟩ := Option.isSome_iff_exists.mp file
  obtain ⟨name, rfl, keeps, aligned, metadata, decoded⟩ := loadable path disk found
  have files : state.filesAt (pathOf name) = disk := by
    unfold filesAt
    rw [loading.others _ fresh, found]
    rfl
  have own : state.host.resolve (pathOf name) = pathOf name := by
    rw [loading.sameHost]
    exact keeps.own
  have closed : state.Closed (pathOf name) := by
    intro other table there same
    obtain ⟨member, _, -, source⟩ := loading.tables other table there
    rw [source.file] at same
    rw [same] at member
    exact fresh member
  obtain ⟨table, ran, openedFrom⟩ := @openTable_ok state name _ _ loading.kept.quiet own
    files aligned _ decoded
  have unused : (state.withFiles (pathOf name) disk.recovered).Unused name table.store.path := by
    intro other there _ present
    rw [tableAt_withFiles closed] at present
    rw [openedFrom.file]
    exact closed other there present
  have still : table.schedule = (state.withFiles (pathOf name) disk.recovered).schedule :=
    Eq.trans openedFrom.quiet loading.kept.quiet.symm
  have tables := tableAt_put unused still
  rw [tableAt_withFiles closed] at tables
  refine ⟨_, by rw [nameOf_pathOf keeps.plain, ran], ?_⟩
  have kept := loading.kept.perform (show (StorageCall.openTable name (pathOf name)).OpensClosed state
    by rw [StorageCall.OpensClosed, own]; exact closed)
  have statement : (StorageCall.openTable name (pathOf name)).IsStatement := trivial
  have rest := (loading.rest.perform loading.kept.quiet statement ran).1
  rw [show (StorageCall.openTable name (pathOf name)).perform state = _ from ran] at kept
  refine ⟨loading.sameHost, kept, rest, ?_, ?_, ?_, ?_⟩
  · intro other there present
    rw [tables] at present
    by_cases same : other = name
    · subst same
      rw [Function.update_self] at present
      obtain rfl := Option.some.inj present
      exact ⟨List.mem_cons_self, disk, found, openedFrom⟩
    · rw [Function.update_of_ne same] at present
      obtain ⟨member, more⟩ := loading.tables other there present
      exact ⟨List.mem_cons_of_mem _ member, more⟩
  · intro other member
    rw [tables]
    by_cases same : other = name
    · subst same
      exact ⟨table, Function.update_self _ _ _⟩
    · rw [Function.update_of_ne same]
      apply loading.present
      exact (List.mem_cons.mp member).resolve_left fun paths => same (pathOf_injective paths)
  · intro other absent
    obtain ⟨different, absent⟩ := not_or.mp (mt List.mem_cons.mpr absent)
    rw [← loading.others other absent]
    unfold put withFiles
    dsimp only
    rw [openedFrom.file, Function.update_of_ne different, Function.update_of_ne different]
  · intro other
    rw [← loading.files other]
    unfold put withFiles
    dsimp only
    rw [openedFrom.file]
    by_cases same : other = pathOf name
    · subst same
      simp [(loading.files _).mpr file]
    · rw [Function.update_of_ne same, Function.update_of_ne same]

theorem Loading.loadTables {opened paths : List String} (loading : Loading host dir opened state)
    (loadable : Loadable host dir) (files : ∀ path ∈ paths, (dir path).isSome) (distinct : paths.Nodup)
    (fresh : ∀ path ∈ paths, path ∉ opened) :
    ∃ after, Model.loadTables paths state = (.ok (), after) ∧
      Loading host dir (paths.reverse ++ opened) after := by
  induction paths generalizing opened state with
  | nil => exact ⟨state, rfl, loading⟩
  | cons path rest inductionHypothesis =>
      obtain ⟨outside, distinct⟩ := List.nodup_cons.mp distinct
      obtain ⟨middle, ran, loadingThere⟩ := loading.openTable loadable
        (files path List.mem_cons_self) (fresh path List.mem_cons_self)
      obtain ⟨after, ranRest, ended⟩ := inductionHypothesis loadingThere
        (fun other member => files other (List.mem_cons_of_mem _ member)) distinct
        fun other member inside => by
          rcases List.mem_cons.mp inside with rfl | inside
          · exact outside member
          · exact fresh other (List.mem_cons_of_mem _ member) inside
      refine ⟨after, ?_, ?_⟩
      · unfold Model.loadTables
        rw [Exec.bind_ok (Exec.attempt_ok ran), ranRest]
      · rw [List.reverse_cons, List.append_assoc]
        exact ended

theorem loading_new (host : Host) (dir : String → Option Disk) :
    Loading host dir [] (new host dir []) where
  sameHost := rfl
  kept := kept_new host dir
  rest := atRest_new host dir
  tables := by
    intro name table found
    cases found
  present := by simp
  others := fun _ _ => rfl
  files := fun _ => Iff.rfl

/-- Every file of a directory was opened. -/
structure Started (host : Host) (dir : String → Option Disk) (state : Storage) : Prop where
  sameHost : state.host = host
  kept : state.Kept
  rest : state.AtRest
  names : ∀ name, (state.tableAt name).isSome ↔ (dir (pathOf name)).isSome
  tables : ∀ name table, state.tableAt name = some table →
    ∃ disk, dir (pathOf name) = some disk ∧ OpenedFrom (pathOf name) disk table
  files : ∀ path, (state.dir path).isSome ↔ (dir path).isSome

/-- The start over a directory of loadable files opens all of them. -/
theorem startUp_ok (loadable : Loadable host dir) {listing : List String} (lists : Lists listing dir) :
    ∃ state, startUp host listing dir = (.ok (), state) ∧ Started host dir state := by
  have member (path : String) : path ∈ findDbFiles listing ↔ (dir path).isSome := by
    unfold findDbFiles
    rw [List.mem_filter, decide_eq_true_iff]
    constructor
    · rintro ⟨listed, ends⟩
      exact ((lists.files path ends).mp listed).1
    · intro file
      obtain ⟨disk, found⟩ := Option.isSome_iff_exists.mp file
      obtain ⟨name, rfl, keeps, -⟩ := loadable path disk found
      have ends := endsWithDb_pathOf name
      exact ⟨(lists.files _ ends).mpr ⟨file, keeps.inside⟩, ends⟩
  obtain ⟨state, ran, loading⟩ := (loading_new host dir).loadTables loadable
    (fun path listed => (member path).mp listed) (lists.once.filter _) (by simp)
  rw [List.append_nil] at loading
  refine ⟨state, ran, loading.sameHost, loading.kept, loading.rest, fun name => ?_,
    fun name table found => (loading.tables name table found).2, loading.files⟩
  rw [← member, ← List.mem_reverse]
  constructor
  · intro there
    obtain ⟨table, found⟩ := Option.isSome_iff_exists.mp there
    exact (loading.tables name table found).1
  · intro listed
    obtain ⟨table, found⟩ := loading.present name listed
    rw [found]
    rfl

/-! ### Statements that succeed -/

/-- Every table has a file of its own name, which the name can be taken from, and whose log holds
nothing; and every file belongs to a table. -/
structure Filed (state : Storage) : Prop where
  kept : state.Kept
  rest : state.AtRest
  named : ∀ name table, state.tableAt name = some table →
    table.store.path = pathOf name ∧ KeepsName state.host name ∧ (state.dir (pathOf name)).isSome
  logs : ∀ name table, state.tableAt name = some table → table.disk.recovered = table.disk
  files : ∀ path, (state.dir path).isSome → ∃ name table, state.tableAt name = some table ∧
    path = pathOf name

theorem Started.filed (started : Started host dir state) (loadable : Loadable host dir) :
    state.Filed where
  kept := started.kept
  rest := started.rest
  named := by
    intro name table found
    obtain ⟨disk, file, source⟩ := started.tables name table found
    obtain ⟨other, same, keeps, -⟩ := loadable _ disk file
    obtain rfl := pathOf_injective same
    rw [started.sameHost]
    exact ⟨source.file, keeps, (started.files _).mpr (by rw [file]; rfl)⟩
  logs := by
    intro name table found
    obtain ⟨disk, -, source⟩ := started.tables name table found
    rw [source.contents, Disk.recovered_recovered]
  files := by
    intro path there
    obtain ⟨disk, file⟩ := Option.isSome_iff_exists.mp ((started.files path).mp there)
    obtain ⟨name, rfl, -⟩ := loadable path disk file
    obtain ⟨table, found⟩ := Option.isSome_iff_exists.mp
      ((started.names name).mpr (by rw [file]; rfl))
    exact ⟨name, table, found, rfl⟩

/-- The file of a table, as the directory has it. -/
theorem Filed.file {table : TableIo} (filed : state.Filed) (found : state.tableAt name = some table) :
    state.dir (pathOf name) = some table.disk := by
  obtain ⟨path, -, there⟩ := filed.named name table found
  obtain ⟨disk, file⟩ := Option.isSome_iff_exists.mp there
  rw [file, tableAt_disk found, path, filesAt, file]
  rfl

/-- A file that no table has open is not there. -/
theorem Filed.unopened {file : String} (filed : state.Filed) (closed : state.Closed file) :
    state.filesAt file = ⟨[], []⟩ := by
  unfold filesAt
  rcases present : state.dir file with _ | disk
  · rfl
  · obtain ⟨name, table, found, rfl⟩ := filed.files file (by rw [present]; rfl)
    exact absurd (filed.named name table found).1 (closed name table found)

/-- A table in a file of its own name is put in. -/
theorem Filed.put {table : TableIo} (filed : state.Filed) (kept : (state.put name table).Kept)
    (rest : (state.put name table).AtRest) (file : table.store.path = pathOf name)
    (keeps : KeepsName state.host name) (log : table.disk.log = []) :
    (state.put name table).Filed := by
  have unused : state.Unused name table.store.path := by
    intro other there different found
    rw [(filed.named other there found).1, file]
    exact fun same => different (pathOf_injective same)
  have still : table.schedule = state.schedule :=
    (tableAt_schedule (@tableAt_put_self state name table)).trans
      (kept.quiet.trans filed.kept.quiet.symm)
  have tables := tableAt_put unused still
  have dirs (path : String) : ((state.put name table).dir path).isSome ↔
      path = pathOf name ∨ (state.dir path).isSome := by
    change (Function.update state.dir table.store.path (some table.disk) path).isSome ↔ _
    rw [file]
    by_cases same : path = pathOf name
    · simp [same]
    · simp [same]
  refine ⟨kept, rest, ?_, ?_, ?_⟩
  · intro other there found
    rw [tables] at found
    rw [dirs]
    by_cases same : other = name
    · subst same
      rw [Function.update_self] at found
      obtain rfl := Option.some.inj found
      exact ⟨file, keeps, Or.inl rfl⟩
    · rw [Function.update_of_ne same] at found
      obtain ⟨path, keepsThere, there⟩ := filed.named other there found
      exact ⟨path, keepsThere, Or.inr there⟩
  · intro other there found
    rw [tables] at found
    by_cases same : other = name
    · subst same
      rw [Function.update_self] at found
      obtain rfl := Option.some.inj found
      exact Disk.recovered_of_empty log
    · rw [Function.update_of_ne same] at found
      exact filed.logs other there found
  · intro path there
    rw [tables]
    by_cases same : path = pathOf name
    · exact ⟨name, table, Function.update_self _ _ _, same⟩
    · obtain ⟨other, found, opened, rfl⟩ := filed.files path (((dirs path).mp there).resolve_left same)
      refine ⟨other, found, ?_, rfl⟩
      rw [Function.update_of_ne, opened]
      rintro rfl
      exact same rfl

/-- The file of a new table is not open. -/
theorem Filed.closed (filed : state.Filed) (absent : state.tableAt name = none)
    (keeps : KeepsName state.host name) : state.Closed (state.fileOf name) := by
  intro other there found same
  rw [(filed.named other there found).1, fileOf, keeps.own] at same
  rw [pathOf_injective same, absent] at found
  cases found

theorem Filed.createTable {columns : List Column} (filed : state.Filed)
    (keeps : KeepsName state.host name) (ran : createTable name columns state = (.ok (), after)) :
    after.Filed := by
  obtain ⟨absent, coherent, table, made, path, rfl⟩ := createTable_eq_ok filed.kept.quiet ran
  have closed := filed.closed absent keeps
  have own : state.fileOf name = pathOf name := keeps.own
  have kept := filed.kept.perform
    (show (StorageCall.createTable name columns).OpensClosed state from Or.inr closed)
  have statement : (StorageCall.createTable name columns).IsStatement := trivial
  have rest := (filed.rest.perform filed.kept.quiet statement ran).1
  have still : (state.creating (state.fileOf name)).io.Quiet := filed.kept.quiet
  have created := TableIo.create_returned coherent still rfl made
  rw [show (StorageCall.createTable name columns).perform state = _ from ran] at kept
  -- the new files at the path are replaced when the table is put in
  have same : (state.withFiles (state.fileOf name)
      (state.filesAt (state.fileOf name)).recovered).put name table = state.put name table := by
    unfold Storage.put withFiles
    dsimp only
    rw [path, Function.update_idem]
  rw [same] at kept rest ⊢
  exact filed.put kept rest (path.trans own) keeps created.log

theorem Filed.insert {values : List Value} (filed : state.Filed)
    (ran : insert name values state = (.ok (), after)) : after.Filed := by
  have kept := filed.kept.perform
    (show (StorageCall.insert name values).OpensClosed state from trivial)
  have statement : (StorageCall.insert name values).IsStatement := trivial
  have rest := (filed.rest.perform filed.kept.quiet statement ran).1
  rw [show (StorageCall.insert name values).perform state = _ from ran] at kept
  unfold Storage.insert at ran
  rcases found : state.tableAt name with _ | table
  · rw [onTable_missing found] at ran
    cases ran
  · have samePath := TableIo.Safe.samePath (TableIo.insert_safe values)
    rw [onTable_found found samePath] at ran
    obtain ⟨answer, rfl⟩ := Prod.mk.inj ran
    obtain ⟨path, keeps, -⟩ := filed.named name table found
    have flushed := TableIo.insert_flushed (filed.rest.rests found) (filed.kept.table_quiet found)
      (Prod.ext answer rfl)
    exact filed.put kept rest ((samePath table).trans path) keeps flushed.log

/-! ### Restarts -/

/-- Page 0 of the file of each table gives its root page and its columns. -/
def Described (state : Storage) : Prop :=
  ∀ name table, state.tableAt name = some table →
    decodeMetadata (table.disk.page 0) = .ok (table.store.rootPage, table.store.columns)

/-- The same tables, and scans of them give the same headers and rows. -/
structure Recalls (before after : Storage) : Prop where
  names : after.tables.keys = before.tables.keys
  answers : ∀ name, (selectAll name after).1 = (selectAll name before).1

theorem Filed.loadable (filed : state.Filed) (described : state.Described) (later : Host) :
    Loadable (state.host.restarted later) state.dir := by
  intro path disk file
  obtain ⟨name, table, found, rfl⟩ := filed.files path (by rw [file]; rfl)
  obtain ⟨-, keeps, -⟩ := filed.named name table found
  obtain rfl : disk = table.disk := Option.some.inj (file.symm.trans (filed.file found))
  exact ⟨name, rfl, keeps.restarted later, (filed.kept.coherent name table found).fileAligned, _,
    by rw [filed.logs name table found]; exact described name table found⟩

/-- The tables that a restart opens are the tables of the storage. -/
theorem Filed.sameTables {restarted : Storage} (filed : state.Filed)
    (started : Started host state.dir restarted) (name : String) :
    (restarted.tableAt name).isSome ↔ (state.tableAt name).isSome := by
  rw [started.names]
  constructor
  · intro there
    obtain ⟨other, table, found, paths⟩ := filed.files _ there
    rw [pathOf_injective paths, found]
    rfl
  · intro there
    obtain ⟨table, found⟩ := Option.isSome_iff_exists.mp there
    exact (filed.named name table found).2.2

/-- A table that a restart opens was opened from the file that its table had. -/
theorem Filed.source {restarted : Storage} {table' : TableIo} (filed : state.Filed)
    (started : Started host state.dir restarted) (found' : restarted.tableAt name = some table') :
    ∃ table, state.tableAt name = some table ∧ OpenedFrom (pathOf name) table.disk table' := by
  obtain ⟨table, found⟩ := Option.isSome_iff_exists.mp
    ((filed.sameTables started name).mp (by rw [found']; rfl))
  obtain ⟨disk, file, source⟩ := started.tables name table' found'
  obtain rfl : disk = table.disk := Option.some.inj (file.symm.trans (filed.file found))
  exact ⟨table, found, source⟩

/-- A restart over the files of such a storage. -/
theorem Filed.recalls {restarted : Storage} (filed : state.Filed) (described : state.Described)
    (started : Started host state.dir restarted) : Recalls state restarted where
  names := by
    ext name
    rw [mem_keys, mem_keys, ← Option.isSome_iff_exists, ← Option.isSome_iff_exists]
    exact filed.sameTables started name
  answers := by
    intro name
    rcases found' : restarted.tableAt name with _ | table'
    · have missing : state.tableAt name = none := by
        rw [← Option.not_isSome_iff_eq_none, ← filed.sameTables started, found']
        simp
      unfold selectAll
      rw [onTable_missing found', onTable_missing missing]
    · obtain ⟨table, found, source⟩ := filed.source started found'
      have recovered := filed.logs name table found
      have reads := TableIo.settled_reads (filed.kept.coherent name table found)
        (filed.rest.rests found).2
      have decoded := source.metadata
      rw [recovered, described name table found] at decoded
      obtain ⟨root, columns⟩ := Prod.mk.inj (Except.ok.inj decoded)
      have readsAfter := source.reads
      rw [recovered, ← reads] at readsAfter
      exact onTable_congr (TableIo.Safe.samePath TableIo.selectAll_safe) found found'
        (TableIo.selectAll_congr (filed.kept.table_quiet found) source.quiet readsAfter root.symm
          columns.symm) _

/-- The files of such a storage can be listed. -/
theorem Filed.lists (filed : state.Filed) : Lists (state.visited.map pathOf) state.dir where
  once := (state.host.nodup_order _).map pathOf_injective
  files := by
    intro path _
    have visited (name : String) : name ∈ state.visited ↔ ∃ table, state.tableAt name = some table := by
      rw [← mem_keys]
      exact state.host.mem_order _ _
    rw [List.mem_map]
    constructor
    · rintro ⟨name, open_, rfl⟩
      obtain ⟨table, found⟩ := (visited name).mp open_
      obtain ⟨-, keeps, there⟩ := filed.named name table found
      exact ⟨there, keeps.inside⟩
    · rintro ⟨there, -⟩
      obtain ⟨name, table, found, rfl⟩ := filed.files path there
      exact ⟨name, (visited name).mpr ⟨table, found⟩, rfl⟩

/-- Page 0 describes the tables whose pages hold them. -/
theorem Standing.described {rows : String → Bytes → Prop} (standing : Standing rows state)
    (rest : state.AtRest) : state.Described := by
  intro name table found
  obtain ⟨columns, live, saved, trees⟩ := standing.each.tables name table found
  have coherent := trees.sound.coherent
  have metadata := trees.working.metadata
  rw [PagerIo.at_book coherent, coherent.settled_view (rest.rests found).2, ← trees.root,
    ← trees.schema] at metadata
  exact metadata

end Storage

/-! ### Tables that were opened -/

namespace PagerIo

variable {state : PagerIo}

/-- A state without dirty pages shows the pages of its file. -/
theorem Coherent.settled_sound (coherent : state.Coherent) (settled : state.Settled)
    (quiet : state.Quiet) (small : state.disk.pageCount ≤ maxPages) :
    state.Sound ∧ state.book = state.disk.book ∧ state.count = state.disk.pageCount := by
  have count : state.count = state.disk.pageCount :=
    congrArg (fun length => length / pageSize) (coherent.settled_length settled)
  refine ⟨⟨coherent, quiet, ?_, ?_⟩, ?_, count⟩
  · rintro index ⟨-, below, past⟩
    rw [count] at below
    exact absurd below (Nat.not_lt.mpr past)
  · rw [count]
    exact Nat.lt_of_le_of_lt small (by decide)
  · unfold book Disk.book
    rw [count, coherent.settled_view settled]

end PagerIo

namespace TableIo

variable {rows : Bytes → Prop} {columns : List Column} {table : TableIo}

/-- A table that was opened from a file works on the tree in the file. -/
theorem trees_opened {path : String} {disk : Disk} {saved : Tree}
    (holds : Holds rows columns disk.recovered.book saved) (small : MetadataFits columns)
    (opened : Storage.OpenedFrom path disk table) (coherent : table.io.Coherent)
    (settled : table.io.Settled) :
    Trees rows columns saved saved table ∧ table.io.count = disk.recovered.pageCount := by
  have contents : table.io.disk = disk.recovered := opened.contents
  have length : disk.recovered.book.length = disk.recovered.pageCount := by
    unfold Disk.book
    rw [List.length_map, List.length_range]
  have few := holds.held.small
  rw [length, ← contents] at few
  obtain ⟨sound, book, count⟩ := coherent.settled_sound settled opened.quiet few
  have working := holds
  rw [← contents, ← book] at working
  have metadata := working.metadata
  rw [PagerIo.at_book coherent, coherent.settled_view settled, contents, opened.metadata] at metadata
  obtain ⟨root, schema⟩ := Prod.mk.inj (Except.ok.inj metadata)
  refine ⟨⟨sound, schema, small, working, root, ?_⟩, by rw [count, contents]⟩
  rw [show table.disk = disk.recovered from contents]
  exact holds

/-- If the row goes in a full leaf, the leaf is cut late enough. -/
def SplitsLate (table : TableIo) (values : List Value) : Prop :=
  ∀ key row, encodeRow table.store.columns values = .ok (key, row) →
    ∀ cells, (onPages (BTree.targetCells table.store.rootPage key) table).1 = .ok cells →
      BTree.layout.room cells (key, row) = false → BTree.CrossesLate (place cells key row)

/-- A row that can be stored at all. -/
def ShortRow (row : Bytes) : Prop := row.length ≤ BTree.maxRowDataSize

/-- The leaf that an insertion goes in, as its cells are read from the pages. -/
theorem Trees.targetCells {live saved : Tree} (trees : Trees rows columns live saved table)
    (key : Int64) : (onPages (BTree.targetCells table.store.rootPage key) table).1 =
      .ok (live.target key) := by
  obtain ⟨io, performed, -⟩ := PagerIo.perform_shows (PagerIo.shows_book trees.sound)
    (BTree.run_targetCells trees.working.held key) (by simp)
  unfold onPages
  rw [run_onPager, trees.root, performed]

/-- A full leaf of short rows splits in parts that fit exactly when it is cut late enough. -/
theorem Trees.splitsFit_iff {live saved : Tree} {values : List Value} {key : Int64} {row : Bytes}
    (trees : Trees rows columns live saved table) (known : ∀ row, rows row → ShortRow row)
    (encoded : encodeRow table.store.columns values = .ok (key, row)) (short : ShortRow row) :
    SplitsFit live key row ↔ table.SplitsLate values := by
  have linked := trees.working.held.linked
  have old : ∀ cell ∈ live.target key, ShortRow cell.2 := fun cell member =>
    known _ (trees.working.rows cell (BTree.target_subset linked key cell member))
  have fits := trees.working.fits _ (BTree.target_held linked key)
  constructor
  · intro fit other buf same cells collected full
    obtain ⟨rfl, rfl⟩ := Prod.mk.inj (Except.ok.inj (encoded.symm.trans same))
    obtain rfl := Except.ok.inj ((trees.targetCells key).symm.trans collected)
    exact (BTree.splitFits_iff fits old short full).mp (fit full)
  · intro late full
    exact (BTree.splitFits_iff fits old short full).mpr
      (late key row encoded _ (trees.targetCells key) full)

theorem Stands.insert_late {values : List Value} (stands : Stands ShortRow table)
    (late : table.SplitsLate values) : Stands ShortRow (TableIo.insert values table).2 :=
  stands.insert_fits fun _ _ _ trees _ _ encoded short =>
    ⟨short, (trees.splitsFit_iff (fun _ => id) encoded short).mpr late⟩

/-- Leaves of rows of one length are cut late enough. -/
theorem Stands.splitsLate {length : Nat} {values : List Value}
    (stands : Stands (fun row => row.length = length) table)
    (uniform : ∀ key buf, encodeRow table.store.columns values = .ok (key, buf) →
      buf.length = length) : table.SplitsLate values := by
  intro key row encoded
  obtain ⟨_, _, _, trees⟩ := stands
  obtain ⟨accepted, rfl, -⟩ := encodeRow_ok encoded
  have same := uniform key _ encoded
  have known : ∀ row : Bytes, row.length = length → ShortRow row := by
    rintro row rfl
    unfold ShortRow
    rw [← same]
    exact accepted.short
  exact (trees.splitsFit_iff known encoded accepted.short).mp
    (trees.splitsFit same accepted.short) key _ encoded

end TableIo

/-! ### Runs -/

/-- `create_table`, with a name that the file keeps and column names that page 0 has room for, and
`insert`, of a row that goes in a leaf that is not full or is cut late enough. -/
def StorageCall.Stores : StorageCall → Storage → Prop
  | createTable name columns, state => KeepsName state.host name ∧
      ∀ column ∈ columns, (utf8Bytes column.name).length ≤ 255
  | insert name values, state => ∀ table, state.tableAt name = some table → table.SplitsLate values
  | _, _ => False

namespace Storage

variable {state after : Storage} {name : String}

/-- What happens to a server: a statement that succeeds, or its end and a start over its files. -/
inductive Served (state : Storage) : Option StorageCall → Storage → Prop where
  | stored {call : StorageCall} {after : Storage} (stores : call.Stores state)
      (ran : call.perform state = (.ok (), after)) : Served state (some call) after
  | restarted {listing : List String} (lists : Lists listing state.dir) (later : Host) :
      Served state none (startUp (state.host.restarted later) listing state.dir).2

/-- The tables of the files have trees of rows of any length. -/
structure Stocked (state : Storage) : Prop where
  filed : state.Filed
  each : Each (fun _ table => table.Stands TableIo.ShortRow) state

theorem Stocked.standing (stocked : state.Stocked) : Standing (fun _ => TableIo.ShortRow) state :=
  ⟨stocked.each, fun _ => stocked.filed.unopened⟩

theorem Stocked.described (stocked : state.Stocked) : state.Described :=
  stocked.standing.described stocked.filed.rest

/-- The metadata of a table that was created fits, when no name is cut. -/
theorem metadataFits_of_created {columns : List Column} (quiet : state.schedule = [])
    (short : ∀ column ∈ columns, (utf8Bytes column.name).length ≤ 255)
    (ran : createTable name columns state = (.ok (), after)) : MetadataFits columns where
  size := by
    obtain ⟨_, table, created, -⟩ := createTable_returned quiet ran
    obtain ⟨before, encoded⟩ := created.metadata
    have fits := (encodeMetadata_bytes encoded).1
    rwa [metadataBytes_length, created.columns] at fits
  names := fun column member => Or.inl (short column member)

theorem Stocked.perform {call : StorageCall} (stocked : state.Stocked) (stores : call.Stores state)
    (ran : call.perform state = (.ok (), after)) : after.Stocked := by
  cases call with
  | createTable name columns =>
      have fits := metadataFits_of_created stocked.filed.kept.quiet stores.2 ran
      obtain ⟨absent, -⟩ := createTable_eq_ok stocked.filed.kept.quiet ran
      have standing := stocked.standing.createTable
        (Or.inr (stocked.filed.closed absent stores.1)) fits
      rw [show createTable name columns state = _ from ran] at standing
      exact ⟨stocked.filed.createTable stores.1 ran, standing.each⟩
  | insert name values =>
      have standing := stocked.standing.onTable (TableIo.Safe.samePath (TableIo.insert_safe values))
        (fun table found stands => stands.insert_late (stores table found)) (notFound name)
      rw [show onTable name (notFound name) (TableIo.insert values) state = _ from ran] at standing
      exact ⟨stocked.filed.insert ran, standing.each⟩
  | _ => exact stores.elim

/-- A start over the files opens the trees that are in them. -/
theorem Stocked.started {restarted : Storage} (stocked : state.Stocked) {later : Host}
    (started : Started (state.host.restarted later) state.dir restarted) : restarted.Stocked where
  filed := started.filed (stocked.filed.loadable stocked.described later)
  each :=
    { quiet := started.kept.quiet
      apart := started.kept.apart
      tables := by
        intro name table' found'
        obtain ⟨table, found, source⟩ := stocked.filed.source started found'
        obtain ⟨columns, live, saved, trees⟩ := stocked.each.tables name table found
        have stored := trees.stored
        rw [← stocked.filed.logs name table found] at stored
        exact ⟨columns, saved, saved, (TableIo.trees_opened stored trees.small source
          (started.kept.coherent name table' found') (started.rest.rests found').2).1⟩ }

/-- A restart gives the same tables with the same answers. -/
theorem Stocked.restart (stocked : state.Stocked) {listing : List String}
    (lists : Lists listing state.dir) (later : Host) :
    ∃ restarted, startUp (state.host.restarted later) listing state.dir = (.ok (), restarted) ∧
      Recalls state restarted ∧ restarted.Stocked := by
  obtain ⟨restarted, ran, started⟩ :=
    startUp_ok (stocked.filed.loadable stocked.described later) lists
  exact ⟨restarted, ran, stocked.filed.recalls stocked.described started, stocked.started started⟩

theorem stocked_new (host : Host) : (new host (fun _ => none) []).Stocked where
  filed :=
    { kept := kept_new host _
      rest := atRest_new host _
      named := by
        intro name table found
        cases found
      logs := by
        intro name table found
        cases found
      files := by
        intro path there
        cases there }
  each := standing_new host |>.each

theorem served_stocked {host : Host} {events : List (Option StorageCall)}
    (served : Reaches Served (new host (fun _ => none) []) events state) : state.Stocked := by
  apply served.invariant (stocked_new host)
  rintro before event after stocked step
  cases step with
  | stored stores ran => exact stocked.perform stores ran
  | restarted lists later =>
      obtain ⟨restarted, ran, -, next⟩ := stocked.restart lists later
      rwa [ran]

/-- Statements succeed on a directory that was empty, between restarts or without any. They create
tables whose names their files keep, and insert rows that cut full leaves late enough. Then a
restart over the files gives the same tables with the same answers. -/
theorem restart_recalls {host : Host} {events : List (Option StorageCall)}
    (served : Reaches Served (new host (fun _ => none) []) events state) {listing : List String}
    (lists : Lists listing state.dir) (later : Host) :
    ∃ restarted, startUp (state.host.restarted later) listing state.dir = (.ok (), restarted) ∧
      Recalls state restarted := by
  obtain ⟨restarted, ran, recalls, -⟩ := (served_stocked served).restart lists later
  exact ⟨restarted, ran, recalls⟩

/-! ### A leaf that is split -/

/-- The sizes of rows of one long text. -/
def longRows (_name : String) (size : Nat) : Prop := size = 1404

/-- One more row goes in, and its leaf is cut late enough if it is full. -/
theorem served_longRow {db : Database} {view : TableView} (represents : Represents longRows state db)
    (present : db "t" = some view) (columns : view.columns = [⟨"t", .text⟩])
    (few : view.live.rows.card < assuredRows) :
    ∃ after, Served state (some (.insert "t" longRow)) after ∧
      Represents longRows after (db.put "t" (view.insert ⟨longRow⟩)) := by
  obtain ⟨table, found, -, views⟩ := represents.present present
  have schema : table.store.columns = [⟨"t", .text⟩] := views.columns.trans columns
  have admits : TableView.Admits view.columns longRow := by
    rw [columns]
    exact longRow_admits
  have sized : Sized longRows state (.insert "t" longRow) := by
    intro store there _
    rw [tableAt_store found] at there
    obtain rfl := Option.some.inj there
    rw [schema]
    exact longRow_size
  obtain ⟨after, ran, next⟩ := represents.inserts (fun _ => Or.inl ⟨1404, fun _ => id⟩) sized
    present admits few
  have late : table.SplitsLate longRow := by
    obtain ⟨live, saved, trees, -⟩ := views.trees
    refine TableIo.Stands.splitsLate ⟨_, live, saved, trees⟩ fun key buf encoded => ?_
    obtain ⟨accepted, rfl, -⟩ := encodeRow_ok encoded
    rw [rowBytes_length accepted.arity accepted.typed, schema]
    exact longRow_size
  have stores : (StorageCall.insert "t" longRow).Stores state := by
    intro there same
    obtain rfl := Option.some.inj (found.symm.trans same)
    exact late
  obtain ⟨⟨⟩, between, inserted, ended⟩ := Exec.bind_eq_ok.mp ran
  obtain ⟨-, rfl⟩ := Prod.mk.inj ended
  exact ⟨between, .stored stores inserted, next⟩

/-- Three long rows split the first leaf of a table, and the server is started again twice. -/
theorem restart_recalls_split :
    ∃ state restarted listing, Reaches Served (new (Host.startingWith "t") (fun _ => none) [])
        [some (.createTable "t" [⟨"t", .text⟩]), some (.insert "t" longRow),
          some (.insert "t" longRow), some (.insert "t" longRow), none] state ∧
      Lists listing state.dir ∧
      startUp (state.host.restarted (Host.startingWith "u")) listing state.dir = (.ok (), restarted) ∧
      Recalls state restarted := by
  have keeps : KeepsName (Host.startingWith "t") "t" := ⟨by decide, by decide, by decide⟩
  obtain ⟨table, made, -, one⟩ := @Represents.createTable _ _ _ "t" [⟨"t", .text⟩]
    (represents_new longRows (Host.startingWith "t")) rfl keeps.own metadataFits_text
  have created : Served _ (some (.createTable "t" [⟨"t", .text⟩])) _ :=
    .stored ⟨keeps, fun column member => by
      obtain rfl := List.mem_singleton.mp member
      decide⟩ made
  obtain ⟨second, first, two⟩ := served_longRow one (Function.update_self _ _ _) rfl (by decide)
  obtain ⟨third, next, three⟩ := served_longRow two (Function.update_self _ _ _) rfl (by decide)
  obtain ⟨fourth, last, four⟩ := served_longRow three (Function.update_self _ _ _) rfl (by decide)
  have served := (((Reaches.refl.next created).next first).next next).next last
  have lists := (served_stocked served).filed.lists
  have again := served.next (.restarted lists (Host.startingWith "a"))
  have listsAgain := (served_stocked again).filed.lists
  obtain ⟨restarted, ran, recalls⟩ := restart_recalls again listsAgain (Host.startingWith "u")
  exact ⟨_, restarted, _, again, listsAgain, ran, recalls⟩

/-- The name `a.db` is lost: its file gives the name `a`. -/
theorem restart_loses_name :
    ∃ state restarted, StorageCall.perform (.createTable "a.db" [⟨"id", .integer⟩]) emptyStorage =
        (.ok (), state) ∧
      Lists ["a.db.db"] state.dir ∧
      startUp (Host.startingWith "a") ["a.db.db"] state.dir = (.ok (), restarted) ∧
      ¬ Recalls state restarted := by
  have answers : (createTable "a.db" [⟨"id", .integer⟩] emptyStorage).1 = .ok () ∧
      (selectAll "a.db" (createTable "a.db" [⟨"id", .integer⟩] emptyStorage).2).1 =
        .ok (["id"], []) ∧
      (startUp (Host.startingWith "a") ["a.db.db"]
        (createTable "a.db" [⟨"id", .integer⟩] emptyStorage).2.dir).1 = .ok () ∧
      (selectAll "a.db" (startUp (Host.startingWith "a") ["a.db.db"]
        (createTable "a.db" [⟨"id", .integer⟩] emptyStorage).2.dir).2).1 =
          .error (notFound "a.db") := by
    decide +kernel
  obtain ⟨created, before, started, after⟩ := answers
  have ran : createTable "a.db" [⟨"id", .integer⟩] emptyStorage = (.ok (), _) := Prod.ext created rfl
  obtain ⟨-, -, table, -, path, same⟩ := createTable_eq_ok rfl ran
  refine ⟨_, _, ran, ?_, Prod.ext started rfl, fun recalls => ?_⟩
  · refine ⟨List.nodup_singleton _, fun file _ => ?_⟩
    rw [show emptyStorage.fileOf "a.db" = pathOf "a.db" by decide] at path same
    rw [same]
    change _ ↔ (Function.update (Function.update (fun _ => none) (pathOf "a.db") _)
      table.store.path (some table.disk) file).isSome ∧ _
    rw [path, Function.update_idem, List.mem_singleton, show "a.db.db" = pathOf "a.db" from rfl]
    by_cases here : file = pathOf "a.db"
    · subst here
      simp only [Function.update_self, Option.isSome_some, true_and, true_iff]
      decide
    · simp [here]
  · have answer := recalls.answers "a.db"
    rw [after, before] at answer
    cases answer

end Storage

end MukhiDb.Model
