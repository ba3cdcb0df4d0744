import MukhiDb.Foundation.Runs
import MukhiDb.BTree.OnPager
import MukhiDb.Pager.Opening
import MukhiDb.Storage.Tables

/-!
Contract: the storages that calls can lead to.

Owns: the calls on a storage; runs of calls that come back; and the invariant of
runs whose I/O succeeds and that open no file twice: the tables stay apart and
their pagers stay coherent, whatever the calls return.

Does not own: what the calls answer.
-/

namespace MukhiDb.Model

open MukhiDb.Foundation

/-! ### Calls that keep a table safe -/

/-- A coherent pager whose I/O succeeds stays one. -/
def PagerIo.Safe (before after : PagerIo) : Prop :=
  before.Coherent → before.Quiet → after.Coherent ∧ after.Quiet

namespace PagerIo

theorem Safe.refl (state : PagerIo) : Safe state state := fun coherent quiet => ⟨coherent, quiet⟩

theorem Safe.trans {first second third : PagerIo} (left : Safe first second)
    (right : Safe second third) : Safe first third := by
  intro coherent quiet
  obtain ⟨coherent, quiet⟩ := left coherent quiet
  exact right coherent quiet

theorem perform_safe {α : Type} (program : PageProgram α) :
    Exec.Preserves Safe (Pager.perform program) := by
  intro state coherent quiet
  obtain ⟨coherentAfter, frame⟩ := perform_loose program state coherent quiet
  exact ⟨coherentAfter, frame.quiet quiet⟩

theorem begin_safe : Exec.Preserves Safe Pager.begin := by
  intro state coherent quiet
  cases busy : state.pager.inTransaction with
  | true =>
      rw [begin_busy busy]
      exact ⟨coherent, quiet⟩
  | false =>
      rw [begin_ok busy]
      exact ⟨{ coherent with }, quiet⟩

theorem commit_safe : Exec.Preserves Safe Pager.commit := by
  intro state coherent quiet
  rw [commit_ok quiet]
  exact ⟨coherent.committed_coherent, quiet⟩

theorem rollback_safe : Exec.Preserves Safe Pager.rollback := by
  intro state coherent quiet
  rw [rollback_ok quiet]
  exact ⟨coherent.consistent.rolledBack_coherent, quiet⟩

end PagerIo

namespace TableIo

/-- The table's pager stays coherent, its I/O succeeds, and it keeps its file. -/
def Safe (before after : TableIo) : Prop :=
  SamePath before after ∧ PagerIo.Safe before.io after.io

theorem Safe.refl (table : TableIo) : Safe table table := ⟨rfl, PagerIo.Safe.refl _⟩

theorem Safe.bind {α β : Type} {first : Exec TableIo α} {next : α → Exec TableIo β}
    (head : Exec.Preserves Safe first) (tail : ∀ value, Exec.Preserves Safe (next value)) :
    Exec.Preserves Safe (first >>= next) :=
  Exec.Preserves.bind (fun left right => ⟨right.1.trans left.1, left.2.trans right.2⟩) head tail

theorem Safe.of_unchanged {α : Type} {program : Exec TableIo α}
    (unchanged : ∀ state, (program state).2 = state) : Exec.Preserves Safe program :=
  Exec.Preserves.of_unchanged Safe.refl unchanged

theorem onPager_safe {α : Type} {call : Exec PagerIo α}
    (safe : Exec.Preserves PagerIo.Safe call) : Exec.Preserves Safe (onPager call) :=
  fun table => ⟨rfl, safe table.io⟩

theorem onPages_safe {α : Type} (program : PageProgram α) :
    Exec.Preserves Safe (onPages program) :=
  onPager_safe (PagerIo.perform_safe program)

theorem setRoot_safe (root : Nat) : Exec.Preserves Safe (setRoot root) :=
  fun _ => ⟨rfl, PagerIo.Safe.refl _⟩

theorem flushOutside_safe : Exec.Preserves Safe flushOutside := by
  apply Safe.bind (Safe.of_unchanged fun _ => rfl)
  intro table
  split
  · exact Safe.of_unchanged fun _ => rfl
  · exact onPager_safe PagerIo.commit_safe

theorem insert_safe (values : List Value) : Exec.Preserves Safe (insert values) := by
  apply Safe.bind (Safe.of_unchanged fun _ => rfl)
  intro table
  apply Safe.bind (Safe.of_unchanged fun _ => rfl)
  intro encoded
  apply Safe.bind (Safe.of_unchanged fun _ => rfl)
  intro table
  apply Safe.bind (onPages_safe _)
  intro newRoot
  refine Safe.bind ?_ fun _ => flushOutside_safe
  split
  · exact Safe.bind (setRoot_safe _) fun _ => onPages_safe _
  · exact Safe.of_unchanged fun _ => rfl

theorem selectAll_safe : Exec.Preserves Safe selectAll := by
  apply Safe.bind (Safe.of_unchanged fun _ => rfl)
  intro table
  apply Safe.bind (onPages_safe _)
  intro rawRows
  apply Safe.bind (Safe.of_unchanged fun _ => rfl)
  exact fun rows => Safe.of_unchanged fun _ => rfl

theorem dumpBtree_safe : Exec.Preserves Safe dumpBtree := by
  apply Safe.bind (Safe.of_unchanged fun _ => rfl)
  exact fun table => onPages_safe _

theorem begin_safe : Exec.Preserves Safe begin := onPager_safe PagerIo.begin_safe

theorem commit_safe : Exec.Preserves Safe commit := onPager_safe PagerIo.commit_safe

theorem rollback_safe : Exec.Preserves Safe rollback := by
  apply Safe.bind (onPager_safe PagerIo.rollback_safe)
  intro _
  apply Safe.bind (onPages_safe _)
  exact fun metadata => setRoot_safe _

theorem load_safe : Exec.Preserves Safe load := by
  apply Safe.bind (onPages_safe _)
  exact fun metadata _ => ⟨rfl, PagerIo.Safe.refl _⟩

theorem create_safe (columns : List Column) : Exec.Preserves Safe (create columns) := by
  apply Safe.bind (onPages_safe _)
  intro _
  apply Safe.bind (onPages_safe _)
  intro rootPage
  apply Safe.bind (onPages_safe _)
  intro _
  apply Safe.bind flushOutside_safe
  exact fun _ _ => ⟨rfl, PagerIo.Safe.refl _⟩

theorem Safe.samePath {α : Type} {call : Exec TableIo α} (safe : Exec.Preserves Safe call) :
    Exec.Preserves SamePath call :=
  fun table => (safe table).1

end TableIo

/-! ### Storages that keep their tables apart and coherent -/

namespace Storage

variable {state after : Storage} {name path : String}

/-- I/O succeeds, no two tables have a file in common, and every pager is coherent. -/
structure Kept (state : Storage) : Prop where
  quiet : state.schedule = []
  apart : state.Apart
  coherent : ∀ name table, state.tableAt name = some table → table.io.Coherent

theorem Kept.table_quiet (kept : state.Kept) {table : TableIo}
    (found : state.tableAt name = some table) : table.io.Quiet :=
  (tableAt_schedule found).trans kept.quiet

/-- A table in a safe state, with a file that no other table has open, can be put in. -/
theorem Kept.put (kept : state.Kept) {table : TableIo} (coherent : table.io.Coherent)
    (quiet : table.io.Quiet) (unused : state.Unused name table.store.path) :
    (state.put name table).Kept := by
  have still : table.schedule = state.schedule := Eq.trans quiet kept.quiet.symm
  refine ⟨quiet, kept.apart.put unused still, ?_⟩
  intro other there found
  rw [tableAt_put unused still] at found
  by_cases same : other = name
  · subst same
    rw [Function.update_self] at found
    obtain rfl := Option.some.inj found
    exact coherent
  · rw [Function.update_of_ne same] at found
    exact kept.coherent other there found

/-- A safe call on one table, whatever it returns. -/
theorem Kept.onTable {α : Type} {call : Exec TableIo α} (kept : state.Kept)
    (safe : Exec.Preserves TableIo.Safe call) (name : String) (missing : Fault) :
    (onTable name missing call state).2.Kept := by
  rcases found : state.tableAt name with _ | table
  · rw [onTable_missing found]
    exact kept
  · obtain ⟨samePath, stays⟩ := safe table
    obtain ⟨coherent, quiet⟩ := stays (kept.coherent name table found) (kept.table_quiet found)
    rw [onTable_found found (TableIo.Safe.samePath safe)]
    exact kept.put coherent quiet (kept.apart.unused found samePath)

theorem Kept.forEach {call : Exec TableIo Unit} (kept : state.Kept)
    (safe : Exec.Preserves TableIo.Safe call) (names : List String) :
    (forEach call names state).2.Kept := by
  induction names generalizing state with
  | nil => exact kept
  | cons name rest inductionHypothesis =>
      have next := kept.onTable safe name .panic
      unfold Storage.forEach
      rcases ran : Storage.onTable name .panic call state with ⟨_ | _, middle⟩
      · rw [ran] at next
        rw [Exec.bind_error ran]
        exact next
      · rw [ran] at next
        rw [Exec.bind_ok ran]
        exact inductionHypothesis next

theorem Kept.forAll {call : Exec TableIo Unit} (kept : state.Kept)
    (safe : Exec.Preserves TableIo.Safe call) : (forAll call state).2.Kept := by
  unfold Storage.forAll
  rw [Exec.bind_ok (Exec.run_get state)]
  exact kept.forEach safe _

/-- The calls of a loop that succeeds all succeed. -/
theorem Kept.forEach_returned {call : Exec TableIo Unit} (kept : state.Kept)
    (safe : Exec.Preserves TableIo.Safe call) {names : List String} (distinct : names.Nodup)
    (ran : (Storage.forEach call names state).1 = .ok ()) :
    ∀ name ∈ names, ∀ table, state.tableAt name = some table → (call table).1 = .ok () := by
  induction names generalizing state with
  | nil => simp
  | cons first rest inductionHypothesis =>
      obtain ⟨fresh, distinct⟩ := List.nodup_cons.mp distinct
      have next := kept.onTable safe first .panic
      unfold Storage.forEach at ran
      rcases called : Storage.onTable first .panic call state with ⟨fault | ⟨⟩, middle⟩
      · rw [Exec.bind_error called] at ran
        cases ran
      · rw [Exec.bind_ok called] at ran
        rw [called] at next
        intro name member table found
        rcases List.mem_cons.mp member with rfl | later
        · rw [onTable_found found (TableIo.Safe.samePath safe)] at called
          exact congrArg Prod.fst called
        · apply inductionHypothesis next distinct ran name later table
          rcases there : state.tableAt first with _ | start
          · rw [onTable_missing there] at called
            cases called
          · rw [onTable_found there (TableIo.Safe.samePath safe)] at called
            obtain rfl := congrArg Prod.snd called
            have still : (call start).2.schedule = state.schedule :=
              Eq.trans next.quiet kept.quiet.symm
            have unused := kept.apart.unused there (TableIo.Safe.samePath safe start)
            rw [tableAt_put unused still, Function.update_of_ne, found]
            rintro rfl
            exact fresh later

theorem Kept.forAll_returned {call : Exec TableIo Unit} (kept : state.Kept)
    (safe : Exec.Preserves TableIo.Safe call) (ran : (Storage.forAll call state).1 = .ok ()) :
    ∀ name table, state.tableAt name = some table → (call table).1 = .ok () := by
  unfold Storage.forAll at ran
  rw [Exec.bind_ok (Exec.run_get state)] at ran
  intro name table found
  refine kept.forEach_returned safe (state.host.nodup_order _) ran name ?_ table found
  exact (state.host.mem_order _ _).mpr (mem_keys.mpr ⟨table, found⟩)

/-! ### Opening files -/

/-- No table has the file open. -/
def Closed (state : Storage) (path : String) : Prop :=
  ∀ name table, state.tableAt name = some table → table.store.path ≠ path

/-- The storage with other files at a path. -/
def withFiles (path : String) (disk : Disk) (state : Storage) : Storage :=
  { state with dir := Function.update state.dir path (some disk) }

theorem filesAt_withFiles (disk : Disk) :
    (state.withFiles path disk).filesAt path = disk := by
  simp [withFiles, filesAt]

theorem tableAt_withFiles (closed : state.Closed path) (disk : Disk) :
    (state.withFiles path disk).tableAt = state.tableAt := by
  funext name
  rcases opened : state.tables.lookup name with _ | store
  · have still : (state.withFiles path disk).tables.lookup name = none := opened
    rw [tableAt_eq_none.mpr opened, tableAt_eq_none.mpr still]
  · have there := tableAt_eq_some.mpr ⟨store, opened, rfl⟩
    have apart : store.path ≠ path := closed name _ there
    rw [there]
    apply tableAt_eq_some.mpr
    refine ⟨store, opened, ?_⟩
    have same : (state.withFiles path disk).filesAt store.path = state.filesAt store.path := by
      simp [withFiles, filesAt, apart]
    rw [same]
    rfl

theorem Kept.withFiles (kept : state.Kept) (closed : state.Closed path) (disk : Disk) :
    (state.withFiles path disk).Kept := by
  have tables := tableAt_withFiles closed disk
  refine ⟨kept.quiet, ?_, ?_⟩
  · unfold Apart
    rw [tables]
    exact kept.apart
  · rw [tables]
    exact kept.coherent

theorem openPager_quiet (quiet : state.schedule = []) (path : String) :
    openPager path state = ((Pager.open path ⟨state.filesAt path, []⟩).1,
      state.withFiles path (Pager.open path ⟨state.filesAt path, []⟩).2.disk) := by
  have ends : (Pager.open path ⟨state.filesAt path, []⟩).2.schedule = [] := by
    by_cases aligned : (state.filesAt path).Aligned
    · rw [Pager.open_ok path aligned]
    · rw [Pager.open_misaligned path aligned]
  obtain ⟨tables, host, dir, schedule⟩ := state
  obtain rfl : schedule = [] := quiet
  unfold openPager
  dsimp only
  rw [if_pos (Or.inr (show firstCallDone [] = true from rfl)), ends]
  rfl

/-- The table that is set up with a pager that was just opened. -/
def opening (state : Storage) (path : String) (pager : Pager) : TableIo :=
  ⟨⟨path, pager, [], 0⟩, state.filesAt path, state.schedule⟩

theorem addTable_ok {pager : Pager} {setUp : Exec TableIo Unit} {table : TableIo}
    (ran : setUp (state.opening path pager) = (.ok (), table)) (samePath : table.store.path = path) :
    addTable name path pager setUp state = (.ok (), state.put name table) := by
  unfold addTable
  rw [show setUp ⟨⟨path, pager, [], 0⟩, state.filesAt path, state.schedule⟩ = _ from ran]
  subst samePath
  rfl

/-- `open_table` opens the file that the path leads to. -/
theorem openTable_opens (name path : String) (state : Storage) :
    openTable name path state = (openPager (state.host.resolve path) >>= fun pager =>
      addTable name (state.host.resolve path) pager TableIo.load) state := rfl

/-- `create_table` under a free name opens the file of the name. -/
theorem createTable_opens {columns : List Column} (fresh : state.tableAt name = none) :
    createTable name columns state = (openPager (state.fileOf name) >>= fun pager =>
      addTable name (state.fileOf name) pager (TableIo.create columns)) state := by
  unfold createTable
  rw [Exec.bind_ok (Exec.run_get state), if_neg (by rw [tableAt_eq_none.mp fresh]; simp)]

theorem addTable_error {pager : Pager} {setUp : Exec TableIo Unit} {table : TableIo}
    {fault : Fault} (ran : setUp (state.opening path pager) = (.error fault, table)) :
    addTable name path pager setUp state =
      (.error fault, { state.withFiles path table.disk with schedule := table.schedule }) := by
  unfold addTable
  rw [show setUp ⟨⟨path, pager, [], 0⟩, state.filesAt path, state.schedule⟩ = _ from ran]
  rfl

theorem Closed.unused (closed : state.Closed path) : state.Unused name path :=
  fun other there _ found => closed other there found

/-- Opening a file and setting a table up with it. -/
theorem Kept.addTable (kept : state.Kept) (closed : state.Closed path)
    {setUp : Exec TableIo Unit} (safe : Exec.Preserves TableIo.Safe setUp) :
    ((do
      let pager ← openPager path
      addTable name path pager setUp : Exec Storage Unit) state).2.Kept := by
  have opened := openPager_quiet kept.quiet path
  by_cases aligned : (state.filesAt path).Aligned
  · rw [Pager.open_ok path aligned] at opened
    have next := kept.withFiles closed (state.filesAt path).recovered
    have closedNext : (state.withFiles path (state.filesAt path).recovered).Closed path := by
      unfold Closed
      rw [tableAt_withFiles closed]
      exact closed
    rw [Exec.bind_ok opened]
    dsimp only
    generalize atStart : (state.withFiles path (state.filesAt path).recovered).opening path
      (Pager.fresh (state.filesAt path).recovered.db.length) = start
    have io : start.io = ⟨Pager.fresh (state.filesAt path).recovered.db.length,
        (state.filesAt path).recovered, state.schedule⟩ := by
      rw [← atStart, TableIo.io, opening, filesAt_withFiles]
      rfl
    have coherentStart : start.io.Coherent := by
      rw [io]
      exact Pager.fresh_coherent aligned.recovered _
    have quietStart : start.io.Quiet := by
      rw [io]
      exact kept.quiet
    obtain ⟨samePath, stays⟩ := safe start
    obtain ⟨coherent, quiet⟩ := stays coherentStart quietStart
    have path' : (setUp start).2.store.path = path := by
      rw [samePath, ← atStart]
      rfl
    rcases ran : setUp start with ⟨fault | ⟨⟩, table⟩
    · rw [ran] at quiet
      rw [addTable_error (atStart ▸ ran), show table.schedule = [] from quiet, ← next.quiet]
      exact next.withFiles closedNext table.disk
    · rw [ran] at coherent quiet path'
      dsimp only at path'
      rw [addTable_ok (atStart ▸ ran) path']
      exact next.put coherent quiet (path' ▸ closedNext.unused)
  · rw [Pager.open_misaligned path aligned] at opened
    rw [Exec.bind_error opened]
    exact kept.withFiles closed _

/-! ### Runs of calls -/

end Storage

/-- A call on a storage. -/
inductive StorageCall where
  | openTable (name path : String)
  | createTable (name : String) (columns : List Column)
  | insert (name : String) (values : List Value)
  | selectAll (name : String)
  | dumpBtree (name : String)
  | begin
  | commit
  | rollback

/-- Run a call. -/
def StorageCall.perform : StorageCall → Exec Storage Unit
  | openTable name path => Storage.openTable name path
  | createTable name columns => Storage.createTable name columns
  | insert name values => Storage.insert name values
  | selectAll name => do let _ ← Storage.selectAll name
  | dumpBtree name => do let _ ← Storage.dumpBtree name
  | begin => Storage.begin
  | commit => Storage.commit
  | rollback => Storage.rollback

/-- The call opens no file that a table has open. -/
def StorageCall.OpensClosed : StorageCall → Storage → Prop
  | openTable _ path, state => state.Closed (state.host.resolve path)
  | createTable name _, state =>
      (state.tables.lookup name).isSome ∨ state.Closed (state.fileOf name)
  | _, _ => True

/-- A computation came back to its caller, with `Ok` or with `Err`. -/
def Returned {α : Type} (result : Except Fault α) : Prop :=
  ∀ fault, result = .error fault → ∃ message, fault = .error message

namespace Storage

variable {state after : Storage}

/-- A call that came back. -/
def Step (state : Storage) (call : StorageCall) (after : Storage) : Prop :=
  Returned (call.perform state).1 ∧ after = (call.perform state).2

/-- A call that came back and opened no file twice. -/
def StepApart (state : Storage) (call : StorageCall) (after : Storage) : Prop :=
  call.OpensClosed state ∧ Step state call after

theorem Kept.discard {α : Type} {call : Exec Storage α} (kept : (call state).2.Kept) :
    ((do let _ ← call : Exec Storage Unit) state).2.Kept := by
  rw [Exec.run_bind]
  rcases ran : call state with ⟨_ | _, after⟩
  · rw [ran] at kept
    exact kept
  · rw [ran] at kept
    exact kept

theorem Kept.perform (kept : state.Kept) {call : StorageCall} (closed : call.OpensClosed state) :
    (call.perform state).2.Kept := by
  cases call with
  | openTable name path =>
      change (openTable name path state).2.Kept
      rw [openTable_opens]
      exact kept.addTable closed TableIo.load_safe
  | createTable name columns =>
      change (createTable name columns state).2.Kept
      unfold createTable
      rw [Exec.bind_ok (Exec.run_get state)]
      split
      · exact kept
      · next fresh =>
          exact kept.addTable (closed.resolve_left fresh) (TableIo.create_safe columns)
  | insert name values => exact kept.onTable (TableIo.insert_safe values) name _
  | selectAll name => exact (kept.onTable TableIo.selectAll_safe name _).discard
  | dumpBtree name => exact (kept.onTable TableIo.dumpBtree_safe name _).discard
  | begin => exact kept.forAll TableIo.begin_safe
  | commit => exact kept.forAll TableIo.commit_safe
  | rollback => exact kept.forAll TableIo.rollback_safe

theorem kept_new (host : Host) (dir : String → Option Disk) : (new host dir []).Kept where
  quiet := rfl
  apart := by
    intro name other table _ _ found
    cases found
  coherent := by
    intro name table found
    cases found

/-- Runs whose I/O succeeds and that open no file twice. -/
theorem reaches_kept {host : Host} {dir : String → Option Disk} {calls : List StorageCall}
    (reaches : Reaches StepApart (new host dir []) calls state) : state.Kept := by
  apply reaches.invariant (kept_new host dir)
  rintro before call after kept ⟨closed, -, rfl⟩
  exact kept.perform closed

end Storage

end MukhiDb.Model
