import MukhiDb.Foundation.Runs
import MukhiDb.Storage.Views

/-!
Contract: a storage as the database sees it.

Owns: when a storage over a directory represents a database; that the closure of every
operation gives an answer that the database may give and leaves a storage that represents
what it may leave; and runs of operations from an empty directory.

Does not own: sessions, restarts and I/O calls that fail.
-/

namespace MukhiDb.Model

open MukhiDb.Foundation

namespace Storage

/-- Every table of the database is a table of the storage, in a file of its own name, and there
are no other tables and files. -/
structure Represents (sizes : String → Nat → Prop) (state : Storage) (db : Database) : Prop where
  quiet : state.schedule = []
  tables : ∀ name, Option.Rel
    (fun table view => table.store.path = pathOf name ∧ table.Views (sizes name) view)
    (state.tableAt name) (db name)
  files : ∀ path, (state.dir path).isSome ↔ ∃ name, (db name).isSome ∧ path = pathOf name

section Represents

variable {sizes : String → Nat → Prop} {state : Storage} {db : Database} {name : String}
  {table after : TableIo} {view left : TableView}

/-! ### Tables -/

theorem Represents.present (represents : Represents sizes state db) (present : db name = some view) :
    ∃ table, state.tableAt name = some table ∧ table.store.path = pathOf name ∧
      table.Views (sizes name) view := by
  have both := represents.tables name
  rw [present] at both
  cases found : state.tableAt name with
  | none => rw [found] at both; cases both
  | some table =>
      rw [found, Option.rel_some_some] at both
      exact ⟨table, rfl, both⟩

theorem Represents.found (represents : Represents sizes state db)
    (found : state.tableAt name = some table) :
    ∃ view, db name = some view ∧ table.store.path = pathOf name ∧ table.Views (sizes name) view := by
  have both := represents.tables name
  rw [found] at both
  cases present : db name with
  | none => rw [present] at both; cases both
  | some view =>
      rw [present, Option.rel_some_some] at both
      exact ⟨view, rfl, both⟩

theorem Represents.absent (represents : Represents sizes state db) :
    state.tableAt name = none ↔ db name = none := by
  have both := represents.tables name
  constructor
  · intro missing
    rw [missing] at both
    cases present : db name with
    | none => rfl
    | some view => rw [present] at both; cases both
  · intro missing
    rw [missing] at both
    cases found : state.tableAt name with
    | none => rfl
    | some table => rw [found] at both; cases both

/-- No other table has a file of this name. -/
theorem Represents.unused (represents : Represents sizes state db) (name : String) :
    state.Unused name (pathOf name) := by
  intro other there different found
  obtain ⟨_, -, path, -⟩ := represents.found found
  rw [path]
  exact fun same => different (pathOf_injective same)

theorem Represents.tableAt_put (represents : Represents sizes state db)
    (path : after.store.path = pathOf name) (quiet : after.schedule = []) :
    (state.put name after).tableAt = Function.update state.tableAt name (some after) := by
  refine Storage.tableAt_put ?_ (quiet.trans represents.quiet.symm)
  rw [path]
  exact represents.unused name

/-- A table is put in, in a file of its own name. -/
theorem Represents.put (represents : Represents sizes state db)
    (path : after.store.path = pathOf name) (views : after.Views (sizes name) left) :
    Represents sizes (state.put name after) (db.put name left) := by
  refine ⟨views.quiet, fun other => ?_, fun file => ?_⟩
  · rw [represents.tableAt_put path views.quiet]
    unfold Database.put
    by_cases same : other = name
    · subst same
      rw [Function.update_self, Function.update_self]
      exact Option.rel_some_some.mpr ⟨path, views⟩
    · rw [Function.update_of_ne same, Function.update_of_ne same]
      exact represents.tables other
  · have files := represents.files file
    change (Function.update state.dir after.store.path (some after.disk) file).isSome ↔
      ∃ other, (Function.update db name (some left) other).isSome ∧ file = pathOf other
    rw [path]
    by_cases same : file = pathOf name
    · subst same
      simp only [Function.update_self, Option.isSome_some, true_iff]
      exact ⟨name, by simp, rfl⟩
    · rw [Function.update_of_ne same, files]
      refine exists_congr fun other => and_congr_left fun own => ?_
      have different : other ≠ name := by
        rintro rfl
        exact same own
      rw [Function.update_of_ne different]

/-- A call on a table that is there. -/
theorem Represents.onTable {α : Type} {call : Exec TableIo α} {result : Except Fault α}
    (represents : Represents sizes state db) (found : state.tableAt name = some table)
    (samePath : Exec.Preserves TableIo.SamePath call) (ran : call table = (result, after))
    (views : after.Views (sizes name) left) (missing : Fault) :
    onTable name missing call state = (result, state.put name after) ∧
      Represents sizes (state.put name after) (db.put name left) := by
  obtain ⟨view, -, path, -⟩ := represents.found found
  have kept := samePath table
  have both := @onTable_found state name table _ call missing found samePath
  rw [ran] at kept both
  exact ⟨both, represents.put (kept.trans path) views⟩

/-- A call on a table that shows the same rows afterwards. -/
theorem Represents.onTable_same {α : Type} {call : Exec TableIo α} {result : Except Fault α}
    (represents : Represents sizes state db) (found : state.tableAt name = some table)
    (present : db name = some view) (samePath : Exec.Preserves TableIo.SamePath call)
    (ran : call table = (result, after)) (views : after.Views (sizes name) view) (missing : Fault) :
    Storage.onTable name missing call state = (result, state.put name after) ∧
      Represents sizes (state.put name after) db := by
  obtain ⟨both, next⟩ := represents.onTable found samePath ran views missing
  have same : db.put name view = db := Function.update_eq_self_iff.mpr present.symm
  rw [same] at next
  exact ⟨both, next⟩

/-- A scan of a table that is there. -/
theorem Represents.selects (represents : Represents sizes state db) (present : db name = some view) :
    ∃ rows after, selectAll name state = (.ok (view.columns.map Column.name, rows), after) ∧
      view.InOrder rows ∧ Represents sizes after db := by
  obtain ⟨table, found, -, views⟩ := represents.present present
  obtain ⟨rows, after, ran, order, same⟩ := views.selectAll
  obtain ⟨both, next⟩ := represents.onTable_same found present
    (TableIo.Safe.samePath TableIo.selectAll_safe) ran same (notFound name)
  exact ⟨rows, _, both, order, next⟩

/-! ### Loops over all tables -/

theorem Represents.visited (represents : Represents sizes state db) (name : String) :
    name ∈ state.visited ↔ (db name).isSome := by
  rw [visited_present, Option.isSome_iff_exists]
  constructor
  · rintro ⟨table, found⟩
    obtain ⟨view, present, -⟩ := represents.found found
    exact ⟨view, present⟩
  · rintro ⟨view, present⟩
    obtain ⟨table, found, -⟩ := represents.present present
    exact ⟨table, found⟩

/-- The tables of a list are changed. -/
def changeAll (change : TableView → TableView) (names : List String) (db : Database) : Database :=
  fun name => if name ∈ names then (db name).map change else db name

/-- A loop whose call succeeds on every table. -/
theorem Represents.forEach {call : Exec TableIo Unit} {change : TableView → TableView}
    (represents : Represents sizes state db) (samePath : Exec.Preserves TableIo.SamePath call)
    {names : List String} (distinct : names.Nodup)
    (each : ∀ name ∈ names, ∃ view, db name = some view ∧ ∀ table, table.Views (sizes name) view →
      ∃ after, call table = (.ok (), after) ∧ after.Views (sizes name) (change view)) :
    ∃ after, Storage.forEach call names state = (.ok (), after) ∧
      Represents sizes after (changeAll change names db) := by
  induction names generalizing state db with
  | nil => exact ⟨state, rfl, represents⟩
  | cons name rest inductionHypothesis =>
      obtain ⟨outside, distinct⟩ := List.nodup_cons.mp distinct
      obtain ⟨view, present, succeeds⟩ := each name List.mem_cons_self
      obtain ⟨table, found, -, views⟩ := represents.present present
      obtain ⟨there, ran, changed⟩ := succeeds table views
      obtain ⟨first, next⟩ := represents.onTable found samePath ran changed .panic
      obtain ⟨after, rans, ended⟩ := inductionHypothesis next distinct fun other member => by
        obtain ⟨view, present, succeeds⟩ := each other (List.mem_cons_of_mem _ member)
        refine ⟨view, ?_, succeeds⟩
        unfold Database.put
        rwa [Function.update_of_ne]
        rintro rfl
        exact outside member
      refine ⟨after, ?_, ?_⟩
      · unfold Storage.forEach
        rw [Exec.bind_ok first, rans]
      · have same : changeAll change rest (db.put name (change view)) =
            changeAll change (name :: rest) db := by
          funext other
          unfold changeAll Database.put
          by_cases own : other = name
          · subst own
            simp [outside, present]
          · simp [own]
        rwa [same] at ended

/-- A loop over all tables whose call succeeds on every one. -/
theorem Represents.forAll {call : Exec TableIo Unit} {change : TableView → TableView}
    (represents : Represents sizes state db) (samePath : Exec.Preserves TableIo.SamePath call)
    (each : ∀ name view, db name = some view → ∀ table, table.Views (sizes name) view →
      ∃ after, call table = (.ok (), after) ∧ after.Views (sizes name) (change view)) :
    ∃ after, Storage.forAll call state = (.ok (), after) ∧ Represents sizes after (db.map change) := by
  have distinct : state.visited.Nodup := state.host.nodup_order _
  obtain ⟨after, ran, ended⟩ := represents.forEach samePath distinct fun name member => by
    obtain ⟨view, present⟩ := Option.isSome_iff_exists.mp ((represents.visited name).mp member)
    exact ⟨view, present, each name view present⟩
  refine ⟨after, ran, ?_⟩
  have same : changeAll change state.visited db = db.map change := by
    funext name
    unfold changeAll Database.map
    split
    · rfl
    · next outside =>
        rw [represents.visited, Option.not_isSome_iff_eq_none] at outside
        rw [outside]
        rfl
  rwa [same] at ended

/-- A loop of begin that comes to a table that is in a transaction stops there. -/
theorem Represents.forEach_busy (represents : Represents sizes state db) {names : List String}
    (distinct : names.Nodup) (present : ∀ name ∈ names, (db name).isSome)
    (busy : ∃ name ∈ names, ∃ view, db name = some view ∧ view.inTransaction = true) :
    ∃ after left, Storage.forEach TableIo.begin names state =
        (.error (.error "Already in a transaction."), after) ∧ Represents sizes after left ∧
      ∀ name, left name = db name ∨ left name = (db name).map TableView.begin := by
  have samePath := TableIo.Safe.samePath TableIo.begin_safe
  induction names generalizing state db with
  | nil =>
      obtain ⟨name, member, -⟩ := busy
      cases member
  | cons name rest inductionHypothesis =>
      obtain ⟨outside, distinct⟩ := List.nodup_cons.mp distinct
      obtain ⟨view, there⟩ := Option.isSome_iff_exists.mp (present name List.mem_cons_self)
      obtain ⟨table, found, -, views⟩ := represents.present there
      unfold Storage.forEach
      rcases open_ : view.inTransaction with _ | _
      · obtain ⟨next, ran, changed⟩ := views.begin open_
        obtain ⟨first, middle⟩ := represents.onTable found samePath ran changed .panic
        have apart (other : String) (different : other ≠ name) :
            db.put name view.begin other = db other := Function.update_of_ne different _ _
        obtain ⟨after, left, rans, ended, ways⟩ := inductionHypothesis middle distinct
          (fun other member => by
            rw [apart other fun same => outside (same ▸ member)]
            exact present other (List.mem_cons_of_mem _ member))
          (by
            obtain ⟨other, member, busyView, busyThere, busyOpen⟩ := busy
            have different : other ≠ name := by
              rintro rfl
              rw [there] at busyThere
              rw [Option.some.inj busyThere, busyOpen] at open_
              cases open_
            refine ⟨other, (List.mem_cons.mp member).resolve_left different, busyView, ?_, busyOpen⟩
            rw [apart other different, busyThere])
        refine ⟨after, left, by rw [Exec.bind_ok first, rans], ended, fun other => ?_⟩
        by_cases same : other = name
        · subst same
          have begun : db.put other view.begin other = (db other).map TableView.begin := by
            rw [there]
            exact Function.update_self _ _ _
          have again : ((db other).map TableView.begin).map TableView.begin =
              (db other).map TableView.begin := by
            rw [Option.map_map]
            rfl
          rcases ways other with same | same
          · exact Or.inr (same.trans begun)
          · refine Or.inr (same.trans ?_)
            rw [begun, again]
        · rw [← apart other same]
          exact ways other
      · obtain ⟨stopped, same⟩ :=
          represents.onTable_same found there samePath (views.busy open_) views .panic
        exact ⟨_, db, Exec.bind_error stopped, same, fun other => Or.inl rfl⟩

/-! ### Operations -/

/-- A table is created under a name that is free. -/
theorem Represents.createTable {columns : List Column} (represents : Represents sizes state db)
    (absent : db name = none) (own : state.fileOf name = pathOf name) (small : MetadataFits columns) :
    ∃ table, Storage.createTable name columns state = (.ok (), state.put name table) ∧
      table.disk.log = [] ∧ Represents sizes (state.put name table) (db.put name (.fresh columns)) := by
  have fresh := represents.absent.mpr absent
  have none : state.dir (pathOf name) = none := by
    rw [← Option.not_isSome_iff_eq_none, represents.files]
    rintro ⟨other, there, same⟩
    rw [← pathOf_injective same, absent] at there
    cases there
  have files : state.filesAt (state.fileOf name) = ⟨[], []⟩ := by
    unfold filesAt
    rw [own, none]
    rfl
  have recovered : (state.filesAt (state.fileOf name)).recovered = ⟨[], []⟩ := by
    rw [files]
    exact Disk.recovered_of_empty rfl
  have ready : state.ReadyFor name :=
    { quiet := represents.quiet
      fresh := fresh
      aligned := by
        rw [files]
        rfl
      room := by
        rw [recovered]
        decide }
  have count : (state.creating (state.fileOf name)).io.count = 0 := by
    rw [ready.count, recovered]
    rfl
  obtain ⟨table, made, path, log, views⟩ :=
    @TableIo.views_create (sizes name) columns _ ready.sound count rfl small
  have path : table.store.path = state.fileOf name := path
  refine ⟨table, ?_, log, represents.put (path.trans own) views⟩
  rw [createTable_aligned represents.quiet fresh ready.aligned]
  refine (addTable_ok made path).trans ?_
  -- the empty files at the path are replaced when the table is put in
  unfold Storage.put withFiles
  dsimp only
  rw [path, Function.update_idem]

end Represents

/-- Tables are created with metadata that fits, and with paths that lead to the files of their names;
and the rows that a table accepts have one of its sizes. -/
def Sized (sizes : String → Nat → Prop) (state : Storage) : Operation → Prop
  | .createTable name columns => MetadataFits columns ∧ state.fileOf name = pathOf name
  | .insert name values => ∀ store, state.tables.lookup name = some store →
      TableView.Admits store.columns values → sizes name (serializedSize ⟨values⟩ store.columns)
  | _ => True

/-- No operation changes the host. -/
theorem closure_sameHost (operation : Operation) : Exec.Preserves SameHost operation.closure := by
  cases operation with
  | createTable name columns => exact SameHost.bind (sameHost_createTable _ _) fun _ _ => rfl
  | insert | selectAll | dumpBtree => exact SameHost.bind (sameHost_onTable _ _ _) fun _ _ => rfl
  | begin | commit | rollback | drop => exact SameHost.bind (sameHost_forAll _) fun _ _ => rfl

section Operations

variable {sizes : String → Nat → Prop} {state : Storage} {db : Database}

/-- The closure of every operation does what the database may do. -/
theorem Represents.step {operation : Operation} (represents : Represents sizes state db)
    (steady : ∀ name, BTree.Steady (sizes name)) (sized : Sized sizes state operation) :
    ∃ answer after left, operation.closure state = (answer, after) ∧
      Database.Step db operation answer left ∧ Represents sizes after left := by
  cases operation with
  | createTable name columns =>
      cases present : db name with
      | none =>
          obtain ⟨table, ran, -, next⟩ := represents.createTable present sized.2 sized.1
          exact ⟨_, _, _, Exec.bind_ok ran, .created columns present, next⟩
      | some view =>
          obtain ⟨table, found, -⟩ := represents.present present
          have taken : (state.tables.lookup name).isSome = true := by
            rw [tableAt_store found]
            rfl
          have ran : Storage.createTable name columns state =
              (.error (.error s!"Table '{name}' already exists."), state) := by
            unfold Storage.createTable
            rw [Exec.bind_ok (Exec.run_get state), if_pos taken]
            rfl
          exact ⟨_, state, db, Exec.bind_error ran, .taken columns present, represents⟩
  | insert name values =>
      have samePath := TableIo.Safe.samePath (TableIo.insert_safe values)
      cases present : db name with
      | none =>
          have ran := @onTable_missing state name _ (TableIo.insert values) (notFound name)
            (represents.absent.mpr present)
          exact ⟨_, state, db, Exec.bind_error ran, .missing rfl present, represents⟩
      | some view =>
          obtain ⟨table, found, -, views⟩ := represents.present present
          by_cases admits : TableView.Admits view.columns values
          · have accepted := admits_iff.mp admits
            have size := sized table.store (tableAt_store found)
            rw [views.columns, ← rowBytes_length accepted.arity accepted.typed] at size
            obtain ⟨result, after, ran, ⟨rfl, next⟩ | ⟨rfl, many, left, ways, next⟩⟩ :=
              views.insert (steady name) admits (size admits)
            · obtain ⟨rans, ended⟩ := represents.onTable found samePath ran next (notFound name)
              exact ⟨_, _, _, Exec.bind_ok rans, .inserted present admits, ended⟩
            · obtain ⟨rans, ended⟩ := represents.onTable found samePath ran next (notFound name)
              exact ⟨_, _, _, Exec.bind_error rans, .full present admits many ways, ended⟩
          · obtain ⟨message, told, ran⟩ := views.refused admits
            obtain ⟨rans, same⟩ := represents.onTable_same found present samePath ran views (notFound name)
            exact ⟨_, _, db, Exec.bind_error rans, .refused present admits told, same⟩
  | selectAll name =>
      cases present : db name with
      | none =>
          have ran := @onTable_missing state name _ TableIo.selectAll (notFound name)
            (represents.absent.mpr present)
          exact ⟨_, state, db, Exec.bind_error ran, .missing rfl present, represents⟩
      | some view =>
          obtain ⟨rows, after, ran, order, next⟩ := represents.selects present
          exact ⟨.ok (.rows _ rows), after, db, Exec.bind_ok ran, .selected present order, next⟩
  | dumpBtree name =>
      cases present : db name with
      | none =>
          have ran := @onTable_missing state name _ TableIo.dumpBtree (notFound name)
            (represents.absent.mpr present)
          exact ⟨_, state, db, Exec.bind_error ran, .missing rfl present, represents⟩
      | some view =>
          obtain ⟨table, found, -, views⟩ := represents.present present
          obtain ⟨text, after, ran, same⟩ := views.dumpBtree
          have samePath := TableIo.Safe.samePath TableIo.dumpBtree_safe
          obtain ⟨rans, next⟩ := represents.onTable_same found present samePath ran same (notFound name)
          exact ⟨_, _, db, Exec.bind_ok rans, .dumped text present, next⟩
  | begin =>
      by_cases idle : ∀ name view, db name = some view → view.inTransaction = false
      · obtain ⟨after, ran, next⟩ := represents.forAll (TableIo.Safe.samePath TableIo.begin_safe)
          fun name view present table views => views.begin (idle name view present)
        exact ⟨_, after, _, Exec.bind_ok ran, .begun idle, next⟩
      · push Not at idle
        obtain ⟨name, view, present, open_⟩ := idle
        rw [ne_eq, Bool.not_eq_false] at open_
        have distinct : state.visited.Nodup := state.host.nodup_order _
        obtain ⟨after, left, ran, next, ways⟩ := represents.forEach_busy distinct
          (fun other member => (represents.visited other).mp member)
          ⟨name, (represents.visited name).mpr (by rw [present]; rfl), view, present, open_⟩
        exact ⟨_, after, left, Exec.bind_error ran, .busy present open_ ways, next⟩
  | commit =>
      obtain ⟨after, ran, next⟩ := represents.forAll (TableIo.Safe.samePath TableIo.commit_safe)
        fun name view present table views => views.commit
      exact ⟨_, after, _, Exec.bind_ok ran, .committed, next⟩
  | rollback =>
      obtain ⟨after, ran, next⟩ := represents.forAll (TableIo.Safe.samePath TableIo.rollback_safe)
        fun name view present table views => views.rollback
      exact ⟨_, after, _, Exec.bind_ok ran, .rolledBack, next⟩
  | drop =>
      obtain ⟨after, ran, next⟩ := represents.forAll (TableIo.Safe.samePath TableIo.rollback_safe)
        fun name view present table views => views.rollback
      exact ⟨_, after, _, Exec.bind_ok ran, .dropped, next⟩

/-- A row of the table is inserted as long as there are not many rows. -/
theorem Represents.inserts {name : String} {view : TableView} {values : List Value}
    (represents : Represents sizes state db) (steady : ∀ name, BTree.Steady (sizes name))
    (sized : Sized sizes state (.insert name values)) (present : db name = some view)
    (admits : TableView.Admits view.columns values) (few : view.live.rows.card < assuredRows) :
    ∃ after, (Operation.insert name values).closure state = (.ok .done, after) ∧
      Represents sizes after (db.put name (view.insert ⟨values⟩)) := by
  obtain ⟨answer, after, left, closure, step, next⟩ := represents.step steady sized
  refine ⟨after, ?_⟩
  cases step with
  | missing about absent =>
      obtain rfl := Option.some.inj about
      rw [present] at absent
      cases absent
  | inserted there =>
      obtain rfl := Option.some.inj (present.symm.trans there)
      exact ⟨closure, next⟩
  | refused there unfit =>
      obtain rfl := Option.some.inj (present.symm.trans there)
      exact absurd admits unfit
  | full there _ many =>
      obtain rfl := Option.some.inj (present.symm.trans there)
      exact absurd many (Nat.not_le.mpr few)

/-- A table that is there can be scanned. -/
theorem Represents.scans {name : String} (represents : Represents sizes state db)
    (present : (db name).isSome) :
    ∃ headers rows after, (Operation.selectAll name).closure state = (.ok (.rows headers rows), after) := by
  obtain ⟨view, there⟩ := Option.isSome_iff_exists.mp present
  obtain ⟨rows, after, ran, -⟩ := represents.selects there
  exact ⟨_, rows, after, Exec.bind_ok ran⟩

/-- What a scan returns. -/
theorem Represents.scanned {name : String} {headers : List String} {rows : List Row} {after : Storage}
    (represents : Represents sizes state db) (steady : ∀ name, BTree.Steady (sizes name))
    (scanned : (Operation.selectAll name).closure state = (.ok (.rows headers rows), after)) :
    ∃ view, db name = some view ∧ view.InOrder rows := by
  obtain ⟨answer, reached, left, closure, step, -⟩ :=
    @Represents.step _ _ _ (.selectAll name) represents steady trivial
  obtain ⟨rfl, rfl⟩ := Prod.mk.inj (scanned.symm.trans closure)
  cases step with
  | selected present scan => exact ⟨_, present, scan⟩

/-! ### Runs -/

/-- The closure of an operation is run and gives an answer. -/
def Ran (sizes : String → Nat → Prop) (state : Storage) (label : Operation × Except Fault Answer)
    (after : Storage) : Prop :=
  Sized sizes state label.1 ∧ label.1.closure state = (label.2, after)

theorem represents_new (sizes : String → Nat → Prop) (host : Host) :
    Represents sizes (new host (fun _ => none) []) .empty where
  quiet := rfl
  tables := fun _ => Option.rel_none_none
  files := fun path => by simp [new, Database.empty]

/-- The sizes of rows of one number. -/
def numbers (_name : String) (size : Nat) : Prop := size = 8

theorem steady_numbers (name : String) : BTree.Steady (numbers name) := Or.inl ⟨8, fun _ same => same⟩

theorem admits_number (column : String) (number : Int64) :
    TableView.Admits [⟨column, .integer⟩] [.integer number] where
  typed := .cons trivial .nil
  short := by
    have small : 8 ≤ BTree.maxRowDataSize := by decide
    exact small

theorem sized_number (name : String) (number : Int64) :
    Sized numbers state (.insert name [.integer number]) := by
  intro store _ admits
  have accepted := admits_iff.mp admits
  rw [← rowBytes_length accepted.arity accepted.typed]
  rfl

/-- A table of numbers that takes in a row. -/
theorem represents_number {host : Host} (own : host.resolve (pathOf "t") = pathOf "t")
    (number : Int64) :
    ∃ middle after, Ran numbers (new host (fun _ => none) [])
        (.createTable "t" [⟨"id", .integer⟩], .ok .done) middle ∧
      Ran numbers middle (.insert "t" [.integer number], .ok .done) after ∧
      Represents numbers middle (Database.empty.put "t" (.fresh [⟨"id", .integer⟩])) ∧
      Represents numbers after ((Database.empty.put "t" (.fresh [⟨"id", .integer⟩])).put "t"
        ((TableView.fresh [⟨"id", .integer⟩]).insert ⟨[.integer number]⟩)) := by
  obtain ⟨table, created, -, middle⟩ := @Represents.createTable _ _ _ "t" [⟨"id", .integer⟩]
    (represents_new numbers host) rfl own metadataFits_id
  obtain ⟨after, inserted, last⟩ := middle.inserts steady_numbers (sized_number "t" number)
    (Function.update_self _ _ _) (admits_number "id" number) (by decide)
  exact ⟨_, after, ⟨⟨metadataFits_id, own⟩, Exec.bind_ok created⟩, ⟨sized_number "t" number, inserted⟩,
    middle, last⟩

end Operations

end Storage

end MukhiDb.Model
