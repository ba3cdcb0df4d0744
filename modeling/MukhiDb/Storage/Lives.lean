import MukhiDb.Storage.Killed
import MukhiDb.Storage.Restart

/-!
Contract: servers that end, or are killed, and are started again over their files.

Owns: that a start over the files of a database opens tables of the rows that are saved; and that
every run of operations, ends, kills and starts from an empty directory is a run of the database.

Does not own: a kill during `create_table`, and a kill while a log holds what an earlier kill
left.
-/

namespace MukhiDb.Model

open MukhiDb.Foundation
open BTree (Tree)

/-! ### Opened files -/

/-- A table that the start opened shows the rows of its file. -/
theorem TableIo.views_opened {sizes : Nat → Prop} {columns : List Column} {content : Content}
    {path : String} {disk : Disk} {table : TableIo} (file : FileHolds sizes columns content disk)
    (opened : Storage.OpenedFrom path disk table) (coherent : table.io.Coherent)
    (rests : table.Rests) : Views sizes ⟨columns, content, content, false⟩ table := by
  obtain ⟨saved, holds, stores⟩ := file.tree
  have contents : table.disk = disk.recovered := opened.contents
  obtain ⟨trees, count⟩ := trees_opened holds file.small opened coherent rests.2
  refine ⟨rests.1, ?_, saved, saved, trees, ?_, ?_⟩
  · rw [contents]
    exact idleLog_recovered file.whole
  · rw [count]
    exact stores
  · rw [contents]
    exact stores

namespace Storage

variable {sizes : String → Nat → Prop} {state : Storage} {host : Host}
  {dir : String → Option Disk} {db : Database}

/-- The files of all tables keep their names. -/
def Named (host : Host) (db : Database) : Prop := ∀ name, (db name).isSome → KeepsName host name

theorem Named.restarted (named : Named host db) (later : Host) : Named (host.restarted later) db :=
  fun name there => (named name there).restarted later

theorem Files.loadable (files : Files sizes dir db) (named : Named host db) : Loadable host dir := by
  intro path disk found
  obtain ⟨name, there, rfl⟩ := (files.names path).mp (by rw [found]; rfl)
  obtain ⟨view, present⟩ := Option.isSome_iff_exists.mp there
  obtain ⟨same, file, holds⟩ := files.holds name view present
  obtain rfl := Option.some.inj (found.symm.trans file)
  obtain ⟨saved, tree, -⟩ := holds.tree
  have metadata := tree.metadata
  rw [Disk.at_book (zero_inside tree.held)] at metadata
  exact ⟨name, rfl, named name there, holds.aligned, _, metadata⟩

/-- A start over the files of a database. -/
theorem Files.startUp (files : Files sizes dir db) (named : Named host db) {listing : List String}
    (lists : Lists listing dir) :
    ∃ state, Model.startUp host listing dir = (.ok (), state) ∧ state.host = host ∧
      Represents sizes state (db.map TableView.rollback) := by
  obtain ⟨state, ran, sameHost, kept, rest, names, opened, paths⟩ :=
    startUp_ok (files.loadable named) lists
  refine ⟨state, ran, sameHost, kept.quiet, fun name => ?_, fun path => ?_⟩
  · have there := names name
    rw [files.names] at there
    cases present : db name with
    | none =>
        have absent : state.tableAt name = none := by
          rw [← Option.not_isSome_iff_eq_none, there]
          rintro ⟨other, isTable, same⟩
          rw [← pathOf_injective same, present] at isTable
          cases isTable
        rw [absent, Database.map, present]
        exact Option.rel_none_none
    | some view =>
        obtain ⟨table, found⟩ := Option.isSome_iff_exists.mp
          (there.mpr ⟨name, by rw [present]; rfl, rfl⟩)
        obtain ⟨disk, source, openedFrom⟩ := opened name table found
        obtain ⟨same, file, holds⟩ := files.holds name view present
        obtain rfl := Option.some.inj (source.symm.trans file)
        rw [found, Database.map, present]
        exact Option.rel_some_some.mpr ⟨openedFrom.file, TableIo.views_opened holds openedFrom
          (kept.coherent name table found) (rest.rests found)⟩
  · rw [paths, files.names]
    simp [Database.map]

/-- A listing of such a directory. -/
theorem Files.lists (files : Files sizes dir db) (named : Named host db) {names : List String}
    (distinct : names.Nodup) (all : ∀ name, name ∈ names ↔ (db name).isSome) :
    Lists (names.map pathOf) dir where
  once := distinct.map pathOf_injective
  files := by
    intro path _
    rw [List.mem_map, files.names]
    constructor
    · rintro ⟨name, member, rfl⟩
      have there := (all name).mp member
      exact ⟨⟨name, there, rfl⟩, (named name there).inside⟩
    · rintro ⟨⟨name, there, rfl⟩, -⟩
      exact ⟨name, (all name).mpr there, rfl⟩

/-! ### Lives -/

/-- New tables have names that their files keep. -/
def FileNamed (host : Host) : Operation → Prop
  | .createTable name _ => KeepsName host name
  | _ => True

/-- What happens to a server. The directory may be listed in any order, and the hash map of the new
process may visit the tables in another order. -/
inductive Lived (sizes : String → Nat → Prop) (state : Storage) : Event → Storage → Prop where
  | ran {operation : Operation} {answer : Except Fault Answer} {after : Storage}
      (sized : Sized sizes state operation) (keeps : FileNamed state.host operation)
      (closure : operation.closure state = (answer, after)) :
      Lived sizes state (.ran operation answer) after
  | stopped {listing : List String} {later : Host} (lists : Lists listing state.dir) :
      Lived sizes state (.restarted none)
        (Model.startUp (state.host.restarted later) listing state.dir).2
  | killed {operation : Operation} {calls : Nat} {listing : List String} {later : Host}
      {left : String → Option Disk} (sized : Sized sizes state operation)
      (creates : ∀ name columns, operation ≠ .createTable name columns)
      (empty : ∀ name table, state.tableAt name = some table → table.disk.log = [])
      (cut : (operation.closure (stopping.after calls state)).2.dir = left) (lists : Lists listing left) :
      Lived sizes state (.restarted (some operation))
        (Model.startUp (state.host.restarted later) listing left).2

theorem Named.put {name : String} {view : TableView} (named : Named host db)
    (keeps : KeepsName host name) : Named host (db.put name view) := by
  intro other there
  by_cases own : other = name
  · rwa [own]
  · apply named
    rwa [Database.put, Function.update_of_ne own] at there

theorem Named.map (named : Named host db) (change : TableView → TableView) :
    Named host (db.map change) := by
  intro name there
  apply named
  simpa [Database.map] using there

/-- Operations put in tables under names that files keep, or none. -/
theorem Named.step {operation : Operation} {answer : Except Fault Answer} {after : Database}
    (named : Named host db) (keeps : FileNamed host operation)
    (step : Database.Step db operation answer after) : Named host after := by
  cases step with
  | created => exact named.put keeps
  | inserted present => exact named.put (named _ (by rw [present]; rfl))
  | full present => exact named.put (named _ (by rw [present]; rfl))
  | begun | committed | rolledBack | dropped => exact named.map _
  | busy present open_ left =>
      intro other there
      apply named
      rcases left other with same | begun
      · rwa [same] at there
      · simpa [begun] using there
  | taken | missing | refused | selected | dumped => exact named

theorem Named.killed {operation : Operation} {after : Database} (named : Named host db)
    (killed : Database.Killed db operation after) : Named host after := by
  intro name there
  rw [killed.isSome] at there
  exact named name there

/-- Every event is one of the database. -/
theorem Represents.lived {event : Event} {after : Storage} (represents : Represents sizes state db)
    (named : Named state.host db) (steady : ∀ name, BTree.Steady (sizes name))
    (lived : Lived sizes state event after) :
    ∃ left, Database.Lives db event left ∧ Represents sizes after left ∧ Named after.host left := by
  cases lived with
  | @ran operation _ _ sized keeps closure =>
      obtain ⟨answer, reached, left, same, step, next⟩ := represents.step steady sized
      obtain ⟨rfl, rfl⟩ := Prod.mk.inj (closure.symm.trans same)
      have sameHost : SameHost state after := by
        have kept := closure_sameHost operation state
        rwa [closure] at kept
      refine ⟨left, .ran step, next, ?_⟩
      rw [sameHost]
      exact named.step keeps step
  | @stopped listing later lists =>
      obtain ⟨started, ran, sameHost, next⟩ :=
        represents.filed.startUp (named.restarted later) lists
      rw [ran]
      refine ⟨_, .stopped, next, ?_⟩
      rw [sameHost]
      exact (named.restarted later).map _
  | @killed operation calls listing later left sized creates empty cut lists =>
      obtain ⟨found, killed, files⟩ := represents.killed steady sized creates empty calls
      rw [cut] at files
      have kept := (named.restarted later).killed killed
      obtain ⟨started, ran, sameHost, next⟩ := files.startUp kept lists
      rw [killed.rollback] at next
      rw [ran]
      refine ⟨_, .killed killed, next, ?_⟩
      rw [sameHost]
      exact kept

theorem lives_represent {host : Host} (steady : ∀ name, BTree.Steady (sizes name))
    {events : List Event} (lived : Reaches (Lived sizes) (new host (fun _ => none) []) events state) :
    ∃ db, Reaches Database.Lives .empty events db ∧ Represents sizes state db ∧
      Named state.host db := by
  have start : Represents sizes (new host (fun _ => none) []) .empty ∧ Named host .empty :=
    ⟨represents_new sizes host, fun name there => by simp [Database.empty] at there⟩
  exact @Reaches.simulation _ _ _ (Lived sizes) Database.Lives
    (fun state db => Represents sizes state db ∧ Named state.host db) _ _ start
    (fun state event after db both taken => both.1.lived both.2 steady taken) _ _ lived

/-- A table is created and takes in a number. -/
def numberEvents : List Event :=
  [.ran (.createTable "t" [⟨"id", .integer⟩]) (.ok .done), .ran (.insert "t" [.integer 7]) (.ok .done)]

/-- A database with one table of numbers. -/
def NumbersOnly (db : Database) : Prop := ∀ name, name ∈ ["t"] ↔ (db name).isSome

theorem NumbersOnly.named (only : NumbersOnly db) (keeps : KeepsName host "t") : Named host db := by
  intro name there
  rwa [List.mem_singleton.mp ((only name).mpr there)]

theorem keepsName_number : KeepsName (Host.startingWith "t") "t" := ⟨by decide, by decide, by decide⟩

theorem lived_number (keeps : KeepsName host "t") :
    ∃ state db, Reaches (Lived numbers) (new host (fun _ => none) []) numberEvents state ∧
      Represents numbers state db ∧ NumbersOnly db ∧ Each TableIo.EmptyLog state ∧
      KeepsName state.host "t" := by
  obtain ⟨middle, after, created, inserted, between, represents⟩ := represents_number keeps.own 7
  have first := (represents_new numbers host).emptyLogs (emptyLogs_new host) created.1
  rw [created.2] at first
  have empty := between.emptyLogs first inserted.1
  rw [inserted.2] at empty
  have same : after.host = host := by
    have first := closure_sameHost (.createTable "t" [⟨"id", .integer⟩]) (new host (fun _ => none) [])
    have second := closure_sameHost (.insert "t" [.integer 7]) middle
    rw [created.2] at first
    rw [inserted.2] at second
    exact Eq.trans second first
  have start : Lived numbers (new host (fun _ => none) [])
      (.ran (.createTable "t" [⟨"id", .integer⟩]) (.ok .done)) middle := .ran created.1 keeps created.2
  have next : Lived numbers middle (.ran (.insert "t" [.integer 7]) (.ok .done)) after :=
    .ran inserted.1 trivial inserted.2
  refine ⟨after, _, (Reaches.refl.next start).next next, represents, fun name => ?_, empty,
    same ▸ keeps⟩
  rw [List.mem_singleton]
  by_cases own : name = "t"
  · simp [own, Database.put]
  · simp [own, Database.put, Database.empty]

/-- The server ends and is started again. -/
theorem lived_restarted (keeps : KeepsName host "t") :
    ∃ state db, Reaches (Lived numbers) (new host (fun _ => none) [])
        (numberEvents ++ [.restarted none]) state ∧ Represents numbers state db ∧ (db "t").isSome := by
  obtain ⟨middle, db, lived, represents, only, -, kept⟩ := lived_number keeps
  have lists := represents.filed.lists (only.named kept) (List.nodup_singleton "t") only
  obtain ⟨state, started, -, again⟩ :=
    represents.filed.startUp ((only.named kept).restarted host) lists
  have step := @Lived.stopped numbers middle _ host lists
  rw [started] at step
  refine ⟨state, _, lived.next step, again, ?_⟩
  simpa [Database.map] using (only "t").mp (List.mem_singleton_self "t")

/-- The server is killed after some I/O calls of the next insert, and is started again. -/
theorem lived_killed (keeps : KeepsName host "t") (calls : Nat) :
    ∃ state, Reaches (Lived numbers) (new host (fun _ => none) [])
      (numberEvents ++ [.restarted (some (.insert "t" [.integer 8]))]) state := by
  obtain ⟨middle, db, lived, represents, only, empty, kept⟩ := lived_number keeps
  have sized := @sized_number middle "t" 8
  have creates (name : String) (columns : List Column) :
      Operation.insert "t" [.integer 8] ≠ .createTable name columns := Operation.noConfusion
  obtain ⟨left, killed, files⟩ := represents.killed steady_numbers sized creates empty.tables calls
  have still : NumbersOnly left := by
    intro name
    rw [killed.isSome]
    exact only name
  have lists := files.lists (still.named kept) (List.nodup_singleton "t") still
  exact ⟨_, lived.next (@Lived.killed _ _ _ _ _ host _ sized creates empty.tables rfl lists)⟩

end Storage

end MukhiDb.Model
