import MukhiDb.Model.Storage
import MukhiDb.Pager.Transactions
import MukhiDb.Pager.Reading

/-!
Contract: the tables of a storage, one by one.

Owns: a table as its pager with its files; a storage as a map of tables, of which a
call on one table changes no other as long as no two have a file in common; and
loops over all tables.

Does not own: what the calls do to a pager.
-/

namespace MukhiDb.Model

open MukhiDb.Foundation

/-! ### One table -/

namespace TableIo

variable {table : TableIo}

/-- The pager of a table with its files. -/
def io (table : TableIo) : PagerIo := ⟨table.store.pager, table.disk, table.schedule⟩

/-- The table with another pager and other files. -/
def withIo (table : TableIo) (io : PagerIo) : TableIo :=
  ⟨{ table.store with pager := io.pager }, io.disk, io.schedule⟩

@[simp] theorem io_withIo (table : TableIo) (io : PagerIo) : (table.withIo io).io = io := rfl

@[simp] theorem withIo_io (table : TableIo) : table.withIo table.io = table := rfl

@[simp] theorem path_withIo (table : TableIo) (io : PagerIo) :
    (table.withIo io).store.path = table.store.path := rfl

@[simp] theorem columns_withIo (table : TableIo) (io : PagerIo) :
    (table.withIo io).store.columns = table.store.columns := rfl

@[simp] theorem rootPage_withIo (table : TableIo) (io : PagerIo) :
    (table.withIo io).store.rootPage = table.store.rootPage := rfl

theorem run_onPager {α : Type} (call : Exec PagerIo α) (table : TableIo) :
    onPager call table = ((call table.io).1, table.withIo (call table.io).2) := rfl

/-- A table with another root page. -/
def withRoot (root : Nat) (table : TableIo) : TableIo :=
  { table with store := { table.store with rootPage := root } }

@[simp] theorem io_withRoot (root : Nat) (table : TableIo) : (table.withRoot root).io = table.io :=
  rfl

theorem run_setRoot (root : Nat) (table : TableIo) :
    setRoot root table = (.ok (), table.withRoot root) := rfl

/-- Reading the metadata only loads page 0. -/
theorem readOnly_readMetadata : readMetadata.ReadOnly :=
  (Program.readOnly_fetch 0).bind fun page => Program.readOnly_lift (decodeMetadata page)

/-! ### Files -/

/-- The table has the same file open. -/
def SamePath (before after : TableIo) : Prop := after.store.path = before.store.path

end TableIo

/-! ### All tables -/

namespace Storage

variable {state after : Storage} {name other : String} {table changed : TableIo}

theorem pathOf_injective : Function.Injective pathOf := fun left right same => by
  have texts := congrArg String.toList same
  unfold pathOf at texts
  rw [String.toList_append, String.toList_append] at texts
  exact String.toList_injective (List.append_cancel_right texts)

/-- An open table with its files. -/
def tableAt (state : Storage) (name : String) : Option TableIo :=
  (state.tables.lookup name).map fun store => ⟨store, state.filesAt store.path, state.schedule⟩

/-- The storage with a table and its files in the state that a call left them in. -/
def put (name : String) (table : TableIo) (state : Storage) : Storage :=
  { state with
    tables := state.tables.insert name table.store
    dir := Function.update state.dir table.store.path (some table.disk)
    schedule := table.schedule }

/-- No two tables have the same file open. -/
def Apart (state : Storage) : Prop :=
  ∀ name other table table', name ≠ other → state.tableAt name = some table →
    state.tableAt other = some table' → table.store.path ≠ table'.store.path

theorem tableAt_eq_some :
    state.tableAt name = some table ↔ ∃ store, state.tables.lookup name = some store ∧
      table = ⟨store, state.filesAt store.path, state.schedule⟩ := by
  unfold tableAt
  rw [Option.map_eq_some_iff]
  exact exists_congr fun store => and_congr_right fun _ => eq_comm

theorem tableAt_eq_none : state.tableAt name = none ↔ state.tables.lookup name = none := by
  unfold tableAt
  exact Option.map_eq_none_iff

theorem tableAt_store (found : state.tableAt name = some table) :
    state.tables.lookup name = some table.store := by
  obtain ⟨store, opened, rfl⟩ := tableAt_eq_some.mp found
  exact opened

theorem tableAt_disk (found : state.tableAt name = some table) :
    table.disk = state.filesAt table.store.path := by
  obtain ⟨store, -, rfl⟩ := tableAt_eq_some.mp found
  rfl

theorem tableAt_schedule (found : state.tableAt name = some table) :
    table.schedule = state.schedule := by
  obtain ⟨store, -, rfl⟩ := tableAt_eq_some.mp found
  rfl

theorem mem_keys : name ∈ state.tables.keys ↔ ∃ table, state.tableAt name = some table := by
  rw [Finmap.mem_keys, Finmap.mem_iff]
  constructor
  · rintro ⟨store, found⟩
    exact ⟨_, tableAt_eq_some.mpr ⟨store, found, rfl⟩⟩
  · rintro ⟨table, found⟩
    exact ⟨table.store, tableAt_store found⟩

/-! ### Calls on one table -/

section OnTable

variable {α : Type} {call : Exec TableIo α} {missing : Fault}

theorem onTable_missing (absent : state.tableAt name = none) :
    onTable name missing call state = (.error missing, state) := by
  unfold onTable
  rw [tableAt_eq_none.mp absent]

theorem onTable_found (found : state.tableAt name = some table)
    (samePath : Exec.Preserves TableIo.SamePath call) :
    onTable name missing call state = ((call table).1, state.put name (call table).2) := by
  have path : (call table).2.store.path = table.store.path := samePath table
  obtain ⟨store, opened, rfl⟩ := tableAt_eq_some.mp found
  unfold onTable put
  rw [opened, path]

end OnTable

/-! ### Storages after a change to one table -/

theorem filesAt_put (path : String) :
    (state.put name changed).filesAt path =
      if path = changed.store.path then changed.disk else state.filesAt path := by
  unfold filesAt put
  by_cases same : path = changed.store.path
  · subst same
    simp
  · simp [same]

theorem tableAt_put_self : (state.put name changed).tableAt name = some changed := by
  apply tableAt_eq_some.mpr
  refine ⟨changed.store, Finmap.lookup_insert _, ?_⟩
  rw [filesAt_put, if_pos rfl]
  rfl

/-- A change to the files at one path leaves the tables alone that have other files. -/
theorem tableAt_put_other (different : other ≠ name)
    (distinct : ∀ there, state.tableAt other = some there →
      there.store.path ≠ changed.store.path)
    (quiet : changed.schedule = state.schedule) :
    (state.put name changed).tableAt other = state.tableAt other := by
  have lookups : (state.put name changed).tables.lookup other = state.tables.lookup other :=
    Finmap.lookup_insert_of_ne _ different
  rcases opened : state.tables.lookup other with _ | store
  · rw [opened] at lookups
    rw [tableAt_eq_none.mpr opened, tableAt_eq_none.mpr lookups]
  · have there := tableAt_eq_some.mpr ⟨store, opened, rfl⟩
    rw [there]
    rw [opened] at lookups
    apply tableAt_eq_some.mpr
    refine ⟨store, lookups, ?_⟩
    rw [filesAt_put, if_neg (distinct _ there)]
    exact congrArg (TableIo.mk store _) quiet.symm

/-- No table but the named one has the file open. -/
def Unused (state : Storage) (name path : String) : Prop :=
  ∀ other there, other ≠ name → state.tableAt other = some there → there.store.path ≠ path

theorem Apart.unused (apart : state.Apart) (found : state.tableAt name = some table)
    (samePath : changed.store.path = table.store.path) :
    state.Unused name changed.store.path := by
  intro other there different opened
  rw [samePath]
  exact apart other name there table different opened found

theorem tableAt_put (unused : state.Unused name changed.store.path)
    (quiet : changed.schedule = state.schedule) :
    (state.put name changed).tableAt = Function.update state.tableAt name (some changed) := by
  funext other
  by_cases same : other = name
  · subst same
    rw [tableAt_put_self, Function.update_self]
  · rw [tableAt_put_other same (fun there opened => unused other there same opened) quiet,
      Function.update_of_ne same]

theorem Apart.put (apart : state.Apart) (unused : state.Unused name changed.store.path)
    (quiet : changed.schedule = state.schedule) : (state.put name changed).Apart := by
  intro left right leftTable rightTable different leftFound rightFound
  rw [tableAt_put unused quiet] at leftFound rightFound
  by_cases isLeft : left = name
  · subst isLeft
    rw [Function.update_self] at leftFound
    rw [Function.update_of_ne (Ne.symm different)] at rightFound
    obtain rfl := Option.some.inj leftFound
    exact Ne.symm (unused right rightTable (Ne.symm different) rightFound)
  · rw [Function.update_of_ne isLeft] at leftFound
    by_cases isRight : right = name
    · subst isRight
      rw [Function.update_self] at rightFound
      obtain rfl := Option.some.inj rightFound
      exact unused left leftTable isLeft leftFound
    · rw [Function.update_of_ne isRight] at rightFound
      exact apart left right leftTable rightTable different leftFound rightFound

theorem keys_put (found : state.tableAt name = some table) :
    (state.put name changed).tables.keys = state.tables.keys := by
  ext key
  rw [Finmap.mem_keys, Finmap.mem_keys]
  change key ∈ state.tables.insert name changed.store ↔ _
  rw [Finmap.mem_insert]
  constructor
  · rintro (rfl | there)
    · exact Finmap.mem_of_lookup_eq_some (tableAt_store found)
    · exact there
  · exact Or.inr

/-! ### Loops over tables -/

section Loops

variable {call : Exec TableIo Unit} {names : List String}

/-- A loop ran its call on each of the tables, and nothing else changed. -/
structure Looped (call : Exec TableIo Unit) (names : List String) (state after : Storage) :
    Prop where
  quiet : after.schedule = []
  apart : after.Apart
  keys : after.tables.keys = state.tables.keys
  host : after.host = state.host
  tables : ∀ name, after.tableAt name =
    if name ∈ names then (state.tableAt name).map fun table => (call table).2
    else state.tableAt name

/-- A loop whose calls all succeed. -/
theorem forEach_ok (samePath : Exec.Preserves TableIo.SamePath call) (distinct : names.Nodup)
    (quiet : state.schedule = []) (apart : state.Apart)
    (each : ∀ name ∈ names, ∃ table, state.tableAt name = some table ∧
      (call table).1 = .ok () ∧ (call table).2.schedule = []) :
    ∃ after, forEach call names state = (.ok (), after) ∧ Looped call names state after := by
  induction names generalizing state with
  | nil => exact ⟨state, rfl, quiet, apart, rfl, rfl, fun _ => by simp⟩
  | cons name rest inductionHypothesis =>
      obtain ⟨fresh, distinct⟩ := List.nodup_cons.mp distinct
      obtain ⟨table, found, succeeds, ends⟩ := each name List.mem_cons_self
      have path : (call table).2.store.path = table.store.path := samePath table
      have ran : onTable name .panic call state = ((call table).1, state.put name (call table).2) :=
        onTable_found found samePath
      rw [succeeds] at ran
      have still : (call table).2.schedule = state.schedule := ends.trans quiet.symm
      have unused := apart.unused found path
      have tables := tableAt_put unused still
      have others : ∀ other ∈ rest,
          (state.put name (call table).2).tableAt other = state.tableAt other := by
        intro other member
        rw [tables, Function.update_of_ne]
        rintro rfl
        exact fresh member
      obtain ⟨after, looped, done⟩ := inductionHypothesis distinct ends
        (apart.put unused still) fun other member => by
          rw [others other member]
          exact each other (List.mem_cons_of_mem _ member)
      refine ⟨after, (Exec.bind_ok ran).trans looped, done.quiet, done.apart,
        done.keys.trans (keys_put found), done.host, ?_⟩
      intro other
      rw [done.tables other]
      by_cases inside : other ∈ rest
      · rw [if_pos inside, if_pos (List.mem_cons_of_mem _ inside), others other inside]
      · rw [if_neg inside, tables]
        by_cases same : other = name
        · subst same
          rw [Function.update_self, if_pos List.mem_cons_self, found]
          rfl
        · have outside : other ∉ name :: rest := by
            rw [List.mem_cons, not_or]
            exact ⟨same, inside⟩
          rw [Function.update_of_ne same, if_neg outside]

/-- The loop over all tables. -/
theorem forAll_ok (samePath : Exec.Preserves TableIo.SamePath call)
    (quiet : state.schedule = []) (apart : state.Apart)
    (each : ∀ name table, state.tableAt name = some table →
      (call table).1 = .ok () ∧ (call table).2.schedule = []) :
    ∃ after, forAll call state = (.ok (), after) ∧ after.schedule = [] ∧ after.Apart ∧
      after.tables.keys = state.tables.keys ∧
      ∀ name, after.tableAt name = (state.tableAt name).map fun table => (call table).2 := by
  have visits : ∀ name, name ∈ state.visited ↔ ∃ table, state.tableAt name = some table := by
    intro name
    rw [← mem_keys]
    exact state.host.mem_order _ _
  obtain ⟨after, ran, looped⟩ := @forEach_ok state call state.visited samePath
    (state.host.nodup_order _) quiet apart fun name member => by
      obtain ⟨table, found⟩ := (visits name).mp member
      exact ⟨table, found, each name table found⟩
  refine ⟨after, (Exec.bind_ok (Exec.run_get state)).trans ran, looped.quiet, looped.apart,
    looped.keys, ?_⟩
  intro name
  rw [looped.tables name]
  split
  · rfl
  · next outside =>
      have absent : state.tableAt name = none := by
        by_contra there
        obtain ⟨table, found⟩ := Option.ne_none_iff_exists'.mp there
        exact outside ((visits name).mpr ⟨table, found⟩)
      rw [absent]
      rfl

end Loops

end Storage

end MukhiDb.Model
