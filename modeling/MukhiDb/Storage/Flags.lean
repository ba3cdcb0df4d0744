import MukhiDb.Pager.Failures
import MukhiDb.Storage.Reachable

/-!
Contract: which tables are in a transaction, under every pattern of I/O outcomes and
whatever files the tables have open.

Owns: statements leave the transaction state of every table alone; begin is refused
exactly if a table is in a transaction; and a commit or a rollback leaves no table in
a transaction exactly if, for each table that is in one, the I/O calls up to the end
of its transaction take effect and the metadata of the tables before it can be read.

Does not own: sessions, and what the tables hold.
-/

namespace MukhiDb.Model

open MukhiDb.Foundation

namespace TableIo

variable {table : TableIo}

/-! ### Statements on one table -/

/-- The table keeps its file and its transaction state, and successful I/O stays so. -/
def Calm (before after : TableIo) : Prop := SamePath before after ∧ PagerIo.Calm before.io after.io

theorem Calm.refl (table : TableIo) : Calm table table := ⟨rfl, PagerIo.Calm.refl _⟩

theorem Calm.bind {α β : Type} {first : Exec TableIo α} {next : α → Exec TableIo β}
    (head : Exec.Preserves Calm first) (tail : ∀ value, Exec.Preserves Calm (next value)) :
    Exec.Preserves Calm (first >>= next) :=
  Exec.Preserves.bind (fun left right => ⟨right.1.trans left.1, left.2.trans right.2⟩) head tail

theorem Calm.of_unchanged {α : Type} {program : Exec TableIo α}
    (unchanged : ∀ state, (program state).2 = state) : Exec.Preserves Calm program :=
  Exec.Preserves.of_unchanged Calm.refl unchanged

theorem onPages_calm {α : Type} (program : PageProgram α) :
    Exec.Preserves Calm (onPages program) :=
  fun table => ⟨rfl, PagerIo.perform_calm program table.io⟩

theorem setRoot_calm (root : Nat) : Exec.Preserves Calm (setRoot root) :=
  fun _ => ⟨rfl, PagerIo.Calm.refl _⟩

/-- A flush runs outside a transaction only, and ends none. -/
theorem flushOutside_calm : Exec.Preserves Calm flushOutside := by
  intro table
  unfold flushOutside
  rw [Exec.bind_ok (Exec.run_get table)]
  rcases busy : table.store.pager.inTransaction with _ | _
  · rw [if_neg (by simp)]
    refine ⟨rfl, ?_, fun quiet => ?_⟩
    · change (Pager.commit table.io).2.pager.inTransaction = table.store.pager.inTransaction
      rw [busy]
      by_cases clear : Clear table.io.commitCalls table.io.schedule
      · obtain ⟨value, after, ran, -, idle⟩ := (PagerIo.spends_commit table.io).clear clear
        rw [ran]
        exact idle
      · obtain ⟨fault, after, ran, same⟩ := (PagerIo.spends_commit table.io).failed clear
        rw [ran]
        exact same.trans busy
    · change (Pager.commit table.io).2.Quiet
      rw [PagerIo.commit_ok quiet]
      exact quiet
  · rw [if_pos rfl]
    exact Calm.refl table

theorem insert_calm (values : List Value) : Exec.Preserves Calm (insert values) := by
  apply Calm.bind (Calm.of_unchanged fun _ => rfl)
  intro table
  apply Calm.bind (Calm.of_unchanged fun _ => rfl)
  intro encoded
  apply Calm.bind (Calm.of_unchanged fun _ => rfl)
  intro table
  apply Calm.bind (onPages_calm _)
  intro newRoot
  refine Calm.bind ?_ fun _ => flushOutside_calm
  split
  · exact Calm.bind (setRoot_calm _) fun _ => onPages_calm _
  · exact Calm.of_unchanged fun _ => rfl

theorem selectAll_calm : Exec.Preserves Calm selectAll := by
  apply Calm.bind (Calm.of_unchanged fun _ => rfl)
  intro table
  apply Calm.bind (onPages_calm _)
  intro rawRows
  apply Calm.bind (Calm.of_unchanged fun _ => rfl)
  exact fun rows => Calm.of_unchanged fun _ => rfl

theorem dumpBtree_calm : Exec.Preserves Calm dumpBtree := by
  apply Calm.bind (Calm.of_unchanged fun _ => rfl)
  exact fun table => onPages_calm _

theorem create_calm (columns : List Column) : Exec.Preserves Calm (create columns) := by
  apply Calm.bind (onPages_calm _)
  intro _
  apply Calm.bind (onPages_calm _)
  intro rootPage
  apply Calm.bind (onPages_calm _)
  intro _
  apply Calm.bind flushOutside_calm
  exact fun _ _ => ⟨rfl, PagerIo.Calm.refl _⟩

theorem Calm.samePath {α : Type} {call : Exec TableIo α} (calm : Exec.Preserves Calm call) :
    Exec.Preserves SamePath call :=
  fun table => (calm table).1

end TableIo

/-! ### Tables in a transaction -/

namespace Storage

variable {state after : Storage} {name other path : String} {table : TableIo}

/-- The named table is in a transaction. -/
def InTransaction (state : Storage) (name : String) : Prop :=
  ∃ store, state.tables.lookup name = some store ∧ store.pager.inTransaction = true

instance decidableInTransaction (state : Storage) (name : String) :
    Decidable (state.InTransaction name) :=
  match opened : state.tables.lookup name with
  | none => isFalse fun ⟨store, found, _⟩ => by simp [opened] at found
  | some store =>
      decidable_of_iff (store.pager.inTransaction = true) (by simp [InTransaction, opened])

theorem inTransaction_iff (found : state.tableAt name = some table) :
    state.InTransaction name ↔ table.store.pager.inTransaction = true := by
  unfold InTransaction
  rw [tableAt_store found]
  simp

theorem not_inTransaction (absent : state.tableAt name = none) : ¬ state.InTransaction name := by
  unfold InTransaction
  rw [tableAt_eq_none.mp absent]
  simp

theorem inTransaction_put {changed : TableIo} :
    (state.put name changed).InTransaction name ↔
      changed.store.pager.inTransaction = true := by
  rw [inTransaction_iff tableAt_put_self]

theorem lookup_put_other {changed : TableIo} (different : other ≠ name) :
    (state.put name changed).tables.lookup other = state.tables.lookup other :=
  Finmap.lookup_insert_of_ne _ different

theorem inTransaction_put_other {changed : TableIo} (different : other ≠ name) :
    (state.put name changed).InTransaction other ↔ state.InTransaction other := by
  unfold InTransaction
  rw [lookup_put_other different]

/-- The same tables are in a transaction, and successful I/O stays so. -/
structure Calm (before after : Storage) : Prop where
  inTransaction : ∀ name, after.InTransaction name ↔ before.InTransaction name
  quiet : before.schedule = [] → after.schedule = []

theorem Calm.refl (state : Storage) : Calm state state := ⟨fun _ => Iff.rfl, id⟩

theorem Calm.trans {first second third : Storage} (left : Calm first second)
    (right : Calm second third) : Calm first third :=
  ⟨fun name => (right.inTransaction name).trans (left.inTransaction name),
    fun quiet => right.quiet (left.quiet quiet)⟩

/-- A statement on one table. -/
theorem onTable_calm {α : Type} {call : Exec TableIo α}
    (calm : Exec.Preserves TableIo.Calm call) (name : String) (missing : Fault) :
    Exec.Preserves Calm (onTable name missing call) := by
  intro state
  rcases found : state.tableAt name with _ | table
  · rw [onTable_missing found]
    exact Calm.refl state
  · obtain ⟨-, same, quiet⟩ := calm table
    rw [onTable_found found (TableIo.Calm.samePath calm)]
    refine ⟨fun other => ?_, fun still => quiet ((tableAt_schedule found).trans still)⟩
    by_cases here : other = name
    · subst here
      rw [inTransaction_put, inTransaction_iff found]
      exact iff_of_eq (congrArg (· = true) same)
    · exact inTransaction_put_other here

theorem openPager_calm (path : String) : Exec.Preserves Calm (openPager path) := by
  intro state
  refine ⟨fun _ => Iff.rfl, fun quiet => ?_⟩
  rw [openPager_quiet quiet]
  exact quiet

/-- A pager that was just opened is in no transaction. -/
theorem openPager_idle {pager : Pager} (ran : openPager path state = (.ok pager, after)) :
    pager.inTransaction = false := by
  have opened : (Pager.open path ⟨state.filesAt path, state.schedule⟩).1 = .ok pager :=
    (Prod.mk.inj ran).1
  rcases run : Pager.open path ⟨state.filesAt path, state.schedule⟩ with ⟨result, files⟩
  rw [run] at opened
  obtain rfl : result = .ok pager := opened
  unfold Pager.open at run
  obtain ⟨_, _, -, run⟩ := Exec.bind_eq_ok.mp run
  obtain ⟨length, _, -, run⟩ := Exec.bind_eq_ok.mp run
  split at run
  · obtain ⟨_, _, -, run⟩ := Exec.bind_eq_ok.mp run
    obtain ⟨_, _, -, run⟩ := Exec.bind_eq_ok.mp run
    obtain ⟨_, _, -, run⟩ := Exec.bind_eq_ok.mp run
    rw [← Except.ok.inj (Prod.mk.inj run).1]
  · cases (Prod.mk.inj run).1

/-- Setting a table up under a name that is not used. -/
theorem addTable_calm {pager : Pager} {setUp : Exec TableIo Unit}
    (calm : Exec.Preserves TableIo.Calm setUp) (idle : pager.inTransaction = false)
    (absent : state.tables.lookup name = none) :
    Calm state (addTable name path pager setUp state).2 := by
  obtain ⟨-, same, quiet⟩ := calm (state.opening path pager)
  rcases ran : setUp (state.opening path pager) with ⟨fault | ⟨⟩, table⟩
  · rw [addTable_error ran]
    rw [ran] at quiet
    exact ⟨fun _ => Iff.rfl, quiet⟩
  · rw [ran] at same quiet
    have added : (addTable name path pager setUp state).2 =
        { state.withFiles path table.disk with
          tables := state.tables.insert name table.store
          schedule := table.schedule } := by
      unfold addTable
      rw [show setUp ⟨⟨path, pager, [], 0⟩, state.filesAt path, state.schedule⟩ = _ from ran]
      rfl
    rw [added]
    refine ⟨fun other => ?_, quiet⟩
    have outside : table.store.pager.inTransaction = false := same.trans idle
    unfold InTransaction
    by_cases here : other = name
    · subst here
      dsimp only
      rw [Finmap.lookup_insert, absent]
      simp [outside]
    · dsimp only
      rw [Finmap.lookup_insert_of_ne _ here]

theorem createTable_calm (name : String) (columns : List Column) :
    Exec.Preserves Calm (createTable name columns) := by
  intro state
  unfold createTable
  rw [Exec.bind_ok (Exec.run_get state)]
  split
  · exact Calm.refl state
  · next fresh =>
      have absent : state.tables.lookup name = none := by simpa using fresh
      have opening := openPager_calm (state.fileOf name) state
      rcases ran : openPager (state.fileOf name) state with ⟨fault | pager, middle⟩
      · rw [ran] at opening
        rw [Exec.bind_error ran]
        exact opening
      · have tables : middle.tables = state.tables := by
          rw [← (Prod.mk.inj ran).2]
        rw [ran] at opening
        rw [Exec.bind_ok ran]
        exact opening.trans (addTable_calm (TableIo.create_calm columns) (openPager_idle ran)
          (tables ▸ absent))

/-! ### Begin -/

theorem visited_present (state : Storage) :
    ∀ name, name ∈ state.visited ↔ ∃ table, state.tableAt name = some table := by
  intro name
  rw [← mem_keys]
  exact state.host.mem_order _ _

/-- `begin` on tables of which none is in a transaction. -/
theorem forEach_begin {names : List String} (distinct : names.Nodup)
    (present : ∀ name ∈ names, ∃ table, state.tableAt name = some table)
    (idle : ∀ name ∈ names, ¬ state.InTransaction name) :
    (forEach TableIo.begin names state).1 = .ok () := by
  induction names generalizing state with
  | nil => rfl
  | cons name rest inductionHypothesis =>
      obtain ⟨fresh, distinct⟩ := List.nodup_cons.mp distinct
      obtain ⟨table, found⟩ := present name List.mem_cons_self
      have outside : table.store.pager.inTransaction = false := by
        have not := idle name List.mem_cons_self
        rw [inTransaction_iff found] at not
        simpa using not
      have ran : onTable name .panic TableIo.begin state =
          ((TableIo.begin table).1, state.put name (TableIo.begin table).2) :=
        onTable_found found (TableIo.Safe.samePath TableIo.begin_safe)
      have begun : TableIo.begin table =
          (.ok (), table.withIo { table.io with
            pager := { table.store.pager with inTransaction := true } }) := by
        unfold TableIo.begin
        rw [TableIo.run_onPager, @PagerIo.begin_ok table.io outside]
        rfl
      rw [begun] at ran
      have apart : ∀ other ∈ rest, other ≠ name := by
        rintro other member rfl
        exact fresh member
      unfold forEach
      rw [Exec.bind_ok ran]
      apply inductionHypothesis distinct
      · intro other member
        obtain ⟨there, opened⟩ := present other (List.mem_cons_of_mem _ member)
        have lookup := @lookup_put_other state name other (TableIo.begin table).2
          (apart other member)
        rw [tableAt_store opened, begun] at lookup
        exact ⟨_, tableAt_eq_some.mpr ⟨there.store, lookup, rfl⟩⟩
      · intro other member
        rw [inTransaction_put_other (apart other member)]
        exact idle other (List.mem_cons_of_mem _ member)

theorem begin_succeeds (idle : ∀ name, ¬ state.InTransaction name) :
    (Storage.begin state).1 = .ok () := by
  unfold Storage.begin forAll
  rw [Exec.bind_ok (Exec.run_get state)]
  exact forEach_begin (state.host.nodup_order _)
    (fun name member => (visited_present state name).mp member) fun name _ => idle name

/-! ### Commit and rollback -/

/-- A call that ends the transaction of a table: `clearing` I/O calls up to that end,
`spending` calls in all, and a condition on the table under which these suffice. -/
structure Ends (call : Exec TableIo Unit) (clearing spending : TableIo → Nat)
    (sound : TableIo → Prop) : Prop where
  samePath : Exec.Preserves TableIo.SamePath call
  clears : ∀ table, Clear (clearing table) table.schedule →
    (call table).2.store.pager.inTransaction = false
  stays : ∀ table, ¬ Clear (clearing table) table.schedule →
    (call table).2.store.pager.inTransaction = table.store.pager.inTransaction
  succeeds : ∀ table, Clear (spending table) table.schedule → sound table →
    (call table).1 = .ok () ∧ (call table).2.schedule = table.schedule.drop (spending table)
  fails : ∀ table, ¬ (Clear (spending table) table.schedule ∧ sound table) →
    ∃ fault, (call table).1 = .error fault
  within : ∀ table, Clear (spending table) table.schedule → Clear (clearing table) table.schedule

/-- What is asked of a table, or nothing if it is not there. -/
def ask {α : Type} (missing : α) (question : TableIo → α) (state : Storage) (name : String) : α :=
  (state.tableAt name).elim missing question

theorem ask_found {α : Type} {missing : α} {question : TableIo → α}
    (found : state.tableAt name = some table) :
    state.ask missing question name = question table := by
  unfold ask
  rw [found]
  rfl

/-- The answers about other tables stay. -/
def KeepsAnswers {α : Type} (call : Exec TableIo Unit) (missing : α) (question : TableIo → α) :
    Prop :=
  ∀ (state : Storage) name table other, state.tableAt name = some table → other ≠ name →
    (state.put name (call table).2).ask missing question other = state.ask missing question other

/-- Questions about the pager and the bytes of the `.db` file, for a call that writes none. -/
theorem keepsAnswers_of_db {α : Type} {call : Exec TableIo Unit} {missing : α}
    {question : TableIo → α} (samePath : Exec.Preserves TableIo.SamePath call)
    (keeps : ∀ table, (call table).2.disk.db = table.disk.db)
    (depends : ∀ left right : TableIo, left.store = right.store → left.disk.db = right.disk.db →
      question left = question right) : KeepsAnswers call missing question := by
  intro state name table other found different
  have lookup := @lookup_put_other state name other (call table).2 different
  rcases opened : state.tableAt other with _ | there
  · have absent : (state.put name (call table).2).tableAt other = none := by
      rw [tableAt_eq_none, lookup, ← tableAt_eq_none, opened]
    unfold ask
    rw [opened, absent]
  · rw [tableAt_store opened] at lookup
    rw [ask_found opened, ask_found (tableAt_eq_some.mpr ⟨there.store, lookup, rfl⟩)]
    apply depends
    · rfl
    · change ((state.put name (call table).2).filesAt there.store.path).db = _
      rw [filesAt_put, tableAt_disk opened]
      split
      · next shared =>
          have path : (call table).2.store.path = table.store.path := samePath table
          rw [keeps, tableAt_disk found, shared, path]
      · rfl

/-- Questions about the pager alone. -/
theorem keepsAnswers_of_store {α : Type} {call : Exec TableIo Unit} {missing : α}
    {question : TableIo → α}
    (depends : ∀ left right : TableIo, left.store = right.store → question left = question right) :
    KeepsAnswers call missing question := by
  intro state name table other found different
  have lookup := @lookup_put_other state name other (call table).2 different
  rcases opened : state.tableAt other with _ | there
  · have absent : (state.put name (call table).2).tableAt other = none := by
      rw [tableAt_eq_none, lookup, ← tableAt_eq_none, opened]
    unfold ask
    rw [opened, absent]
  · rw [tableAt_store opened] at lookup
    rw [ask_found opened, ask_found (tableAt_eq_some.mpr ⟨there.store, lookup, rfl⟩)]
    exact depends _ _ rfl

/-- A loop leaves the other tables in the transaction state they are in. -/
theorem forEach_others {call : Exec TableIo Unit} (samePath : Exec.Preserves TableIo.SamePath call)
    {names : List String} (outside : name ∉ names) :
    (forEach call names state).2.InTransaction name ↔ state.InTransaction name := by
  induction names generalizing state with
  | nil => exact Iff.rfl
  | cons first rest inductionHypothesis =>
      rw [List.mem_cons, not_or] at outside
      have same : (onTable first .panic call state).2.InTransaction name ↔
          state.InTransaction name := by
        rcases found : state.tableAt first with _ | table
        · rw [onTable_missing found]
        · rw [onTable_found found samePath]
          exact inTransaction_put_other outside.1
      unfold forEach
      rcases ran : onTable first .panic call state with ⟨fault | ⟨⟩, middle⟩
      · rw [ran] at same
        rw [Exec.bind_error ran]
        exact same
      · rw [ran] at same
        rw [Exec.bind_ok ran, inductionHypothesis outside.2]
        exact same

/-- For each table that is in a transaction: the tables before it are sound, and the I/O
calls up to the end of its transaction take effect. -/
def EndsAll (clearing spending : TableIo → Nat) (sound : TableIo → Prop) (names : List String)
    (state : Storage) : Prop :=
  ∀ before name rest, names = before ++ name :: rest → state.InTransaction name →
    (∀ earlier ∈ before, state.ask True sound earlier) ∧
      Clear ((before.map (state.ask 0 spending)).sum + state.ask 0 clearing name) state.schedule

section Loops

variable {call : Exec TableIo Unit} {clearing spending : TableIo → Nat} {sound : TableIo → Prop}
  {first : String} {rest : List String}

/-- The first table, and the ones after it. -/
theorem endsAll_cons (found : state.tableAt first = some table) :
    EndsAll clearing spending sound (first :: rest) state ↔
      (state.InTransaction first → Clear (clearing table) state.schedule) ∧
        ∀ before name tail, rest = before ++ name :: tail → state.InTransaction name →
          (sound table ∧ Clear (spending table) state.schedule) ∧
            (∀ earlier ∈ before, state.ask True sound earlier) ∧
              Clear ((before.map (state.ask 0 spending)).sum + state.ask 0 clearing name)
                (state.schedule.drop (spending table)) := by
  constructor
  · intro all
    constructor
    · intro busy
      have clear := (all [] first rest rfl busy).2
      rw [ask_found found, List.map_nil, List.sum_nil, Nat.zero_add] at clear
      exact clear
    · rintro before name tail rfl busy
      obtain ⟨fine, clear⟩ := all (first :: before) name tail rfl busy
      rw [List.map_cons, List.sum_cons, ask_found found, Nat.add_assoc, clear_add] at clear
      have head := fine first List.mem_cons_self
      rw [ask_found found] at head
      exact ⟨⟨head, clear.1⟩, fun earlier member => fine earlier (List.mem_cons_of_mem _ member),
        clear.2⟩
  · rintro ⟨head, later⟩ before name tail split busy
    cases before with
    | nil =>
        obtain ⟨rfl, rfl⟩ := List.cons.inj split
        rw [ask_found found, List.map_nil, List.sum_nil, Nat.zero_add]
        exact ⟨fun earlier member => absurd member List.not_mem_nil, head busy⟩
    | cons leading before =>
        obtain ⟨rfl, inner⟩ := List.cons.inj split
        obtain ⟨⟨fine, clear⟩, others, clearLater⟩ := later before name tail inner busy
        rw [List.map_cons, List.sum_cons, ask_found found, Nat.add_assoc, clear_add]
        refine ⟨fun earlier member => ?_, clear, clearLater⟩
        rcases List.mem_cons.mp member with rfl | member
        · rw [ask_found found]
          exact fine
        · exact others earlier member

/-- After a call that succeeded on the first table, what is asked of the others is as before. -/
theorem endsAll_spent (ends : Ends call clearing spending sound)
    (keepsClearing : KeepsAnswers call 0 clearing) (keepsSpending : KeepsAnswers call 0 spending)
    (keepsSound : KeepsAnswers call True sound) (fresh : first ∉ rest)
    (found : state.tableAt first = some table) (clear : Clear (spending table) table.schedule)
    (fine : sound table) :
    EndsAll clearing spending sound (first :: rest) state ↔
      EndsAll clearing spending sound rest (state.put first (call table).2) := by
  have schedule : table.schedule = state.schedule := tableAt_schedule found
  have cleared : Clear (clearing table) state.schedule := schedule ▸ ends.within table clear
  have remaining : (state.put first (call table).2).schedule =
      state.schedule.drop (spending table) := by
    rw [← schedule]
    exact (ends.succeeds table clear fine).2
  have asked : ∀ before name tail, rest = before ++ name :: tail →
      (((∀ earlier ∈ before, (state.put first (call table).2).ask True sound earlier) ∧
        Clear ((before.map ((state.put first (call table).2).ask 0 spending)).sum +
          (state.put first (call table).2).ask 0 clearing name)
          (state.put first (call table).2).schedule) ↔
      ((∀ earlier ∈ before, state.ask True sound earlier) ∧
        Clear ((before.map (state.ask 0 spending)).sum + state.ask 0 clearing name)
          (state.schedule.drop (spending table)))) := by
    rintro before name tail rfl
    have apart : ∀ other ∈ before ++ name :: tail, other ≠ first := by
      rintro other member rfl
      exact fresh member
    have counts : before.map ((state.put first (call table).2).ask 0 spending) =
        before.map (state.ask 0 spending) :=
      List.map_congr_left fun other member =>
        keepsSpending state first table other found (apart other (List.mem_append_left _ member))
    have last := keepsClearing state first table name found
      (apart name (List.mem_append_right _ List.mem_cons_self))
    rw [counts, last, remaining]
    exact and_congr_left fun _ => forall₂_congr fun other member => iff_of_eq
      (keepsSound state first table other found (apart other (List.mem_append_left _ member)))
  have busy : ∀ before name tail, rest = before ++ name :: tail →
      ((state.put first (call table).2).InTransaction name ↔ state.InTransaction name) := by
    rintro before name tail rfl
    refine inTransaction_put_other ?_
    rintro rfl
    exact fresh (List.mem_append_right _ List.mem_cons_self)
  rw [endsAll_cons found]
  constructor
  · rintro ⟨-, later⟩ before name tail split open_
    exact (asked before name tail split).mpr
      (later before name tail split ((busy before name tail split).mp open_)).2
  · intro all
    refine ⟨fun _ => cleared, fun before name tail split open_ => ⟨⟨fine, schedule ▸ clear⟩, ?_⟩⟩
    exact (asked before name tail split).mp
      (all before name tail split ((busy before name tail split).mpr open_))

/-- A call that fails on the first table is the last one. -/
theorem endsAll_stopped (found : state.tableAt first = some table)
    (bad : ¬ (Clear (spending table) table.schedule ∧ sound table)) :
    EndsAll clearing spending sound (first :: rest) state ↔
      (state.InTransaction first → Clear (clearing table) state.schedule) ∧
        ∀ name ∈ rest, ¬ state.InTransaction name := by
  have schedule : table.schedule = state.schedule := tableAt_schedule found
  rw [endsAll_cons found]
  refine and_congr_right fun _ => ⟨fun later name member open_ => ?_, fun idle => ?_⟩
  · obtain ⟨before, tail, split⟩ := List.append_of_mem member
    have reached := (later before name tail split open_).1
    rw [← schedule] at reached
    exact bad ⟨reached.2, reached.1⟩
  · rintro before name tail rfl open_
    exact absurd open_ (idle name (List.mem_append_right _ List.mem_cons_self))

/-- A loop over tables ends every transaction of theirs exactly if, for each of them that is
in one, the I/O calls up to its end take effect, and the tables before it are sound. -/
theorem forEach_ends (ends : Ends call clearing spending sound)
    (keepsClearing : KeepsAnswers call 0 clearing) (keepsSpending : KeepsAnswers call 0 spending)
    (keepsSound : KeepsAnswers call True sound) {names : List String} (distinct : names.Nodup)
    (present : ∀ name ∈ names, ∃ table, state.tableAt name = some table) :
    (∀ name ∈ names, ¬ (forEach call names state).2.InTransaction name) ↔
      EndsAll clearing spending sound names state := by
  induction names generalizing state with
  | nil => simp [EndsAll]
  | cons first rest inductionHypothesis =>
      obtain ⟨fresh, distinct⟩ := List.nodup_cons.mp distinct
      obtain ⟨table, found⟩ := present first List.mem_cons_self
      have apart : ∀ other ∈ rest, other ≠ first := by
        rintro other member rfl
        exact fresh member
      have schedule : table.schedule = state.schedule := tableAt_schedule found
      have ran : onTable first .panic call state = ((call table).1, state.put first (call table).2) :=
        onTable_found found ends.samePath
      have here : (state.put first (call table).2).InTransaction first ↔
          (call table).2.store.pager.inTransaction = true := inTransaction_put
      rw [List.forall_mem_cons]
      by_cases good : Clear (spending table) table.schedule ∧ sound table
      · obtain ⟨clear, fine⟩ := good
        rw [endsAll_spent ends keepsClearing keepsSpending keepsSound fresh found clear fine]
        rw [(ends.succeeds table clear fine).1] at ran
        unfold forEach
        rw [Exec.bind_ok ran, forEach_others ends.samePath fresh, here,
          ends.clears table (ends.within table clear), inductionHypothesis distinct]
        · exact and_iff_right Bool.false_ne_true
        · intro other member
          obtain ⟨there, opened⟩ := present other (List.mem_cons_of_mem _ member)
          have lookup := @lookup_put_other state first other (call table).2 (apart other member)
          rw [tableAt_store opened] at lookup
          exact ⟨_, tableAt_eq_some.mpr ⟨there.store, lookup, rfl⟩⟩
      · obtain ⟨fault, failed⟩ := ends.fails table good
        rw [endsAll_stopped found good]
        rw [failed] at ran
        unfold forEach
        rw [Exec.bind_error ran, here]
        refine and_congr ?_ (forall₂_congr fun name member =>
          not_congr (inTransaction_put_other (apart name member)))
        rw [inTransaction_iff found, ← schedule]
        by_cases clear : Clear (clearing table) table.schedule
        · rw [ends.clears table clear]
          exact iff_of_true Bool.false_ne_true fun _ => clear
        · rw [ends.stays table clear]
          exact ⟨fun idle open_ => absurd open_ idle, fun clears open_ => clear (clears open_)⟩

/-- The loop over all tables. -/
theorem forAll_ends (ends : Ends call clearing spending sound)
    (keepsClearing : KeepsAnswers call 0 clearing) (keepsSpending : KeepsAnswers call 0 spending)
    (keepsSound : KeepsAnswers call True sound) :
    (∀ name, ¬ (forAll call state).2.InTransaction name) ↔
      EndsAll clearing spending sound state.visited state := by
  have loop : (∀ name ∈ state.visited,
      ¬ (forEach call state.visited state).2.InTransaction name) ↔
      EndsAll clearing spending sound state.visited state :=
    forEach_ends ends keepsClearing keepsSpending keepsSound (state.host.nodup_order _)
      fun name member => (visited_present state name).mp member
  rw [← loop]
  unfold forAll
  rw [Exec.bind_ok (Exec.run_get state)]
  constructor
  · exact fun idle name _ => idle name
  · intro idle name
    by_cases member : name ∈ state.visited
    · exact idle name member
    · rw [forEach_others ends.samePath member]
      apply not_inTransaction
      by_contra there
      obtain ⟨table, found⟩ := Option.ne_none_iff_exists'.mp there
      exact member ((visited_present state name).mpr ⟨table, found⟩)

end Loops

end Storage

namespace TableIo

variable {table : TableIo}

/-- The metadata page, as it reads once the dirty pages are dropped, can be decoded. -/
def MetadataReads (table : TableIo) : Prop :=
  ∃ page metadata, table.io.rolledBack.reads 0 = .ok page ∧ decodeMetadata page = .ok metadata

/-- The I/O calls of a rollback. -/
def rollbackCalls (table : TableIo) : Nat := 3 + table.io.rolledBack.loadCalls 0

theorem commit_ends : Storage.Ends commit (fun table => table.io.commitCalls)
    (fun table => table.io.commitCalls) fun _ => True where
  samePath := Safe.samePath commit_safe
  clears := by
    intro table clear
    obtain ⟨value, after, ran, -, idle⟩ := (PagerIo.spends_commit table.io).clear clear
    unfold commit
    rw [run_onPager, ran]
    exact idle
  stays := by
    intro table unclear
    obtain ⟨fault, after, ran, same⟩ := (PagerIo.spends_commit table.io).failed unclear
    unfold commit
    rw [run_onPager, ran]
    exact same
  succeeds := by
    intro table clear _
    obtain ⟨⟨⟩, after, ran, left, -⟩ := (PagerIo.spends_commit table.io).clear clear
    unfold commit
    rw [run_onPager, ran]
    exact ⟨rfl, left⟩
  fails := by
    intro table unclear
    obtain ⟨fault, after, ran, -⟩ := (PagerIo.spends_commit table.io).failed fun clear =>
      unclear ⟨clear, trivial⟩
    unfold commit
    rw [run_onPager, ran]
    exact ⟨fault, rfl⟩
  within := fun _ => id

/-- Reading the metadata loads page 0. -/
theorem run_readMetadata (state : PagerIo) :
    Pager.perform readMetadata state =
      ((Pager.loadPage 0 state).1.bind decodeMetadata, (Pager.loadPage 0 state).2) := by
  change (Pager.loadPage 0 >>= fun page => Exec.ofExcept (decodeMetadata page)) state = _
  rw [Exec.run_bind]
  rcases Pager.loadPage 0 state with ⟨_ | page, after⟩ <;> rfl

/-- The pager after a rollback whose I/O calls took effect. -/
def afterRollback (table : TableIo) : PagerIo :=
  ⟨table.io.rolledBack.pager, table.io.rolledBack.disk, table.schedule.drop 3⟩

/-- A rollback whose pager gives its dirty pages up goes on to read the metadata. -/
theorem rollback_clear (clear : Clear 3 table.schedule) :
    rollback table =
      match Pager.perform readMetadata table.afterRollback with
      | (.ok (root, _), last) => (.ok (), (table.withIo last).withRoot root)
      | (.error fault, last) => (.error fault, table.withIo last) := by
  have first : onPager Pager.rollback table = (.ok (), table.withIo table.afterRollback) := by
    rw [run_onPager, @PagerIo.rollback_clear table.io clear]
    rfl
  have second : onPages readMetadata (table.withIo table.afterRollback) =
      ((Pager.perform readMetadata table.afterRollback).1,
        table.withIo (Pager.perform readMetadata table.afterRollback).2) := by
    unfold onPages
    rw [run_onPager, io_withIo]
    rfl
  unfold rollback
  rw [Exec.bind_ok first]
  rcases ran : Pager.perform readMetadata table.afterRollback with ⟨fault | ⟨root, columns⟩, last⟩
  · rw [ran] at second
    rw [Exec.bind_error second]
  · rw [ran] at second
    rw [Exec.bind_ok second]
    rfl

theorem rollback_ends : Storage.Ends rollback (fun _ => 3) rollbackCalls MetadataReads where
  samePath := Safe.samePath rollback_safe
  clears := by
    intro table clear
    have calm := (PagerIo.perform_calm readMetadata table.afterRollback).inTransaction
    rw [rollback_clear clear]
    rcases ran : Pager.perform readMetadata table.afterRollback with ⟨_ | ⟨root, columns⟩, last⟩
    · rw [ran] at calm
      exact calm
    · rw [ran] at calm
      exact calm
  stays := by
    intro table unclear
    obtain ⟨fault, after, ran, same, -⟩ := @PagerIo.rollback_failed table.io unclear
    have first : onPager Pager.rollback table = (.error fault, table.withIo after) := by
      rw [run_onPager, ran]
    unfold rollback
    rw [Exec.bind_error first]
    exact same
  succeeds := by
    rintro table clear ⟨page, metadata, reads, decodes⟩
    obtain ⟨clearFirst, clearLoad⟩ := clear_add.mp clear
    obtain ⟨loads, left⟩ := @PagerIo.loadPage_clear table.afterRollback 0 (by decide) clearLoad
    obtain ⟨root, columns⟩ := metadata
    have performed : Pager.perform readMetadata table.afterRollback =
        (.ok (root, columns), (Pager.loadPage 0 table.afterRollback).2) := by
      rw [run_readMetadata, loads.trans reads]
      exact Prod.ext decodes rfl
    rw [rollback_clear clearFirst, performed]
    refine ⟨rfl, left.trans ?_⟩
    change (table.schedule.drop 3).drop _ = _
    rw [List.drop_drop]
    rfl
  fails := by
    intro table bad
    by_cases clearFirst : Clear 3 table.schedule
    · have fault : ∃ fault, (Pager.perform readMetadata table.afterRollback).1 = .error fault := by
        rw [run_readMetadata]
        by_cases clearLoad : Clear (table.afterRollback.loadCalls 0) table.afterRollback.schedule
        · have loads := (@PagerIo.loadPage_clear table.afterRollback 0 (by decide) clearLoad).1
          rw [loads]
          rcases reads : table.afterRollback.reads 0 with fault | page
          · exact ⟨fault, rfl⟩
          · rcases decodes : decodeMetadata page with fault | metadata
            · exact ⟨fault, decodes⟩
            · exact absurd ⟨clear_add.mpr ⟨clearFirst, clearLoad⟩, page, metadata, reads, decodes⟩
                bad
        · obtain ⟨fault, failed⟩ := PagerIo.loadPage_failed clearLoad
          rw [failed]
          exact ⟨fault, rfl⟩
      obtain ⟨fault, failed⟩ := fault
      rw [rollback_clear clearFirst]
      rcases ran : Pager.perform readMetadata table.afterRollback with ⟨result, last⟩
      rw [ran] at failed
      obtain rfl : result = .error fault := failed
      exact ⟨fault, rfl⟩
    · obtain ⟨fault, after, ran, -⟩ := @PagerIo.rollback_failed table.io clearFirst
      have first : onPager Pager.rollback table = (.error fault, table.withIo after) := by
        rw [run_onPager, ran]
      unfold rollback
      rw [Exec.bind_error first]
      exact ⟨fault, rfl⟩
  within := fun table clear => (clear_add.mp clear).1

/-- No rollback writes to the `.db` file. -/
theorem rollback_keepsDb (table : TableIo) : (rollback table).2.disk.db = table.disk.db := by
  by_cases clear : Clear 3 table.schedule
  · have filled := PagerIo.perform_filled readOnly_readMetadata table.afterRollback
    rw [rollback_clear clear]
    rcases ran : Pager.perform readMetadata table.afterRollback with ⟨_ | ⟨root, columns⟩, last⟩
    · rw [ran] at filled
      have disk : last.disk = table.afterRollback.disk := filled.disk
      change last.disk.db = table.disk.db
      rw [disk]
      rfl
    · rw [ran] at filled
      have disk : last.disk = table.afterRollback.disk := filled.disk
      change last.disk.db = table.disk.db
      rw [disk]
      rfl
  · obtain ⟨fault, after, ran, -, same⟩ := @PagerIo.rollback_failed table.io clear
    have first : onPager Pager.rollback table = (.error fault, table.withIo after) := by
      rw [run_onPager, ran]
    unfold rollback
    rw [Exec.bind_error first]
    exact same

end TableIo

namespace Storage

variable {state : Storage}

/-- After a commit, whatever it returns, no table is in a transaction exactly if the I/O calls
of the commit take effect up to the last table that was in one. -/
theorem commit_ends_iff :
    (∀ name, ¬ (Storage.commit state).2.InTransaction name) ↔
      EndsAll (fun table => table.io.commitCalls) (fun table => table.io.commitCalls)
        (fun _ => True) state.visited state := by
  have counts : KeepsAnswers TableIo.commit 0 fun table => table.io.commitCalls := by
    apply keepsAnswers_of_store
    intro left right same
    unfold TableIo.io
    rw [same]
    rfl
  exact forAll_ends TableIo.commit_ends counts counts
    (keepsAnswers_of_store fun _ _ _ => rfl)

/-- The same for a rollback, which also stops at a table whose metadata cannot be read. -/
theorem rollback_ends_iff :
    (∀ name, ¬ (Storage.rollback state).2.InTransaction name) ↔
      EndsAll (fun _ => 3) TableIo.rollbackCalls TableIo.MetadataReads state.visited state := by
  have samePath := TableIo.Safe.samePath TableIo.rollback_safe
  have same : ∀ left right : TableIo, left.store = right.store → left.disk.db = right.disk.db →
      left.rollbackCalls = right.rollbackCalls ∧ left.MetadataReads = right.MetadataReads := by
    rintro ⟨store, ⟨db, log⟩, schedule⟩ ⟨_, ⟨_, _⟩, _⟩ ⟨⟩ ⟨⟩
    exact ⟨rfl, rfl⟩
  exact forAll_ends TableIo.rollback_ends (keepsAnswers_of_store fun _ _ _ => rfl)
    (keepsAnswers_of_db samePath TableIo.rollback_keepsDb fun left right store db =>
      (same left right store db).1)
    (keepsAnswers_of_db samePath TableIo.rollback_keepsDb fun left right store db =>
      (same left right store db).2)

end Storage

end MukhiDb.Model
