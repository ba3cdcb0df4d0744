import MukhiDb.Pager.Attempts
import MukhiDb.Storage.Refinement

/-!
Contract: operations of a process that is killed.

Owns: what a file holds for a process that opens it later; that a call on a table that is cut
off leaves a file of the rows that were saved or of the rows that it was about to save; and
that an operation that is cut off leaves files of what may be found after a kill.

Does not own: tables that are being created, writes that take effect in part, and files whose
logs hold what an earlier kill left.
-/

namespace MukhiDb.Model

open MukhiDb.Foundation
open BTree (Tree)

/-! ### Files -/

/-- After recovery the file holds a tree of the rows. -/
structure FileHolds (sizes : Nat → Prop) (columns : List Column) (content : Content) (disk : Disk) :
    Prop where
  aligned : disk.Aligned
  whole : WholeLog disk.log
  small : MetadataFits columns
  tree : ∃ saved : Tree, Holds (fun row => sizes row.length) columns disk.recovered.book saved ∧
    Stores columns saved disk.recovered.pageCount content

theorem book_of_db {disk other : Disk} (same : other.db = disk.db) : other.book = disk.book := by
  unfold Disk.book
  rw [PagerIo.page_of_db same, show other.pageCount = disk.pageCount from
    congrArg (fun db : Bytes => db.length / pageSize) same]

namespace TableIo

variable {sizes : Nat → Prop} {view : TableView} {table : TableIo} {values : List Value}
  {columns : List Column} {content other : Content} {live saved : Tree}

/-- The file holds a tree of rows when it does so after recovery. -/
theorem fileHolds_of_db {disk after : Disk} (aligned : after.Aligned) (whole : WholeLog after.log)
    (small : MetadataFits columns)
    (holds : Holds (fun row => sizes row.length) columns disk.book saved)
    (stores : Stores columns saved disk.pageCount content) (same : after.recovered.db = disk.db) :
    FileHolds sizes columns content after where
  aligned := aligned
  whole := whole
  small := small
  tree := by
    have count : after.recovered.pageCount = disk.pageCount :=
      congrArg (fun db : Bytes => db.length / pageSize) same
    refine ⟨saved, ?_, ?_⟩
    · rwa [book_of_db same]
    · rwa [count]

/-- Files whose log holds nothing to recover are what they are after recovery. -/
theorem recovered_of_idle {disk : Disk} (idle : recoveredRecords disk.log = []) : disk.recovered = disk :=
  if_pos idle

/-- The file of a table holds the rows that are saved, also when its log was emptied. -/
theorem Views.file (views : Views sizes view table) {disk : Disk}
    (dropped : disk = table.disk ∨ disk = ⟨table.disk.db, []⟩) :
    FileHolds sizes view.columns view.saved disk := by
  obtain ⟨live, saved, trees, -, stores⟩ := views.trees
  have aligned : table.disk.Aligned := trees.sound.coherent.fileAligned
  rcases dropped with rfl | rfl
  · exact fileHolds_of_db aligned views.log.1 trees.small trees.stored stores
      (congrArg Disk.db (recovered_of_idle views.log.2))
  · exact fileHolds_of_db aligned wholeLog_nil trees.small trees.stored stores
      ((congrArg Disk.db (recovered_of_idle idleLog_nil.2)).trans rfl)

/-- The file after a commit that is cut off. -/
theorem Trees.crashed (trees : Trees (fun row => sizes row.length) columns live saved table)
    (empty : table.disk.log = []) (liveStores : Stores columns live table.io.count other)
    (savedStores : Stores columns saved table.disk.pageCount content) (calls : Nat) :
    FileHolds sizes columns content (table.io.crashed calls 0) ∨
      FileHolds sizes columns other (table.io.crashed calls 0) := by
  have coherent := trees.sound.coherent
  obtain ⟨aligned, whole, db⟩ := coherent.crashed_file empty calls
  split at db
  · right
    refine @fileHolds_of_db sizes columns other live _ _ aligned whole trees.small ?_ ?_ db
    · rw [PagerIo.committed_disk_book trees.sound]
      exact trees.working
    · rw [coherent.committed_pageCount]
      exact liveStores
  · left
    exact fileHolds_of_db aligned whole trees.small trees.stored savedStores db

/-! ### Calls that are cut off -/

/-- The stops of a process that works on a table. -/
def stopping : Stopping TableIo where
  quiet table := table.io.Quiet
  after calls table := { table with schedule := crashAt calls 0 }

/-- The files stay, or the log is emptied. -/
def Stays (before after : TableIo) : Prop :=
  after.store.path = before.store.path ∧ PagerIo.LogDropped before.io after.io

theorem Stays.refl (table : TableIo) : Stays table table := ⟨rfl, PagerIo.LogDropped.refl _⟩

theorem Stays.transitive (first second third : TableIo) (left : Stays first second)
    (right : Stays second third) : Stays first third :=
  ⟨right.1.trans left.1, left.2.trans right.2⟩

theorem spares_onPager {α : Type} {call : Exec PagerIo α}
    (spares : Exec.Spares PagerIo.stopping PagerIo.LogDropped call) :
    Exec.Spares stopping Stays (onPager call) :=
  Exec.Spares.zoom (fun _ quiet => quiet) (fun _ _ quiet => quiet) (fun _ _ => rfl)
    (fun _ _ _ _ => rfl) (fun _ _ dropped => ⟨rfl, dropped⟩) (fun _ _ _ kept => kept) spares

theorem spares_onPages {α : Type} (program : PageProgram α) :
    Exec.Spares stopping Stays (onPages program) := spares_onPager (PagerIo.spares_perform program)

theorem spares_setRoot (root : Nat) : Exec.Spares stopping Stays (setRoot root) :=
  Exec.Spares.modify (fun _ quiet => quiet) (fun table => Stays.refl table) fun _ _ => rfl

theorem spares_begin : Exec.Spares stopping Stays TableIo.begin := spares_onPager PagerIo.spares_begin

theorem spares_rollback : Exec.Spares stopping Stays TableIo.rollback := by
  refine Exec.Spares.bind Stays.transitive (spares_onPager PagerIo.spares_rollback) fun _ => ?_
  refine Exec.Spares.bind Stays.transitive (spares_onPages readMetadata) fun metadata => ?_
  exact spares_setRoot _

theorem spares_selectAll : Exec.Spares stopping Stays TableIo.selectAll := by
  refine Exec.Spares.getBind (fun _ _ => rfl) fun table => ?_
  refine Exec.Spares.bind Stays.transitive (spares_onPages _) fun rawRows => ?_
  refine Exec.Spares.bind Stays.transitive (Exec.Spares.ofExcept Stays.refl _) fun rows => ?_
  exact Exec.Spares.pure Stays.refl _

theorem spares_dumpBtree : Exec.Spares stopping Stays TableIo.dumpBtree :=
  Exec.Spares.getBind (fun _ _ => rfl) fun _ => spares_onPages _

theorem spares_insertPages (key : Int64) (buf : Bytes) :
    Exec.Spares stopping Stays (insertPages key buf) := by
  refine Exec.Spares.getBind (fun _ _ => rfl) fun table => ?_
  refine Exec.Spares.bind Stays.transitive (spares_onPages _) fun newRoot => ?_
  split
  · exact Exec.Spares.bind Stays.transitive (spares_setRoot _) fun _ => spares_onPages _
  · exact Exec.Spares.pure Stays.refl _

/-- The file is left with these rows. -/
def Leaves (sizes : Nat → Prop) (columns : List Column) (content : Content) (cut : TableIo) : Prop :=
  FileHolds sizes columns content cut.disk

/-- A call that leaves the files alone. -/
theorem Views.cutOff {α : Type} {call : Exec TableIo α} (views : Views sizes view table)
    (spares : Exec.Spares stopping Stays call) :
    Exec.CutOff stopping (Leaves sizes view.columns view.saved) call table :=
  (spares.cutOff views.quiet).mono fun _ stays => views.file stays.2

/-- A flush on an empty log that is cut off. -/
theorem Trees.flush_cutOff (trees : Trees (fun row => sizes row.length) columns live saved table)
    (empty : table.disk.log = []) (liveStores : Stores columns live table.io.count other)
    (savedStores : Stores columns saved table.disk.pageCount content) :
    Exec.CutOff stopping (fun cut => Leaves sizes columns content cut ∨ Leaves sizes columns other cut)
      (onPager Pager.commit) table := by
  intro calls
  have ran := PagerIo.commit_ok trees.quiet
  rw [run_onPager, run_onPager, ran]
  rcases PagerIo.commit_stopped trees.quiet calls with ⟨rest, went⟩ | ⟨fault, cut, failed, disk⟩
  · have went : Pager.commit (TableIo.io (stopping.after calls table)) = _ := went
    rw [went]
    exact Or.inl ⟨rest, rfl⟩
  · have failed : Pager.commit (TableIo.io (stopping.after calls table)) = _ := failed
    rw [failed]
    refine Or.inr ⟨fault, _, rfl, ?_⟩
    change FileHolds sizes columns content cut.disk ∨ FileHolds sizes columns other cut.disk
    rw [disk]
    exact trees.crashed empty liveStores savedStores calls

theorem Views.commit_cutOff (views : Views sizes view table) (empty : table.disk.log = []) :
    Exec.CutOff stopping (fun cut => Leaves sizes view.columns view.saved cut ∨
      Leaves sizes view.columns view.live cut) TableIo.commit table := by
  obtain ⟨live, saved, trees, stores, kept⟩ := views.trees
  exact trees.flush_cutOff empty stores kept

/-- An insertion that is cut off leaves the rows that were saved. Outside a transaction it may
leave the new row too. -/
theorem Views.insert_cutOff (views : Views sizes view table) (steady : BTree.Steady sizes)
    (sized : TableView.Admits view.columns values → sizes (rowBytes values).length)
    (empty : table.disk.log = []) :
    Exec.CutOff stopping (fun cut => Leaves sizes view.columns view.saved cut ∨
      view.inTransaction = false ∧ TableView.Admits view.columns values ∧
        Leaves sizes view.columns (view.insert ⟨values⟩).saved cut)
      (TableIo.insert values) table := by
  obtain ⟨live, saved, trees, stores, kept⟩ := views.trees
  unfold TableIo.insert
  refine Exec.CutOff.getBind (fun _ => rfl) ?_
  refine Exec.CutOff.bind (fun calls => Or.inl ⟨calls, rfl⟩) fun cell there checked => ?_
  rw [Exec.run_ofExcept, views.columns] at checked
  have admits : TableView.Admits view.columns values := by
    by_contra unfit
    obtain ⟨message, refused⟩ := encodeRow_refused unfit
    rw [refused] at checked
    cases checked
  obtain ⟨rfl, rfl⟩ : cellOf view.columns ⟨values⟩ = cell ∧ table = there := by
    simpa [encodeRow_admits admits] using checked
  have accepted := admits_iff.mp admits
  have linked := trees.working.held.linked
  rw [PagerIo.book_length] at linked
  rcases grows : live.insert BTree.layout table.io.count (cellOf view.columns ⟨values⟩).1
    (cellOf view.columns ⟨values⟩).2 with ⟨tree, pages, complete⟩
  obtain ⟨middle, ran, next, count, state, same⟩ := trees.insertPages_runs accepted.short
    (sized admits) (trees.splitsFit_steady steady (sized admits) accepted.short) grows
  change Exec.CutOff stopping _
    (insertRow (cellOf view.columns ⟨values⟩).1 (cellOf view.columns ⟨values⟩).2) table
  rw [insertRow_eq]
  refine Exec.CutOff.bind (((spares_insertPages _ _).cutOff trees.quiet).mono fun cut stays =>
    Or.inl (views.file stays.2)) fun _ there went => ?_
  -- only a row that was inserted is flushed
  obtain ⟨finished, rfl⟩ : complete = true ∧ middle = there := by
    have both := ran.symm.trans went
    cases complete with
    | false => simp [TableIo.inserted] at both
    | true => simpa [TableIo.inserted] using both
  obtain rfl : complete = true := finished
  dsimp only at next count
  refine Exec.CutOff.getBind (fun _ => rfl) ?_
  by_cases open_ : view.inTransaction = true
  · rw [if_pos (state.trans (views.state.trans open_))]
    exact Exec.CutOff.pure ()
  · have closed : view.inTransaction = false := by simpa using open_
    rw [if_neg (by rw [state, views.state]; exact open_)]
    have grown : Stores view.columns tree pages ⟨⟨values⟩ ::ₘ view.live.rows, view.live.intact⟩ := by
      rcases @Stores.insert _ _ _ _ stores linked ⟨values⟩ accepted _ grows with
        ⟨-, grown⟩ | ⟨stopped, -⟩
      · exact grown
      · cases stopped
    have log : middle.disk.log = [] := by rw [same, empty]
    rw [← count] at grown
    have kept' : Stores view.columns saved middle.disk.pageCount view.saved := by rwa [same]
    refine (next.flush_cutOff log grown kept').mono fun cut left => ?_
    unfold TableView.insert
    rw [if_neg open_]
    exact left.imp_right fun file => ⟨closed, admits, file⟩

/-! ### Empty logs -/

section EmptyLogs

variable {name : String}

/-- The log of the table is empty. -/
def EmptyLog (_name : String) (table : TableIo) : Prop := table.disk.log = []

theorem emptyLog_spared {α : Type} {call : Exec TableIo α} (spares : Exec.Spares stopping Stays call) :
    Storage.Keeps EmptyLog name call := by
  intro table empty quiet
  refine ⟨?_, spares.quiet table quiet⟩
  rcases (spares.kept table quiet).2 with same | dropped
  · exact (congrArg Disk.log same).trans empty
  · exact congrArg Disk.log dropped

theorem emptyLog_commit : Storage.Keeps EmptyLog name TableIo.commit := by
  intro table _ quiet
  unfold TableIo.commit
  rw [run_onPager, PagerIo.commit_ok quiet]
  exact ⟨rfl, quiet⟩

theorem emptyLog_insert (values : List Value) : Storage.Keeps EmptyLog name (TableIo.insert values) := by
  intro table empty quiet
  unfold TableIo.insert
  rw [Exec.bind_ok (Exec.run_get table)]
  rcases encoded : encodeRow table.store.columns values with fault | ⟨key, buf⟩
  · exact ⟨empty, quiet⟩
  · rw [Exec.bind_ok (show Exec.ofExcept (.ok (key, buf)) table = _ from rfl)]
    change EmptyLog name (insertRow key buf table).2 ∧ (insertRow key buf table).2.io.Quiet
    have head := @emptyLog_spared name _ _ (spares_insertPages key buf) table empty quiet
    rw [insertRow_eq]
    rcases ran : insertPages key buf table with ⟨fault | value, middle⟩
    · rw [Exec.bind_error ran]
      rwa [ran] at head
    · rw [ran] at head
      rw [Exec.bind_ok ran, run_flushOutside]
      split
      · exact head
      · exact emptyLog_commit middle head.1 head.2

end EmptyLogs

end TableIo

/-! ### Files of a storage -/

namespace Storage

/-- The directory holds a file of each table of the database, with the rows that are saved, and
no other file. -/
structure Files (sizes : String → Nat → Prop) (dir : String → Option Disk) (db : Database) : Prop where
  names : ∀ path, (dir path).isSome ↔ ∃ name, (db name).isSome ∧ path = pathOf name
  holds : ∀ name view, db name = some view → ∃ disk, dir (pathOf name) = some disk ∧
    FileHolds (sizes name) view.columns view.saved disk

section Files

variable {sizes : String → Nat → Prop} {state : Storage} {dir : String → Option Disk} {db : Database}
  {name : String} {table : TableIo} {view left : TableView}

theorem Represents.file (represents : Represents sizes state db) (found : state.tableAt name = some table)
    (path : table.store.path = pathOf name) (present : db name = some view) :
    state.dir (pathOf name) = some table.disk := by
  obtain ⟨disk, file⟩ := Option.isSome_iff_exists.mp ((represents.files (pathOf name)).mpr
    ⟨name, by rw [present]; rfl, rfl⟩)
  rw [file, tableAt_disk found, path, filesAt, file]
  rfl

/-- Between two operations the files hold what is saved. -/
theorem Represents.filed (represents : Represents sizes state db) : Files sizes state.dir db where
  names := represents.files
  holds := by
    intro name view present
    obtain ⟨table, found, path, views⟩ := represents.present present
    exact ⟨table.disk, represents.file found path present, views.file (Or.inl rfl)⟩

/-- Another file of a table. -/
theorem Files.replace (files : Files sizes dir db) (present : (db name).isSome) {disk : Disk}
    (holds : FileHolds (sizes name) left.columns left.saved disk) :
    Files sizes (Function.update dir (pathOf name) (some disk)) (db.put name left) where
  names := by
    intro path
    have same (other : String) : (db.put name left other).isSome ↔ (db other).isSome := by
      unfold Database.put
      by_cases own : other = name
      · subst own
        simpa using present
      · rw [Function.update_of_ne own]
    simp only [same]
    rw [← files.names path]
    by_cases own : path = pathOf name
    · subst own
      rw [Function.update_self]
      simpa using (files.names (pathOf name)).mpr ⟨name, present, rfl⟩
    · rw [Function.update_of_ne own]
  holds := by
    intro other view there
    unfold Database.put at there
    by_cases own : other = name
    · subst own
      rw [Function.update_self, Option.some.injEq] at there
      subst there
      exact ⟨disk, Function.update_self _ _ _, holds⟩
    · rw [Function.update_of_ne own] at there
      rw [Function.update_of_ne fun same => own (pathOf_injective same)]
      exact files.holds other view there

/-- Another file of a table, with the same rows. -/
theorem Files.keep (files : Files sizes dir db) (present : db name = some view) {disk : Disk}
    (holds : FileHolds (sizes name) view.columns view.saved disk) :
    Files sizes (Function.update dir (pathOf name) (some disk)) db := by
  have same : db.put name view = db := Function.update_eq_self_iff.mpr present.symm
  rw [← same]
  exact files.replace (by rw [present]; rfl) holds

/-- The files say nothing about what is not saved. -/
theorem Files.map (files : Files sizes dir db) {change : TableView → TableView}
    (saved : ∀ view, (change view).columns = view.columns ∧ (change view).saved = view.saved) :
    Files sizes dir (db.map change) where
  names := by
    intro path
    rw [files.names path]
    simp [Database.map]
  holds := by
    intro name after there
    obtain ⟨view, present, rfl⟩ := Option.map_eq_some_iff.mp there
    rw [(saved view).1, (saved view).2]
    exact files.holds name view present

theorem Files.rollback (files : Files sizes dir db) : Files sizes dir (db.map TableView.rollback) :=
  files.map fun _ => ⟨rfl, rfl⟩

/-! ### Operations that are cut off -/

/-- The stops of a process that works on a directory. -/
def stopping : Stopping Storage where
  quiet state := state.schedule = []
  after calls state := { state with schedule := crashAt calls 0 }

/-- A call on a table that is cut off. -/
theorem cutOff_onTable {α : Type} {call : Exec TableIo α} {leaves : (String → Option Disk) → Prop}
    (found : state.tableAt name = some table) (samePath : Exec.Preserves TableIo.SamePath call)
    (cutOff : Exec.CutOff TableIo.stopping
      (fun cut => leaves (Function.update state.dir table.store.path (some cut.disk))) call table)
    (missing : Fault) :
    Exec.CutOff stopping (fun cut => leaves cut.dir) (onTable name missing call) state := by
  intro calls
  have ran := @onTable_found state name table α call missing found samePath
  have stopped : (stopping.after calls state).tableAt name = some (TableIo.stopping.after calls table) := by
    obtain ⟨store, lookup, rfl⟩ := tableAt_eq_some.mp found
    exact tableAt_eq_some.mpr ⟨store, lookup, rfl⟩
  have cut := @onTable_found (stopping.after calls state) name _ α call missing stopped samePath
  have kept := samePath (TableIo.stopping.after calls table)
  rw [ran, cut]
  rcases cutOff calls with ⟨rest, went⟩ | ⟨fault, left, failed, holds⟩
  · rw [went]
    exact Or.inl ⟨rest, rfl⟩
  · rw [failed] at kept ⊢
    refine Or.inr ⟨fault, _, rfl, ?_⟩
    change leaves (Function.update state.dir left.store.path (some left.disk))
    rwa [show left.store.path = table.store.path from kept]

/-- Some tables of the database were changed. -/
def Partly (change : TableView → TableView) (names : List String) (db left : Database) : Prop :=
  ∀ name, left name = db name ∨ name ∈ names ∧ left name = (db name).map change

/-- A loop over tables that is cut off. -/
theorem Represents.forEach_cutOff {call : Exec TableIo Unit} {change : TableView → TableView}
    (represents : Represents sizes state db) (samePath : Exec.Preserves TableIo.SamePath call)
    (columns : ∀ view, (change view).columns = view.columns)
    {names : List String} (distinct : names.Nodup) (present : ∀ name ∈ names, (db name).isSome)
    (each : ∀ name ∈ names, ∀ table view, state.tableAt name = some table → db name = some view →
      table.Views (sizes name) view →
      (∀ after, call table = (.ok (), after) → after.Views (sizes name) (change view)) ∧
      Exec.CutOff TableIo.stopping (fun cut =>
        TableIo.Leaves (sizes name) view.columns view.saved cut ∨
          TableIo.Leaves (sizes name) view.columns (change view).saved cut) call table) :
    Exec.CutOff stopping (fun cut => ∃ left, Partly change names db left ∧ Files sizes cut.dir left)
      (Storage.forEach call names) state := by
  induction names generalizing state db with
  | nil => exact Exec.CutOff.pure ()
  | cons name rest inductionHypothesis =>
      obtain ⟨outside, distinct⟩ := List.nodup_cons.mp distinct
      obtain ⟨view, there⟩ := Option.isSome_iff_exists.mp (present name List.mem_cons_self)
      obtain ⟨table, found, path, views⟩ := represents.present there
      obtain ⟨succeeds, cutOff⟩ := each name List.mem_cons_self table view found there views
      have apart (other : String) (member : other ∈ rest) : other ≠ name := by
        rintro rfl
        exact outside member
      have other_update (left : TableView) (other : String) (member : other ∈ rest) :
          db.put name left other = db other := Function.update_of_ne (apart other member) _ _
      unfold Storage.forEach
      refine Exec.CutOff.bind ?_ fun _ middle ran => ?_
      · refine @cutOff_onTable _ _ _ _ _ (fun dir =>
          ∃ left, Partly change (name :: rest) db left ∧ Files sizes dir left) found samePath ?_ .panic
        refine cutOff.mono fun cut leaves => ?_
        rw [path]
        rcases leaves with same | changed
        · exact ⟨db, fun _ => Or.inl rfl, represents.filed.keep there same⟩
        · rw [← columns view] at changed
          refine ⟨_, fun other => ?_, represents.filed.replace (present name List.mem_cons_self) changed⟩
          by_cases own : other = name
          · subst own
            refine Or.inr ⟨List.mem_cons_self, ?_⟩
            rw [there]
            exact Function.update_self _ _ _
          · exact Or.inl (Function.update_of_ne own _ _)
      · have onward := @onTable_found state name table _ call .panic found samePath
        obtain ⟨first, rfl⟩ := Prod.mk.inj (onward.symm.trans ran)
        have changed := succeeds (call table).2 (Prod.ext first rfl)
        have kept := (samePath table).trans path
        have next := represents.put kept changed
        have tables := represents.tableAt_put kept changed.quiet
        refine (inductionHypothesis next distinct (fun other member => ?_) fun other member there seen
          found present => ?_).mono fun cut leaves => ?_
        · rw [other_update _ other member]
          exact present other (List.mem_cons_of_mem _ member)
        · rw [tables, Function.update_of_ne (apart other member)] at found
          rw [other_update _ other member] at present
          exact each other (List.mem_cons_of_mem _ member) _ _ found present
        · obtain ⟨left, partly, files⟩ := leaves
          refine ⟨left, fun other => ?_, files⟩
          rcases partly other with same | ⟨member, changed⟩
          · by_cases own : other = name
            · subst own
              refine Or.inr ⟨List.mem_cons_self, same.trans ?_⟩
              rw [there]
              exact Function.update_self _ _ _
            · exact Or.inl (same.trans (Function.update_of_ne own _ _))
          · rw [other_update _ other member] at changed
            exact Or.inr ⟨List.mem_cons_of_mem _ member, changed⟩

/-- The loop over all tables that is cut off. -/
theorem Represents.forAll_cutOff {call : Exec TableIo Unit} {change : TableView → TableView}
    (represents : Represents sizes state db) (samePath : Exec.Preserves TableIo.SamePath call)
    (columns : ∀ view, (change view).columns = view.columns)
    (each : ∀ name table view, state.tableAt name = some table → table.Views (sizes name) view →
      (∀ after, call table = (.ok (), after) → after.Views (sizes name) (change view)) ∧
      Exec.CutOff TableIo.stopping (fun cut =>
        TableIo.Leaves (sizes name) view.columns view.saved cut ∨
          TableIo.Leaves (sizes name) view.columns (change view).saved cut) call table) :
    Exec.CutOff stopping (fun cut => ∃ left, (∀ name, left name = db name ∨
      left name = (db name).map change) ∧ Files sizes cut.dir left) (Storage.forAll call) state := by
  have distinct : state.visited.Nodup := state.host.nodup_order _
  refine Exec.CutOff.getBind (fun _ => rfl) ?_
  refine (represents.forEach_cutOff samePath columns distinct
    (fun name member => (represents.visited name).mp member)
    fun name _ table view found _ views => each name table view found views).mono fun cut leaves => ?_
  obtain ⟨left, partly, files⟩ := leaves
  exact ⟨left, fun name => (partly name).imp_right And.right, files⟩

end Files

end Storage

/-! ### Databases after a kill -/

/-- A table that shows what is in its file is the same after a rollback. -/
theorem TableView.rollback_same {view : TableView} (idle : view.inTransaction = false)
    (same : view.live = view.saved) : view.rollback = view := by
  cases view
  simp_all [TableView.rollback]

/-- Outside a transaction an inserted row is in the file. -/
theorem TableView.rollback_insert {view : TableView} (outside : view.inTransaction = false) (row : Row) :
    (view.insert row).rollback = view.insert row := by
  unfold TableView.insert
  rw [if_neg (by simp [outside])]
  exact TableView.rollback_same outside rfl

namespace Database

variable {db after : Database} {operation : Operation} {answer : Except Fault Answer}

@[simp] theorem rollback_put (name : String) (view : TableView) :
    (db.put name view).map TableView.rollback = (db.map TableView.rollback).put name view.rollback := by
  funext other
  unfold put map
  by_cases own : other = name
  · subst own
    simp
  · simp [own]

theorem rollback_rollback : (db.map TableView.rollback).map TableView.rollback = db.map TableView.rollback := by
  funext name
  simp only [map, Option.map_map]
  rfl

/-- A table is put in that is the same in the file. -/
theorem rollback_same {name : String} {view left : TableView} (present : db name = some view)
    (same : left.rollback = view.rollback) :
    (db.put name left).map TableView.rollback = db.map TableView.rollback := by
  rw [rollback_put, same]
  refine Function.update_eq_self_iff.mpr ?_
  simp [map, present]

/-- The process is killed when the operation was just over. -/
theorem Step.killed (step : Step db operation answer after)
    (creates : ∀ name columns, operation ≠ .createTable name columns) :
    Killed db operation (after.map TableView.rollback) := by
  cases step with
  | created | taken => exact absurd rfl (creates _ _)
  | inserted present admits =>
      rename_i name view values
      by_cases open_ : view.inTransaction = true
      · have same : (view.insert ⟨values⟩).rollback = view.rollback := by
          rw [TableView.insert, if_pos open_]
          rfl
        rw [rollback_same present same]
        exact .lost _
      · have closed : view.inTransaction = false := by simpa using open_
        rw [rollback_put, TableView.rollback_insert closed]
        exact .inserted present closed admits
  | full present admits many left =>
      rw [rollback_same present (by rcases left with rfl | rfl <;> rfl)]
      exact .lost _
  | begun =>
      have same : (db.map TableView.begin).map TableView.rollback = db.map TableView.rollback := by
        funext name
        simp only [map, Option.map_map]
        rfl
      rw [same]
      exact .lost _
  | busy present open_ left =>
      have same : after.map TableView.rollback = db.map TableView.rollback := by
        funext name
        rcases left name with same | begun
        · simp only [map, same]
        · simp only [map, begun, Option.map_map]
          rfl
      rw [same]
      exact .lost _
  | committed =>
      refine .committed fun name => Or.inr ?_
      simp only [map, Option.map_map]
      rfl
  | rolledBack | dropped =>
      rw [rollback_rollback]
      exact .lost _
  | missing | refused | selected | dumped => exact .lost _

/-- A kill neither loses nor makes a table. -/
theorem Killed.isSome (killed : Killed db operation after) (name : String) :
    (after name).isSome = (db name).isSome := by
  cases killed with
  | lost => simp [map]
  | @inserted table view values present =>
      unfold put
      by_cases own : name = table
      · subst own
        simp [present]
      · simp [Function.update_of_ne own, map]
  | committed left => rcases left name with same | same <;> simp [same]

/-- What is found after a kill is in the files. -/
theorem Killed.rollback (killed : Killed db operation after) : after.map TableView.rollback = after := by
  cases killed with
  | lost => exact rollback_rollback
  | inserted present outside admits =>
      rw [rollback_put, rollback_rollback, TableView.rollback_insert outside]
  | committed left =>
      funext name
      rcases left name with same | same <;>
        simp only [map, same, Option.map_map] <;> rfl

end Database

namespace Storage

variable {sizes : String → Nat → Prop} {state : Storage} {db : Database} {operation : Operation}

/-- A table that is not there. -/
theorem cutOff_missing {α : Type} {call : Exec TableIo α} {leaves : Storage → Prop} {name : String}
    (absent : state.tableAt name = none) (missing : Fault) :
    Exec.CutOff stopping leaves (onTable name missing call) state := by
  intro calls
  have gone : (stopping.after calls state).tableAt name = none := by
    rw [tableAt_eq_none] at absent ⊢
    exact absent
  rw [onTable_missing absent, onTable_missing gone]
  exact Or.inl ⟨calls, rfl⟩

/-- The files that a kill may leave. -/
def MayLeave (sizes : String → Nat → Prop) (db : Database) (operation : Operation) (cut : Storage) :
    Prop :=
  ∃ left, Database.Killed db operation left ∧ Files sizes cut.dir left

/-- A call on one table that leaves its file alone. -/
theorem Represents.onTable_cutOff {α : Type} {call : Exec TableIo α} {name : String}
    (represents : Represents sizes state db) (samePath : Exec.Preserves TableIo.SamePath call)
    (spares : Exec.Spares TableIo.stopping TableIo.Stays call) (missing : Fault) :
    Exec.CutOff stopping (MayLeave sizes db operation) (Storage.onTable name missing call) state := by
  cases present : db name with
  | none => exact cutOff_missing (represents.absent.mpr present) missing
  | some view =>
      obtain ⟨table, found, path, views⟩ := represents.present present
      refine @cutOff_onTable _ _ _ _ _ (fun dir =>
        ∃ left, Database.Killed db operation left ∧ Files sizes dir left) found samePath ?_ missing
      refine (views.cutOff spares).mono fun cut same => ?_
      rw [path]
      exact ⟨_, .lost operation, (represents.filed.keep present same).rollback⟩

/-- A loop over all tables that leaves the files alone. -/
theorem Represents.forAll_spared {call : Exec TableIo Unit} {change : TableView → TableView}
    (represents : Represents sizes state db) (samePath : Exec.Preserves TableIo.SamePath call)
    (spares : Exec.Spares TableIo.stopping TableIo.Stays call)
    (same : ∀ view, (change view).columns = view.columns ∧ (change view).saved = view.saved ∧
      (change view).rollback = view.rollback)
    (succeeds : ∀ name table view after, table.Views (sizes name) view →
      call table = (.ok (), after) → after.Views (sizes name) (change view)) :
    Exec.CutOff stopping (MayLeave sizes db operation) (Storage.forAll call) state := by
  refine (represents.forAll_cutOff samePath (fun view => (same view).1)
    fun name table view found views => ⟨fun after => succeeds name table view after views,
      (views.cutOff spares).mono fun cut => Or.inl⟩).mono fun cut leaves => ?_
  obtain ⟨left, partly, files⟩ := leaves
  have back : left.map TableView.rollback = db.map TableView.rollback := by
    funext name
    rcases partly name with unchanged | changed
    · simp only [Database.map, unchanged]
    · simp only [Database.map, changed, Option.map_map]
      congr 1
      funext view
      exact (same view).2.2
  refine ⟨_, .lost operation, ?_⟩
  rw [← back]
  exact files.rollback

/-- An operation that is cut off leaves what a kill may leave, if the logs were empty. -/
theorem Represents.cutOff (represents : Represents sizes state db)
    (steady : ∀ name, BTree.Steady (sizes name)) (sized : Sized sizes state operation)
    (creates : ∀ name columns, operation ≠ .createTable name columns)
    (empty : ∀ name table, state.tableAt name = some table → table.disk.log = []) :
    Exec.CutOff stopping (MayLeave sizes db operation) operation.closure state := by
  cases operation with
  | createTable name columns => exact absurd rfl (creates name columns)
  | insert name values =>
      refine Exec.CutOff.bind ?_ fun _ _ _ => Exec.CutOff.pure _
      have samePath := TableIo.Safe.samePath (TableIo.insert_safe values)
      cases present : db name with
      | none => exact cutOff_missing (represents.absent.mpr present) _
      | some view =>
          obtain ⟨table, found, path, views⟩ := represents.present present
          have size := sized table.store (tableAt_store found)
          refine @cutOff_onTable _ _ _ _ _ (fun dir =>
            ∃ left, Database.Killed db (.insert name values) left ∧ Files sizes dir left)
            found samePath ?_ _
          refine (views.insert_cutOff (steady name) (fun admits => ?_) (empty name table found)).mono
            fun cut leaves => ?_
          · have accepted := admits_iff.mp admits
            rw [views.columns, ← rowBytes_length accepted.arity accepted.typed] at size
            exact size admits
          · rw [path]
            rcases leaves with same | ⟨closed, admits, added⟩
            · exact ⟨_, .lost _, (represents.filed.keep present same).rollback⟩
            · have schema : (view.insert ⟨values⟩).columns = view.columns := by
                unfold TableView.insert
                split <;> rfl
              rw [← schema] at added
              exact ⟨_, .inserted present closed admits, represents.filed.rollback.replace
                (by simp [Database.map, present]) added⟩
  | selectAll name =>
      refine Exec.CutOff.bind ?_ fun _ _ _ => Exec.CutOff.pure _
      exact represents.onTable_cutOff (TableIo.Safe.samePath TableIo.selectAll_safe)
        TableIo.spares_selectAll _
  | dumpBtree name =>
      refine Exec.CutOff.bind ?_ fun _ _ _ => Exec.CutOff.pure _
      exact represents.onTable_cutOff (TableIo.Safe.samePath TableIo.dumpBtree_safe)
        TableIo.spares_dumpBtree _
  | begin =>
      refine Exec.CutOff.bind ?_ fun _ _ _ => Exec.CutOff.pure _
      refine @Represents.forAll_spared _ _ _ _ _ TableView.begin represents
        (TableIo.Safe.samePath TableIo.begin_safe) TableIo.spares_begin
        (fun _ => ⟨rfl, rfl, rfl⟩) fun name table view after views ran => ?_
      have idle : view.inTransaction = false := by
        by_contra open_
        rw [views.busy (by simpa using open_)] at ran
        cases ran
      obtain ⟨reached, same, next⟩ := views.begin idle
      obtain ⟨-, rfl⟩ := Prod.mk.inj (ran.symm.trans same)
      exact next
  | commit =>
      refine Exec.CutOff.bind ?_ fun _ _ _ => Exec.CutOff.pure _
      refine (@Represents.forAll_cutOff _ _ _ _ TableView.commit represents
        (TableIo.Safe.samePath TableIo.commit_safe) (fun _ => rfl)
        fun name table view found views => ⟨fun after ran => ?_,
          views.commit_cutOff (empty name table found)⟩).mono fun cut leaves => ?_
      · obtain ⟨reached, same, next⟩ := views.commit
        obtain ⟨-, rfl⟩ := Prod.mk.inj (ran.symm.trans same)
        exact next
      · obtain ⟨left, partly, files⟩ := leaves
        refine ⟨_, .committed fun name => ?_, files.rollback⟩
        rcases partly name with unchanged | changed
        · simp only [Database.map, unchanged, true_or]
        · right
          simp only [Database.map, changed, Option.map_map]
          rfl
  | rollback | drop =>
      refine Exec.CutOff.bind ?_ fun _ _ _ => Exec.CutOff.pure _
      refine @Represents.forAll_spared _ _ _ _ _ TableView.rollback represents
        (TableIo.Safe.samePath TableIo.rollback_safe) TableIo.spares_rollback
        (fun _ => ⟨rfl, rfl, rfl⟩) fun name table view after views ran => ?_
      obtain ⟨reached, same, next⟩ := views.rollback
      obtain ⟨-, rfl⟩ := Prod.mk.inj (ran.symm.trans same)
      exact next

/-- As long as the process runs, logs that were empty are empty after every operation. -/
theorem Represents.emptyLogs (represents : Represents sizes state db)
    (empty : Each TableIo.EmptyLog state) (sized : Sized sizes state operation) :
    Each TableIo.EmptyLog (operation.closure state).2 := by
  have loop {call : Exec TableIo Unit} (samePath : Exec.Preserves TableIo.SamePath call)
      (keeps : ∀ name, Keeps TableIo.EmptyLog name call) :
      Each TableIo.EmptyLog (Storage.forAll call state).2 :=
    forAll_keeps (fun name _ each => each.onTable samePath (keeps name) .panic) empty
  cases operation with
  | createTable name columns =>
      unfold Operation.closure
      rw [Exec.bind_pure_state]
      cases present : db name with
      | none =>
          obtain ⟨table, ran, log, next⟩ := represents.createTable present sized.2 sized.1
          obtain ⟨_, -, path, views⟩ := next.found tableAt_put_self
          rw [ran]
          refine empty.put log views.quiet ?_
          rw [path]
          exact represents.unused name
      | some view =>
          have same : (Storage.createTable name columns state).2 = state := by
            obtain ⟨table, found, -⟩ := represents.present present
            unfold Storage.createTable
            rw [Exec.bind_ok (Exec.run_get state), if_pos (by rw [tableAt_store found]; rfl)]
            rfl
          rwa [same]
  | insert name values =>
      unfold Operation.closure
      rw [Exec.bind_pure_state]
      exact empty.onTable (TableIo.Safe.samePath (TableIo.insert_safe values))
        (TableIo.emptyLog_insert values) _
  | selectAll name =>
      unfold Operation.closure
      rw [Exec.bind_pure_state]
      exact empty.onTable (TableIo.Safe.samePath TableIo.selectAll_safe)
        (TableIo.emptyLog_spared TableIo.spares_selectAll) _
  | dumpBtree name =>
      unfold Operation.closure
      rw [Exec.bind_pure_state]
      exact empty.onTable (TableIo.Safe.samePath TableIo.dumpBtree_safe)
        (TableIo.emptyLog_spared TableIo.spares_dumpBtree) _
  | begin =>
      unfold Operation.closure
      rw [Exec.bind_pure_state]
      exact loop (TableIo.Safe.samePath TableIo.begin_safe)
        fun _ => TableIo.emptyLog_spared TableIo.spares_begin
  | commit =>
      unfold Operation.closure
      rw [Exec.bind_pure_state]
      exact loop (TableIo.Safe.samePath TableIo.commit_safe) fun _ => TableIo.emptyLog_commit
  | rollback | drop =>
      unfold Operation.closure
      rw [Exec.bind_pure_state]
      exact loop (TableIo.Safe.samePath TableIo.rollback_safe)
        fun _ => TableIo.emptyLog_spared TableIo.spares_rollback

theorem emptyLogs_new (host : Host) : Each TableIo.EmptyLog (new host (fun _ => none) []) where
  quiet := rfl
  apart := fun name other table there different found => by
    rw [tableAt_eq_none.mpr (Finmap.lookup_empty name)] at found
    cases found
  tables := fun name table found => by
    rw [tableAt_eq_none.mpr (Finmap.lookup_empty name)] at found
    cases found

/-- A process that is killed during an operation, after any number of I/O calls. -/
theorem Represents.killed (represents : Represents sizes state db)
    (steady : ∀ name, BTree.Steady (sizes name)) (sized : Sized sizes state operation)
    (creates : ∀ name columns, operation ≠ .createTable name columns)
    (empty : ∀ name table, state.tableAt name = some table → table.disk.log = []) (calls : Nat) :
    MayLeave sizes db operation (operation.closure (stopping.after calls state)).2 := by
  rcases represents.cutOff steady sized creates empty calls with ⟨rest, went⟩ | ⟨fault, cut, stopped, left⟩
  · obtain ⟨answer, after, left, ran, stepped, next⟩ := represents.step steady sized
    rw [went, ran]
    exact ⟨_, stepped.killed creates, next.filed.rollback⟩
  · rw [stopped]
    exact left

end Storage

end MukhiDb.Model
