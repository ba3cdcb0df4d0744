import MukhiDb.Storage.Lives

/-!
Contract: what a client may rely on that keeps the answers it got.

Owns: the rows of a table that the answers promise, and the rows that were sent; and that in
every life of a server a scan returns the promised rows, and no others than those sent.

Does not own: clients that share a server.
-/

namespace MukhiDb.Model

open MukhiDb.Foundation

/-- The rows of one table as a client knows them: those inserted in the open transaction, those that
are kept, and all that were sent. -/
structure Receipts where
  inTransaction : Bool
  pending : Multiset Row
  kept : Multiset Row
  sent : Multiset Row

namespace Receipts

/-- Nothing happened yet. -/
def blank : Receipts := ⟨false, 0, 0, 0⟩

/-- A row was sent. -/
def send (row : Row) (receipts : Receipts) : Receipts := { receipts with sent := row ::ₘ receipts.sent }

@[simp] theorem kept_send (row : Row) (receipts : Receipts) : (receipts.send row).kept = receipts.kept :=
  rfl

@[simp] theorem pending_send (row : Row) (receipts : Receipts) :
    (receipts.send row).pending = receipts.pending := rfl

@[simp] theorem sent_send (row : Row) (receipts : Receipts) :
    (receipts.send row).sent = row ::ₘ receipts.sent := rfl

/-- A row was inserted. -/
def insert (row : Row) (receipts : Receipts) : Receipts :=
  if receipts.inTransaction then { receipts.send row with pending := row ::ₘ receipts.pending }
  else { receipts.send row with kept := row ::ₘ receipts.kept }

/-- The transaction was committed. -/
def commit (receipts : Receipts) : Receipts :=
  { receipts with inTransaction := false, pending := 0, kept := receipts.kept + receipts.pending }

/-- The transaction was given up. -/
def rollback (receipts : Receipts) : Receipts := { receipts with inTransaction := false, pending := 0 }

@[simp] theorem inTransaction_insert {row : Row} {receipts : Receipts} :
    (receipts.insert row).inTransaction = receipts.inTransaction := by
  unfold insert
  split <;> rfl

/-- One more event. -/
def record (name : String) (receipts : Receipts) : Event → Receipts
  | .ran (.insert table values) answer =>
      if table = name then
        match answer with
        | .ok _ => receipts.insert ⟨values⟩
        | .error _ => receipts.send ⟨values⟩
      else receipts
  | .ran .begin (.ok _) => { receipts with inTransaction := true }
  | .ran .commit (.ok _) => receipts.commit
  | .ran .rollback (.ok _) | .ran .drop (.ok _) => receipts.rollback
  | .ran _ _ => receipts
  | .restarted (some (.insert table values)) =>
      if table = name then (receipts.send ⟨values⟩).rollback else receipts.rollback
  | .restarted _ => receipts.rollback

/-- What the client knows after a list of events. -/
def of (name : String) (events : List Event) : Receipts := events.foldl (record name) blank

/-! ### Tables -/

/-- The table has what is kept in its file and what is promised in memory, and nothing that was not
sent. -/
structure Covers (receipts : Receipts) (view : TableView) : Prop where
  kept : receipts.kept ≤ view.saved.rows
  promised : receipts.kept + receipts.pending ≤ view.live.rows
  savedSent : view.saved.rows ≤ receipts.sent
  liveSent : view.live.rows ≤ receipts.sent

section Covers

variable {receipts : Receipts} {view : TableView} {row : Row}

/-- A table without rows, when nothing is promised. -/
theorem covers_fresh {columns : List Column} (nothing : receipts.kept = 0 ∧ receipts.pending = 0) :
    receipts.Covers (.fresh columns) where
  kept := nothing.1.le
  promised := by simp [nothing, TableView.fresh, Content.empty]
  savedSent := Multiset.zero_le _
  liveSent := Multiset.zero_le _

theorem Covers.begin (covers : receipts.Covers view) : receipts.Covers view.begin :=
  ⟨covers.kept, covers.promised, covers.savedSent, covers.liveSent⟩

theorem Covers.begun (covers : receipts.Covers view) :
    { receipts with inTransaction := true : Receipts }.Covers view :=
  ⟨covers.kept, covers.promised, covers.savedSent, covers.liveSent⟩

theorem Covers.commit (covers : receipts.Covers view) : receipts.commit.Covers view.commit where
  kept := covers.promised
  promised := by simpa [Receipts.commit] using covers.promised
  savedSent := covers.liveSent
  liveSent := covers.liveSent

theorem Covers.rollback (covers : receipts.Covers view) : receipts.rollback.Covers view.rollback where
  kept := covers.kept
  promised := by simpa [Receipts.rollback] using covers.kept
  savedSent := covers.savedSent
  liveSent := covers.savedSent

/-- A commit that was not acknowledged. -/
theorem Covers.unheard_commit (covers : receipts.Covers view) :
    receipts.rollback.Covers view.commit := by
  have kept : receipts.kept ≤ view.live.rows := (Multiset.le_add_right _ _).trans covers.promised
  exact
    { kept := kept
      promised := by simpa [Receipts.rollback] using kept
      savedSent := covers.liveSent
      liveSent := covers.liveSent }

theorem Covers.send (covers : receipts.Covers view) (row : Row) : (receipts.send row).Covers view where
  kept := covers.kept
  promised := covers.promised
  savedSent := covers.savedSent.trans (Multiset.le_cons_self _ _)
  liveSent := covers.liveSent.trans (Multiset.le_cons_self _ _)

/-- Outside a transaction of the client the row is in the file. -/
theorem Covers.insert (covers : receipts.Covers view) (row : Row)
    (idle : receipts.inTransaction = false → view.inTransaction = false) :
    (receipts.insert row).Covers (view.insert row) := by
  have sent : row ::ₘ view.live.rows ≤ row ::ₘ receipts.sent :=
    (Multiset.cons_le_cons_iff row).mpr covers.liveSent
  have kept : receipts.kept ≤ view.live.rows := (Multiset.le_add_right _ _).trans covers.promised
  have more := (Multiset.cons_le_cons_iff row).mpr covers.promised
  unfold Receipts.insert
  by_cases begun : receipts.inTransaction = true
  · rw [if_pos begun]
    refine ⟨?_, ?_, ?_, ?_⟩
    · rw [TableView.saved_insert]
      split
      · exact covers.kept
      · rw [TableView.rows_insert]
        exact kept.trans (Multiset.le_cons_self _ _)
    · simpa using more
    · rw [TableView.saved_insert]
      split
      · exact covers.savedSent.trans (Multiset.le_cons_self _ _)
      · simpa using sent
    · simpa using sent
  · have saved : (view.insert row).saved = (view.insert row).live := by
      rw [TableView.saved_insert, idle (by simpa using begun), if_neg (by simp)]
    rw [if_neg begun]
    refine ⟨?_, ?_, ?_, ?_⟩
    · rw [saved, TableView.rows_insert]
      exact (Multiset.cons_le_cons_iff row).mpr kept
    · simpa using more
    · rw [saved]
      simpa using sent
    · simpa using sent

/-- A row that was inserted in part. -/
theorem Covers.addStopped (covers : receipts.Covers view) (row : Row) :
    (receipts.send row).Covers (view.addStopped row) where
  kept := covers.kept
  promised := covers.promised.trans (Multiset.le_cons_self _ _)
  savedSent := covers.savedSent.trans (Multiset.le_cons_self _ _)
  liveSent := (Multiset.cons_le_cons_iff row).mpr covers.liveSent

/-- An insertion that was not acknowledged. -/
theorem Covers.unheard_insert (covers : receipts.Covers view) (row : Row)
    (outside : view.inTransaction = false) : (receipts.send row).rollback.Covers (view.insert row) := by
  have saved : (view.insert row).saved = (view.insert row).live := by
    rw [TableView.saved_insert, outside, if_neg (by simp)]
  have kept : receipts.kept ≤ row ::ₘ view.live.rows :=
    ((Multiset.le_add_right _ _).trans covers.promised).trans (Multiset.le_cons_self _ _)
  have sent := covers.liveSent
  refine ⟨?_, ?_, ?_, ?_⟩ <;>
    simpa [saved, Receipts.rollback]

end Covers

/-! ### Databases -/

/-- What the client knows about a table agrees with the database. -/
structure Agrees (name : String) (receipts : Receipts) (db : Database) : Prop where
  idle : receipts.inTransaction = false → ∀ other view, db other = some view →
    view.inTransaction = false
  absent : db name = none → receipts.kept = 0 ∧ receipts.pending = 0
  covers : ∀ view, db name = some view → receipts.Covers view

section Agrees

variable {name : String} {receipts : Receipts} {db after : Database}

theorem agrees_empty (name : String) : Agrees name blank .empty where
  idle := fun _ _ _ present => by cases present
  absent := fun _ => ⟨rfl, rfl⟩
  covers := fun _ present => by cases present

/-- One table is put in. -/
theorem Agrees.put {table : String} {view : TableView} {next : Receipts} (agrees : Agrees name receipts db)
    (same : next.inTransaction = receipts.inTransaction)
    (idle : receipts.inTransaction = false → view.inTransaction = false)
    (own : table = name → next.Covers view) (others : table ≠ name → next = receipts) :
    Agrees name next (db.put table view) := by
  have elsewhere {other : String} (different : other ≠ table) : db.put table view other = db other :=
    Function.update_of_ne different _ _
  have there : db.put table view table = some view := Function.update_self _ _ _
  refine ⟨fun closed other shown present => ?_, fun absent => ?_, fun shown present => ?_⟩
  · rw [same] at closed
    by_cases at_ : other = table
    · subst at_
      rw [there, Option.some.injEq] at present
      rw [← present]
      exact idle closed
    · rw [elsewhere at_] at present
      exact agrees.idle closed other shown present
  · by_cases at_ : table = name
    · rw [← at_, there] at absent
      cases absent
    · rw [elsewhere (Ne.symm at_)] at absent
      rw [others at_]
      exact agrees.absent absent
  · by_cases at_ : table = name
    · rw [← at_, there, Option.some.injEq] at present
      rw [← present]
      exact own at_
    · rw [elsewhere (Ne.symm at_)] at present
      rw [others at_]
      exact agrees.covers shown present

/-- A transaction ends, in every table with or without its rows. -/
theorem Agrees.ended {next : Receipts} (agrees : Agrees name receipts db)
    (left : ∀ other view, after other = some view → view.inTransaction = false)
    (absent : after name = none → db name = none)
    (empty : receipts.kept = 0 ∧ receipts.pending = 0 → next.kept = 0 ∧ next.pending = 0)
    (covers : ∀ view, after name = some view → next.Covers view) : Agrees name next after where
  idle := fun _ => left
  absent := fun none => empty (agrees.absent (absent none))
  covers := covers

theorem Agrees.rollback (agrees : Agrees name receipts db) :
    Agrees name receipts.rollback (db.map TableView.rollback) := by
  refine agrees.ended (fun other view present => ?_) (by simp [Database.map])
    (fun empty => ⟨empty.1, rfl⟩) fun view present => ?_
  all_goals
    obtain ⟨before, there, rfl⟩ := Option.map_eq_some_iff.mp present
  · rfl
  · exact (agrees.covers before there).rollback

theorem Agrees.send (agrees : Agrees name receipts db) (row : Row) : Agrees name (receipts.send row) db where
  idle := agrees.idle
  absent := agrees.absent
  covers := fun view present => (agrees.covers view present).send row

/-- An insertion that is refused. -/
theorem Agrees.refused {table : String} {values : List Value} {fault : Fault}
    (agrees : Agrees name receipts db) :
    Agrees name (receipts.record name (.ran (.insert table values) (.error fault))) db := by
  simp only [record]
  split
  · exact agrees.send ⟨values⟩
  · exact agrees

theorem Agrees.begin (agrees : Agrees name receipts db) :
    Agrees name { receipts with inTransaction := true } (db.map TableView.begin) where
  idle := fun closed => by cases closed
  absent := fun none => agrees.absent (by simpa [Database.map] using none)
  covers := by
    intro view present
    obtain ⟨before, there, rfl⟩ := Option.map_eq_some_iff.mp present
    exact (agrees.covers before there).begun.begin

theorem Agrees.commit (agrees : Agrees name receipts db) :
    Agrees name receipts.commit (db.map TableView.commit) := by
  refine agrees.ended (fun other view present => ?_) (by simp [Database.map])
    (fun empty => ?_) fun view present => ?_
  · obtain ⟨before, there, rfl⟩ := Option.map_eq_some_iff.mp present
    rfl
  · simp [Receipts.commit, empty]
  · obtain ⟨before, there, rfl⟩ := Option.map_eq_some_iff.mp present
    exact (agrees.covers before there).commit

/-- Every operation that gives an answer. -/
theorem Agrees.step {operation : Operation} {answer : Except Fault Answer} (agrees : Agrees name receipts db)
    (step : Database.Step db operation answer after) :
    Agrees name (receipts.record name (.ran operation answer)) after := by
  cases step with
  | @created table columns absent =>
      refine agrees.put rfl (fun _ => rfl) (fun own => ?_) fun _ => rfl
      rw [own] at absent
      exact covers_fresh (agrees.absent absent)
  | @missing operation table about absent =>
      cases operation with
      | insert => exact agrees.refused
      | selectAll | dumpBtree => exact agrees
      | _ => cases about
  | @inserted table view values present admits =>
      have idle (closed : receipts.inTransaction = false) : view.inTransaction = false :=
        agrees.idle closed table view present
      simp only [record]
      refine agrees.put ?_ (fun closed => ?_) (fun own => ?_) fun other => if_neg other
      · split
        · exact inTransaction_insert
        · rfl
      · rw [TableView.inTransaction_insert]
        exact idle closed
      · rw [if_pos own]
        rw [own] at present
        exact (agrees.covers view present).insert ⟨values⟩ idle
  | refused => exact agrees.refused
  | @full table view left values present admits many ways =>
      simp only [record]
      refine agrees.put ?_ (fun closed => ?_) (fun own => ?_) fun other => if_neg other
      · split <;> rfl
      · have idle := agrees.idle closed table view present
        rcases ways with rfl | rfl
        · exact idle
        · exact idle
      · rw [if_pos own]
        rw [own] at present
        have covers := agrees.covers view present
        rcases ways with rfl | rfl
        · exact covers.send ⟨values⟩
        · exact covers.addStopped ⟨values⟩
  | @busy left table view present open_ ways =>
      refine ⟨fun closed => ?_, fun absent => ?_, fun shown there => ?_⟩
      · rw [agrees.idle closed table view present] at open_
        cases open_
      · apply agrees.absent
        rcases ways name with same | begun
        · rwa [same] at absent
        · rw [begun] at absent
          simpa using absent
      · rcases ways name with same | begun
        · rw [same] at there
          exact agrees.covers shown there
        · rw [begun] at there
          obtain ⟨before, present, rfl⟩ := Option.map_eq_some_iff.mp there
          exact (agrees.covers before present).begin
  | begun => exact agrees.begin
  | committed => exact agrees.commit
  | rolledBack | dropped => exact agrees.rollback
  | taken | selected | dumped => exact agrees

/-- A kill. -/
theorem Agrees.killed {operation : Operation} (agrees : Agrees name receipts db)
    (killed : Database.Killed db operation after) :
    Agrees name (receipts.record name (.restarted (some operation))) after := by
  cases killed with
  | lost =>
      cases operation with
      | insert table values =>
          simp only [record]
          split
          · exact (agrees.send ⟨values⟩).rollback
          · exact agrees.rollback
      | _ => exact agrees.rollback
  | @inserted table view values present outside admits =>
      simp only [record]
      have closed : receipts.rollback.inTransaction = false := rfl
      refine agrees.rollback.put ?_ (fun _ => ?_) (fun own => ?_) fun other => if_neg other
      · split <;> rfl
      · rw [TableView.inTransaction_insert, outside]
      · rw [if_pos own]
        rw [own] at present
        exact (agrees.covers view present).unheard_insert ⟨values⟩ outside
  | committed left =>
      refine agrees.ended (fun other view present => ?_) (fun absent => ?_) (fun empty => ⟨empty.1, rfl⟩)
        fun view present => ?_
      · rcases left other with same | same
        all_goals
          rw [same] at present
          obtain ⟨before, there, rfl⟩ := Option.map_eq_some_iff.mp present
          rfl
      · rcases left name with same | same
        all_goals
          rw [same] at absent
          simpa using absent
      · rcases left name with same | same
        · rw [same] at present
          obtain ⟨before, there, rfl⟩ := Option.map_eq_some_iff.mp present
          exact (agrees.covers before there).rollback
        · rw [same] at present
          obtain ⟨before, there, rfl⟩ := Option.map_eq_some_iff.mp present
          exact (agrees.covers before there).unheard_commit

theorem Agrees.lives {event : Event} (agrees : Agrees name receipts db)
    (lives : Database.Lives db event after) : Agrees name (receipts.record name event) after := by
  cases lives with
  | ran step => exact agrees.step step
  | stopped => exact agrees.rollback
  | killed killed => exact agrees.killed killed

end Agrees

/-! ### Exact receipts -/

/-- Nothing happens that leaves the client in doubt: no kill, no insert that is stopped half way, and
no table created in a transaction, whose rows a rollback does not take back. -/
def Plain (receipts : Receipts) : Event → Prop
  | .ran (.insert _ _) (.error fault) => fault ≠ .error (Pager.pageLimitMessage maxPages)
  | .ran (.createTable _ _) (.ok _) => receipts.inTransaction = false
  | .ran _ _ | .restarted none => True
  | .restarted (some _) => False

/-- Every event of the list is so after the ones before it. -/
def PlainAll (name : String) (events : List Event) : Prop := RecordedGood (record name) blank Plain events

/-- The client knows the rows of the table. -/
structure Knows (name : String) (receipts : Receipts) (db : Database) : Prop where
  flags : ∀ other view, db other = some view → view.inTransaction = receipts.inTransaction
  absent : db name = none → receipts.kept = 0 ∧ receipts.pending = 0
  saved : ∀ view, db name = some view → view.saved.rows = receipts.kept
  live : ∀ view, db name = some view → view.live.rows = receipts.kept + receipts.pending
  nothing : receipts.inTransaction = false → receipts.pending = 0

section Knows

variable {name : String} {receipts : Receipts} {db after : Database}

theorem knows_empty (name : String) : Knows name blank .empty where
  flags := fun _ _ present => by cases present
  absent := fun _ => ⟨rfl, rfl⟩
  saved := fun _ present => by cases present
  live := fun _ present => by cases present
  nothing := fun _ => rfl

/-- One table is put in. -/
theorem Knows.put {table : String} {view : TableView} {next : Receipts} (knows : Knows name receipts db)
    (same : next.inTransaction = receipts.inTransaction) (flag : view.inTransaction = receipts.inTransaction)
    (own : table = name → view.saved.rows = next.kept ∧ view.live.rows = next.kept + next.pending)
    (others : table ≠ name → next = receipts) (nothing : next.inTransaction = false → next.pending = 0) :
    Knows name next (db.put table view) := by
  have elsewhere {other : String} (different : other ≠ table) : db.put table view other = db other :=
    Function.update_of_ne different _ _
  have there : db.put table view table = some view := Function.update_self _ _ _
  have mine (at_ : table = name) (shown : TableView) (present : db.put table view name = some shown) :
      view = shown := by
    rwa [← at_, there, Option.some.injEq] at present
  have other (at_ : table ≠ name) (shown : TableView) (present : db.put table view name = some shown) :
      db name = some shown := by
    rwa [elsewhere (Ne.symm at_)] at present
  refine ⟨fun other shown present => ?_, fun absent => ?_, fun shown present => ?_,
    fun shown present => ?_, nothing⟩
  · rw [same]
    by_cases at_ : other = table
    · subst at_
      rw [there, Option.some.injEq] at present
      rwa [← present]
    · rw [elsewhere at_] at present
      exact knows.flags other shown present
  · by_cases at_ : table = name
    · rw [← at_, there] at absent
      cases absent
    · rw [elsewhere (Ne.symm at_)] at absent
      rw [others at_]
      exact knows.absent absent
  · by_cases at_ : table = name
    · rw [← mine at_ shown present]
      exact (own at_).1
    · rw [others at_]
      exact knows.saved shown (other at_ shown present)
  · by_cases at_ : table = name
    · rw [← mine at_ shown present]
      exact (own at_).2
    · rw [others at_]
      exact knows.live shown (other at_ shown present)

/-- All tables are changed in the same way. -/
theorem Knows.map {change : TableView → TableView} {next : Receipts} (knows : Knows name receipts db)
    (flags : ∀ view, view.inTransaction = receipts.inTransaction →
      (change view).inTransaction = next.inTransaction)
    (absent : receipts.kept = 0 ∧ receipts.pending = 0 → next.kept = 0 ∧ next.pending = 0)
    (rows : ∀ view, view.saved.rows = receipts.kept →
      view.live.rows = receipts.kept + receipts.pending →
      (change view).saved.rows = next.kept ∧ (change view).live.rows = next.kept + next.pending)
    (nothing : next.inTransaction = false → next.pending = 0) : Knows name next (db.map change) := by
  refine ⟨fun other shown present => ?_, fun none => ?_, fun shown present => ?_,
    fun shown present => ?_, nothing⟩
  · obtain ⟨before, there, rfl⟩ := Option.map_eq_some_iff.mp present
    exact flags before (knows.flags other before there)
  · exact absent (knows.absent (by simpa [Database.map] using none))
  · obtain ⟨before, there, rfl⟩ := Option.map_eq_some_iff.mp present
    exact (rows before (knows.saved before there) (knows.live before there)).1
  · obtain ⟨before, there, rfl⟩ := Option.map_eq_some_iff.mp present
    exact (rows before (knows.saved before there) (knows.live before there)).2

theorem Knows.rollback (knows : Knows name receipts db) :
    Knows name receipts.rollback (db.map TableView.rollback) := by
  refine knows.map (fun _ _ => rfl) (fun empty => ⟨empty.1, rfl⟩) (fun view saved _ => ?_) fun _ => rfl
  exact ⟨saved, by simpa [Receipts.rollback] using saved⟩

theorem Knows.commit (knows : Knows name receipts db) :
    Knows name receipts.commit (db.map TableView.commit) := by
  refine knows.map (fun _ _ => rfl) (fun empty => ?_) (fun view _ live => ?_) fun _ => rfl
  · simp [Receipts.commit, empty]
  · exact ⟨live, by simpa [Receipts.commit] using live⟩

theorem Knows.send (knows : Knows name receipts db) (row : Row) : Knows name (receipts.send row) db where
  flags := knows.flags
  absent := knows.absent
  saved := knows.saved
  live := knows.live
  nothing := knows.nothing

theorem Knows.refused {table : String} {values : List Value} {fault : Fault}
    (knows : Knows name receipts db) :
    Knows name (receipts.record name (.ran (.insert table values) (.error fault))) db := by
  simp only [record]
  split
  · exact knows.send ⟨values⟩
  · exact knows

/-- The row of an insert that succeeds. -/
theorem Knows.inserted {table : String} {view : TableView} {values : List Value}
    (knows : Knows name receipts db) (present : db table = some view) (answer : Answer) :
    Knows name (receipts.record name (.ran (.insert table values) (.ok answer)))
      (db.put table (view.insert ⟨values⟩)) := by
  have flag := knows.flags table view present
  have nothing := knows.nothing
  simp only [record]
  refine knows.put ?_ ?_ (fun own => ?_) (fun other => if_neg other) fun closed => ?_
  · split
    · exact inTransaction_insert
    · rfl
  · rw [TableView.inTransaction_insert, flag]
  · rw [own] at present
    have saved := knows.saved view present
    have live := knows.live view present
    rw [if_pos own, TableView.saved_insert, flag]
    unfold Receipts.insert
    by_cases begun : receipts.inTransaction = true
    · simp [begun, saved, live]
    · have closed : receipts.inTransaction = false := by simpa using begun
      simp [closed, live, nothing closed]
  · by_cases own : table = name
    · rw [if_pos own, inTransaction_insert] at closed
      rw [if_pos own]
      unfold Receipts.insert
      simp [closed, nothing closed]
    · rw [if_neg own] at closed ⊢
      exact nothing closed

theorem Knows.begin (knows : Knows name receipts db) :
    Knows name { receipts with inTransaction := true } (db.map TableView.begin) :=
  knows.map (fun _ _ => rfl) (fun empty => empty) (fun _ saved live => ⟨saved, live⟩)
    fun closed => by cases closed

/-- A begin that is refused, since all tables are in a transaction. -/
theorem Knows.busy {table : String} {view : TableView} (knows : Knows name receipts db)
    (present : db table = some view) (open_ : view.inTransaction = true)
    (left : ∀ other, after other = db other ∨ after other = (db other).map TableView.begin) :
    after = db := by
  have begun := (knows.flags table view present).symm.trans open_
  funext other
  rcases left other with same | again
  · exact same
  · rw [again]
    cases there : db other with
    | none => rfl
    | some shown =>
        have flag := (knows.flags other shown there).trans begun
        cases shown
        simp_all [TableView.begin]

/-- Every operation that leaves the client in no doubt. -/
theorem Knows.step {operation : Operation} {answer : Except Fault Answer} (knows : Knows name receipts db)
    (plain : receipts.Plain (.ran operation answer)) (step : Database.Step db operation answer after) :
    Knows name (receipts.record name (.ran operation answer)) after := by
  cases step with
  | @created table columns absent =>
      refine knows.put rfl plain.symm (fun own => ?_) (fun _ => rfl) knows.nothing
      rw [own] at absent
      obtain ⟨kept, pending⟩ := knows.absent absent
      simp [record, kept, pending, TableView.fresh, Content.empty]
  | @missing operation table about absent =>
      cases operation with
      | insert => exact knows.refused
      | selectAll | dumpBtree => exact knows
      | _ => cases about
  | inserted present => exact knows.inserted present .done
  | refused => exact knows.refused
  | full => exact absurd rfl plain
  | busy present open_ left =>
      rw [knows.busy present open_ left]
      exact knows
  | begun => exact knows.begin
  | committed => exact knows.commit
  | rolledBack | dropped => exact knows.rollback
  | taken | selected | dumped => exact knows

theorem Knows.lives {event : Event} (knows : Knows name receipts db) (plain : receipts.Plain event)
    (lives : Database.Lives db event after) : Knows name (receipts.record name event) after := by
  cases lives with
  | ran step => exact knows.step plain step
  | stopped => exact knows.rollback
  | killed => exact plain.elim

end Knows

end Receipts

/-! ### Servers -/

namespace Storage

variable {sizes : String → Nat → Prop} {state : Storage}

/-- In every life of a server a scan of a table returns every row that the answers promised, as often
as they did, and no row that was not sent, nor any more often. If there is no table, no row was
promised. -/
theorem lives_keep {host : Host} (steady : ∀ name, BTree.Steady (sizes name))
    {events : List Event} (lived : Reaches (Lived sizes) (new host (fun _ => none) []) events state)
    (name : String) :
    ∃ after, ((Operation.selectAll name).closure state = (.error (notFound name), after) ∧
        (Receipts.of name events).kept = 0 ∧ (Receipts.of name events).pending = 0) ∨
      ∃ headers rows, (Operation.selectAll name).closure state = (.ok (.rows headers rows), after) ∧
        (Receipts.of name events).kept + (Receipts.of name events).pending ≤ rows ∧
        (rows : Multiset Row) ≤ (Receipts.of name events).sent := by
  obtain ⟨db, ran, represents, -⟩ := lives_represent steady lived
  have agrees : Receipts.Agrees name (Receipts.of name events) db := by
    refine Reaches.recorded (Receipts.agrees_empty name) ?_ ran
    exact fun _ _ _ _ agrees lives => agrees.lives lives
  obtain ⟨answer, after, left, closure, step, -⟩ :=
    @Represents.step _ _ _ (.selectAll name) represents steady trivial
  refine ⟨after, ?_⟩
  rw [closure]
  cases step with
  | missing about absent =>
      obtain rfl := Option.some.inj about
      exact Or.inl ⟨rfl, agrees.absent absent⟩
  | selected present scan =>
      have covers := agrees.covers _ present
      refine Or.inr ⟨_, _, rfl, ?_, ?_⟩
      · rw [scan.1]
        exact covers.promised
      · rw [scan.1]
        exact covers.liveSent

/-- The row that was acknowledged before the kill is there. Of the other one nothing is known. -/
theorem lives_keep_number :
    ∃ state after headers rows, Reaches (Lived numbers)
        (new (Host.startingWith "t") (fun _ => none) [])
        (numberEvents ++ [.restarted (some (.insert "t" [.integer 8]))]) state ∧
      (Operation.selectAll "t").closure state = (.ok (.rows headers rows), after) ∧
      {⟨[.integer 7]⟩} ≤ (rows : Multiset Row) ∧
      (rows : Multiset Row) ≤ {⟨[.integer 8]⟩, ⟨[.integer 7]⟩} := by
  have receipts : Receipts.of "t" (numberEvents ++ [.restarted (some (.insert "t" [.integer 8]))]) =
      ⟨false, 0, {⟨[.integer 7]⟩}, {⟨[.integer 8]⟩, ⟨[.integer 7]⟩}⟩ := by
    simp [Receipts.of, numberEvents, Receipts.record, Receipts.insert, Receipts.send,
      Receipts.rollback, Receipts.blank]
  obtain ⟨state, lived⟩ := lived_killed keepsName_number 0
  obtain ⟨after, ⟨-, nothing, -⟩ | ⟨headers, rows, scanned, promised, sent⟩⟩ :=
    lives_keep steady_numbers lived "t"
  · rw [receipts] at nothing
    simp at nothing
  · rw [receipts] at promised sent
    exact ⟨state, after, headers, rows, lived, scanned, promised, sent⟩

/-- As long as the client is in no doubt, a scan of a table returns exactly the rows of the inserts
that were acknowledged and not rolled back. -/
theorem lives_exact {host : Host} (steady : ∀ name, BTree.Steady (sizes name))
    {events : List Event} (lived : Reaches (Lived sizes) (new host (fun _ => none) []) events state)
    {name : String} (plain : Receipts.PlainAll name events) {headers : List String} {rows : List Row}
    {after : Storage} (scanned : (Operation.selectAll name).closure state = (.ok (.rows headers rows), after)) :
    (rows : Multiset Row) = (Receipts.of name events).kept + (Receipts.of name events).pending := by
  obtain ⟨db, ran, represents, -⟩ := lives_represent steady lived
  have knows : Receipts.Knows name (Receipts.of name events) db := by
    refine Reaches.recorded_good (Receipts.knows_empty name) ?_ ran plain
    exact fun _ _ _ _ knows good lives => knows.lives good lives
  obtain ⟨view, present, scan⟩ := represents.scanned steady scanned
  rw [scan.1, knows.live view present]

theorem plain_restarted : Receipts.PlainAll "t" (numberEvents ++ [.restarted none]) :=
  recordedGood_cons rfl (recordedGood_cons trivial (recordedGood_cons trivial (recordedGood_nil _ _ _)))

/-- After a restart the table has its row. -/
theorem lives_exact_number :
    ∃ state after headers rows, Reaches (Lived numbers)
        (new (Host.startingWith "t") (fun _ => none) []) (numberEvents ++ [.restarted none]) state ∧
      (Operation.selectAll "t").closure state = (.ok (.rows headers rows), after) ∧
      (rows : Multiset Row) = {⟨[.integer 7]⟩} := by
  obtain ⟨state, db, lived, represents, present⟩ := lived_restarted keepsName_number
  obtain ⟨headers, rows, after, scanned⟩ := represents.scans present
  have receipts : (Receipts.of "t" (numberEvents ++ [.restarted none])).kept +
      (Receipts.of "t" (numberEvents ++ [.restarted none])).pending = {⟨[.integer 7]⟩} := by
    simp [Receipts.of, numberEvents, Receipts.record, Receipts.insert, Receipts.send,
      Receipts.rollback, Receipts.blank]
  have found := lives_exact steady_numbers lived plain_restarted scanned
  exact ⟨state, after, headers, rows, lived, scanned, found.trans receipts⟩

end Storage

end MukhiDb.Model
