import Mathlib.Algebra.BigOperators.Group.Finset.Basic
import Mathlib.Algebra.Order.BigOperators.Group.Multiset
import MukhiDb.Model.Service
import MukhiDb.Session.Serial

/-!
Contract: the answers of sessions that share a storage, session by session.

Owns: the operations that are answered in a section, with those that a session refuses before it takes
any lock; the database with one transaction at a time, where such a refusal is an answer; and that what
each session may rely on by its own answers adds up to no more than what is in the database.

Does not own: messages.
-/

namespace MukhiDb.Model

open MukhiDb.Foundation

namespace Session

variable {session : Session} {operation : Operation}

theorem start_refused {message : String} (refused : operation.refusal session.inTransaction = some message) :
    session.start operation = session.returns (.error (.error message)) := by
  cases flag : session.inTransaction <;> cases operation <;>
    simp_all [Operation.refusal, Session.start]

/-- An operation that is not refused starts at the gate, or at the lock of the storage. -/
theorem start_accepted (accepted : operation.refusal session.inTransaction = none)
    (called : operation ≠ .drop) :
    session.start operation = session.at_ (.gate operation) ∨
      session.start operation = session.at_ (.locking operation) := by
  cases flag : session.inTransaction <;> cases operation <;>
    simp_all [Operation.refusal, Session.start]

end Session

/-! ### Answers -/

/-- A session refuses an operation that does not fit its transaction. -/
def Refused (owner : Option Nat) (entry : Entry) : Prop :=
  ∃ message, entry.operation.refusal (decide (owner = some entry.session)) = some message ∧
    entry.answer = .error (.error message)

/-- An operation is answered: it takes effect, or is refused. -/
def Answered (state : Database × Option Nat) (entry : Entry) (after : Database × Option Nat) : Prop :=
  Serial state entry after ∨ Refused state.2 entry ∧ after = state

namespace System

variable {sizes : String → Nat → Prop} {system after : System}

/-- The operations that are refused in a section. -/
def refuses (system : System) (label : Nat × Action) : List Entry :=
  match label.2 with
  | .start operation =>
      match operation.refusal (system.sessions label.1).inTransaction with
      | some message => [⟨label.1, operation, .error (.error message)⟩]
      | none => []
  | _ => []

/-- The operations that are answered in a section. -/
def tells (system : System) (label : Nat × Action) : List Entry := system.shows label ++ system.refuses label

/-- Every section of a run in which claims are clear. -/
theorem InTurn.told {db : Database} {owner : Option Nat} {label : Nat × Action}
    (inTurn : InTurn sizes system db owner) (steady : ∀ name, BTree.Steady (sizes name))
    (clear : system.ClaimsClear label) (fitting : system.Fitting sizes label) (ran : Step system label after) :
    ∃ left next, Reaches Answered (db, owner) (system.tells label) (left, next) ∧
      InTurn sizes after left next := by
  obtain ⟨left, next, serial, kept⟩ := inTurn.step steady ⟨label, clear, fitting, rfl, ran⟩
  refine ⟨left, next, ?_, kept⟩
  have shown : Reaches Answered (db, owner) (system.shows label) (left, next) := by
    have image := @Reaches.image _ _ _ _ Serial Answered (db, owner) id id
      (fun _ _ _ taken => Or.inl taken) _ _ serial
    rwa [List.map_id] at image
  unfold tells refuses
  split
  · next operation starts =>
      -- starting an operation shows nothing
      obtain ⟨id, action⟩ := label
      obtain rfl : action = .start operation := starts
      have same : (left, next) = (db, owner) := by
        generalize none : system.shows (id, .start operation) = entries at serial
        cases serial with
        | refl => rfl
        | next => exact absurd none (by simp [shows])
      cases same
      split
      · next message refused =>
          have flag : decide (owner = some id) = (system.sessions id).inTransaction := by
            rw [Bool.eq_iff_iff, decide_eq_true_iff, inTurn.flags id]
          have refusal : Refused owner ⟨id, operation, .error (.error message)⟩ :=
            ⟨message, flag ▸ refused, rfl⟩
          exact shown.next (Or.inr ⟨refusal, rfl⟩)
      · rwa [List.append_nil]
  · rwa [List.append_nil]

end System

/-! ### Receipts of each session -/

/-- The answer as an event. -/
def Entry.event (entry : Entry) : Event := .ran entry.operation entry.answer

namespace Receipts

/-- What a session knows by its own answers. -/
def each (name : String) (entries : List Entry) (id : Nat) : Receipts :=
  Receipts.of name ((entries.filter fun entry => entry.session = id).map Entry.event)

variable {name : String} {entries : List Entry} {entry : Entry} {owner : Option Nat} {id : Nat}

theorem of_concat (name : String) (events : List Event) (event : Event) :
    of name (events ++ [event]) = (of name events).record name event := by
  simp [of]

theorem each_own (name : String) (entries : List Entry) (entry : Entry) :
    each name (entries ++ [entry]) entry.session = (each name entries entry.session).record name entry.event := by
  simp [each, of]

theorem each_other (apart : id ≠ entry.session) :
    each name (entries ++ [entry]) id = each name entries id := by
  simp [each, Ne.symm apart]

/-- A refusal changes nothing. -/
theorem record_refused (refused : Refused owner entry) (receipts : Receipts) :
    receipts.record name entry.event = receipts := by
  obtain ⟨message, refusal, answer⟩ := refused
  obtain ⟨session, operation, _⟩ := entry
  cases operation <;> simp_all [Operation.refusal, Entry.event, record]

/-- The rows that sessions may rely on. -/
structure Shares (name : String) (entries : List Entry) (owner : Option Nat) : Prop where
  flags : ∀ id, (each name entries id).inTransaction = decide (owner = some id)
  whole : (of name (entries.map Entry.event)).inTransaction = owner.isSome
  pending : ∀ id, (each name entries id).pending ≤
    if owner = some id then (of name (entries.map Entry.event)).pending else 0
  kept : ∀ clients : Finset Nat,
    ∑ id ∈ clients, (each name entries id).kept ≤ (of name (entries.map Entry.event)).kept

/-- A sum in which one part grows. -/
theorem sum_grows {before after : Nat → Multiset Row} (who : Nat) {extra more total : Multiset Row}
    (others : ∀ id, id ≠ who → after id = before id) (own : after who = extra + before who)
    (within : extra ≤ more) (bounded : ∀ clients : Finset Nat, ∑ id ∈ clients, before id ≤ total)
    (clients : Finset Nat) : ∑ id ∈ clients, after id ≤ more + total := by
  by_cases member : who ∈ clients
  · have rest : ∑ id ∈ clients.erase who, after id = ∑ id ∈ clients.erase who, before id :=
      Finset.sum_congr rfl fun id inside => others id (Finset.ne_of_mem_erase inside)
    rw [← Finset.add_sum_erase _ _ member, rest, own, add_assoc, Finset.add_sum_erase _ _ member]
    exact add_le_add within (bounded clients)
  · have same : ∑ id ∈ clients, after id = ∑ id ∈ clients, before id :=
      Finset.sum_congr rfl fun id inside => others id fun here => member (here ▸ inside)
    rw [same]
    exact (bounded clients).trans (Multiset.le_add_left _ _)

section Shares

variable {next : Option Nat} {extra more : Multiset Row}

/-- One answer more: what its session keeps grows by no more than what all keep. -/
theorem Shares.grow (shares : Shares name entries owner)
    (flag : ((each name entries entry.session).record name entry.event).inTransaction =
      decide (next = some entry.session))
    (flags : ∀ id, id ≠ entry.session → (owner = some id ↔ next = some id))
    (whole : ((of name (entries.map Entry.event)).record name entry.event).inTransaction = next.isSome)
    (pending : ((each name entries entry.session).record name entry.event).pending ≤
      if next = some entry.session then
        ((of name (entries.map Entry.event)).record name entry.event).pending
      else 0)
    (pendings : ∀ id, id ≠ entry.session → owner = some id → (of name (entries.map Entry.event)).pending ≤
      ((of name (entries.map Entry.event)).record name entry.event).pending)
    (own : ((each name entries entry.session).record name entry.event).kept =
      extra + (each name entries entry.session).kept)
    (all : ((of name (entries.map Entry.event)).record name entry.event).kept =
      more + (of name (entries.map Entry.event)).kept)
    (within : extra ≤ more) : Shares name (entries ++ [entry]) next where
  flags := fun id => by
    by_cases same : id = entry.session
    · subst same
      rw [each_own, flag]
    · rw [each_other same, shares.flags, Bool.eq_iff_iff, decide_eq_true_iff, decide_eq_true_iff]
      exact flags id same
  whole := by
    rw [List.map_append, List.map_singleton, of_concat]
    exact whole
  pending := fun id => by
    rw [List.map_append, List.map_singleton, of_concat]
    by_cases same : id = entry.session
    · subst same
      rw [each_own]
      exact pending
    · rw [each_other same]
      refine (shares.pending id).trans ?_
      by_cases owns : owner = some id
      · rw [if_pos owns, if_pos ((flags id same).mp owns)]
        exact pendings id same owns
      · rw [if_neg owns]
        exact Multiset.zero_le _
  kept := by
    rw [List.map_append, List.map_singleton, of_concat, all]
    refine sum_grows entry.session (fun id apart => ?_) ?_ within shares.kept
    · rw [each_other apart]
    · rw [each_own]
      exact own

theorem shares_nil (name : String) : Shares name [] none where
  flags := fun _ => by simp [each, of, blank]
  whole := by simp [of, blank]
  pending := fun _ => by simp [each, of, blank]
  kept := fun clients => by simp [each, of, blank]

/-- A record that changes nothing that is relied on. -/
theorem Shares.same (shares : Shares name entries owner)
    (still : ∀ receipts : Receipts,
      (receipts.record name entry.event).inTransaction = receipts.inTransaction ∧
      (receipts.record name entry.event).pending = receipts.pending ∧
      (receipts.record name entry.event).kept = receipts.kept) : Shares name (entries ++ [entry]) owner := by
  refine @Shares.grow _ _ _ _ _ 0 0 shares ?_ (fun _ _ => Iff.rfl) ?_ ?_ (fun _ _ _ => ?_) ?_ ?_ le_rfl
  · rw [(still _).1, shares.flags]
  · rw [(still _).1, shares.whole]
  · rw [(still _).2.1, (still _).2.1]
    exact shares.pending _
  · rw [(still _).2.1]
  · rw [(still _).2.2, zero_add]
  · rw [(still _).2.2, zero_add]

/-- A row that was inserted outside a transaction, or in the one of its session. -/
theorem Shares.insert {who : Nat} {values : List Value} (shares : Shares name entries owner)
    (turn : owner = none ∨ owner = some who) (answer : Answer) :
    Shares name (entries ++ [⟨who, .insert name values, .ok answer⟩]) owner := by
  have inserted (receipts : Receipts) :
      receipts.record name (Entry.event ⟨who, .insert name values, .ok answer⟩) = receipts.insert ⟨values⟩ :=
    if_pos rfl
  rcases turn with rfl | rfl
  · have closed : (each name entries who).inTransaction = false := by simp [shares.flags]
    have idle : (of name (entries.map Entry.event)).inTransaction = false := by simp [shares.whole]
    refine @Shares.grow _ _ _ _ _ {⟨values⟩} {⟨values⟩} shares ?_ (fun _ _ => Iff.rfl) ?_ ?_
      (fun _ _ none => by cases none) ?_ ?_ le_rfl
    · simp [inserted, closed]
    · simp [inserted, idle]
    · simpa [inserted, Receipts.insert, closed, send] using shares.pending who
    · simp [inserted, Receipts.insert, closed, send]
    · simp [inserted, Receipts.insert, idle, send]
  · have begun : (each name entries who).inTransaction = true := by simp [shares.flags]
    have open_ : (of name (entries.map Entry.event)).inTransaction = true := by simp [shares.whole]
    have within := shares.pending who
    rw [if_pos rfl] at within
    refine @Shares.grow _ _ _ _ _ 0 0 shares ?_ (fun _ _ => Iff.rfl) ?_ ?_ (fun id apart own => ?_) ?_ ?_ le_rfl
    · simp [inserted, begun]
    · simp [inserted, open_]
    · simpa [inserted, Receipts.insert, begun, open_, send] using within
    · exact absurd (Option.some.inj own).symm apart
    · simp [inserted, Receipts.insert, begun, send]
    · simp [inserted, Receipts.insert, open_, send]

/-- A session begins a transaction. -/
theorem Shares.begin {who : Nat} (shares : Shares name entries none) (answer : Answer) :
    Shares name (entries ++ [⟨who, .begin, .ok answer⟩]) (some who) := by
  have nothing := shares.pending who
  rw [if_neg (by simp)] at nothing
  refine @Shares.grow _ _ _ _ _ 0 0 shares ?_ (fun id apart => ?_) ?_ ?_ (fun _ _ none => by cases none) ?_ ?_
    le_rfl
  · simp [Entry.event, record]
  · simp [Ne.symm apart]
  · simp [Entry.event, record]
  · exact nothing.trans (Multiset.zero_le _)
  · simp [Entry.event, record]
  · simp [Entry.event, record]

/-- A session ends its transaction: its rows are kept, or given up. -/
theorem Shares.ended {who : Nat} {operation : Operation} {answer : Answer}
    (shares : Shares name entries (some who))
    (ends : operation = .commit ∨ operation = .rollback ∨ operation = .drop) :
    Shares name (entries ++ [⟨who, operation, .ok answer⟩]) none := by
  have within := shares.pending who
  rw [if_pos rfl] at within
  have others (id : Nat) (apart : id ≠ who) : some who = some id ↔ none = some id := by simp [Ne.symm apart]
  have apart (id : Nat) (apart : id ≠ who) (own : some who = some id) {motive : Prop} : motive :=
    absurd (Option.some.inj own).symm apart
  rcases ends with rfl | rfl | rfl
  · refine @Shares.grow _ _ _ _ _ (each name entries who).pending
      (of name (entries.map Entry.event)).pending shares ?_ others ?_ ?_ (fun id other own => apart id other own)
      ?_ ?_ within
    · simp [Entry.event, record, Receipts.commit]
    · simp [Entry.event, record, Receipts.commit]
    · simp [Entry.event, record, Receipts.commit]
    · simp [Entry.event, record, Receipts.commit, add_comm]
    · simp [Entry.event, record, Receipts.commit, add_comm]
  all_goals
    refine @Shares.grow _ _ _ _ _ 0 0 shares ?_ others ?_ ?_ (fun id other own => apart id other own) ?_ ?_ le_rfl
    · simp [Entry.event, record, Receipts.rollback]
    · simp [Entry.event, record, Receipts.rollback]
    · simp [Entry.event, record, Receipts.rollback]
    · simp [Entry.event, record, Receipts.rollback]
    · simp [Entry.event, record, Receipts.rollback]

/-- Every answer. -/
theorem Shares.step {db left : Database} (shares : Shares name entries owner)
    (answered : Answered (db, owner) entry (left, next)) : Shares name (entries ++ [entry]) next := by
  rcases answered with ⟨step, turn⟩ | ⟨refused, same⟩
  · obtain ⟨who, operation, answer⟩ := entry
    cases turn with
    | statement statement turn =>
        cases operation with
        | insert table values =>
            by_cases own : table = name
            · subst own
              cases answer with
              | ok answer => exact shares.insert turn answer
              | error fault => exact shares.same fun receipts => by simp [Entry.event, record, send]
            · exact shares.same fun receipts => by simp [Entry.event, record, own]
        | createTable | selectAll | dumpBtree => exact shares.same fun _ => ⟨rfl, rfl, rfl⟩
        | begin | commit | rollback | drop => exact statement.elim
    | begun free begins answered =>
        obtain rfl : owner = none := free
        obtain rfl : operation = .begin := begins
        obtain rfl : answer = .ok .done := answered
        exact shares.begin _
    | ended ends own =>
        obtain rfl : owner = some who := own
        change operation = .commit ∨ operation = .rollback ∨ operation = .drop at ends
        obtain ⟨value, rfl⟩ : ∃ value, answer = .ok value := by
          rcases ends with rfl | rfl | rfl
          all_goals
            cases step with
            | missing about => cases about
            | _ => exact ⟨_, rfl⟩
        exact shares.ended ends
  · obtain ⟨rfl, rfl⟩ := Prod.mk.inj same
    exact shares.same fun receipts => by simp [record_refused refused]

/-- Every run of the database with one transaction at a time. -/
theorem reaches_shares {db : Database} (name : String)
    (ran : Reaches Answered (.empty, none) entries (db, owner)) : Shares name entries owner := by
  generalize reached : (db, owner) = state at ran
  induction ran generalizing db owner with
  | refl =>
      cases reached
      exact shares_nil name
  | @next _ _ before _ _ taken inductionHypothesis =>
      subst reached
      exact (inductionHypothesis rfl).step taken

end Shares

end Receipts

end MukhiDb.Model
