import MukhiDb.Wal.Recovery
import MukhiDb.Pager.CrashedFiles

/-!
Contract: what recovery returns for the log of one handle, cut off anywhere.

Owns: runs of the three calls that change the log; the entries a run leaves in
the log, with the transaction id each of them bears; and recovery of every byte
prefix of such a log.

Does not own: several handles over one log, and the `.db` file.
-/

namespace MukhiDb.Model

open MukhiDb.Foundation

/-! ### Calls on one handle -/

/-- A call that changes the log. -/
inductive WalCall where
  | appendPage (pageNum : UInt32) (data : Page)
  | appendCommit
  | truncate
deriving DecidableEq

/-- Perform a call. -/
def WalCall.perform : WalCall → Exec WalIo Unit
  | .appendPage pageNum data => Wal.appendPage pageNum.toNat data
  | .appendCommit => Wal.appendCommit
  | .truncate => Wal.truncate

/-- Perform calls one after the other. -/
def Wal.performAll : List WalCall → Exec WalIo Unit
  | [] => pure ()
  | call :: rest => do
      call.perform
      Wal.performAll rest

/-- What one append leaves in the log. -/
inductive LogEntry where
  | page (pageNum : UInt32) (data : Page)
  | commit
deriving DecidableEq

/-- The entries in the log after one more call. -/
def WalCall.onEntries (entries : List LogEntry) : WalCall → List LogEntry
  | .appendPage pageNum data => entries ++ [.page pageNum data]
  | .appendCommit => entries ++ [.commit]
  | .truncate => []

/-- The entries that a run leaves in an empty log: its appends since the last truncate. -/
def entriesOf (calls : List WalCall) : List LogEntry :=
  calls.foldl WalCall.onEntries []

/-- The page records that precede the last commit record, in append order. -/
def pagesBeforeLastCommit : List LogEntry → List WalRecord
  | [] => []
  | .page pageNum data :: rest =>
      if .commit ∈ rest then ⟨pageNum.toNat, data⟩ :: pagesBeforeLastCommit rest else []
  | .commit :: rest => pagesBeforeLastCommit rest

/-! ### The log of a run -/

/-- How many commit records there are. -/
def commitCount (entries : List LogEntry) : Nat := entries.count .commit

/-- The record of an entry. -/
def LogEntry.encode (txnId : Nat) : LogEntry → Bytes
  | .page pageNum data => Wal.pageRecord txnId pageNum.toNat data
  | .commit => Wal.commitRecord txnId

/-- The records of entries: each commit record moves on to the next id. -/
def encodeEntries : (txnId : Nat) → List LogEntry → List Bytes
  | _, [] => []
  | txnId, entry :: rest => entry.encode txnId :: encodeEntries (txnId + commitCount [entry]) rest

theorem commitCount_append (front back : List LogEntry) :
    commitCount (front ++ back) = commitCount front + commitCount back :=
  List.count_append

theorem commitCount_cons (entry : LogEntry) (rest : List LogEntry) :
    commitCount (entry :: rest) = commitCount [entry] + commitCount rest :=
  commitCount_append [entry] rest

@[simp] theorem commitCount_page (pageNum : UInt32) (data : Page) :
    commitCount [.page pageNum data] = 0 := rfl

@[simp] theorem commitCount_commit : commitCount [.commit] = 1 := rfl

theorem encodeEntries_append (txnId : Nat) (front back : List LogEntry) :
    encodeEntries txnId (front ++ back) =
      encodeEntries txnId front ++ encodeEntries (txnId + commitCount front) back := by
  induction front generalizing txnId with
  | nil => rfl
  | cons entry rest inductionHypothesis =>
      rw [List.cons_append, encodeEntries, encodeEntries, inductionHypothesis, List.cons_append,
        commitCount_cons entry rest, Nat.add_assoc]

theorem encodeEntries_length (txnId : Nat) (entries : List LogEntry) :
    (encodeEntries txnId entries).length = entries.length := by
  induction entries generalizing txnId with
  | nil => rfl
  | cons entry rest inductionHypothesis => simp [encodeEntries, inductionHypothesis]

theorem encodeEntries_take (txnId : Nat) (entries : List LogEntry) (count : Nat) :
    (encodeEntries txnId entries).take count = encodeEntries txnId (entries.take count) := by
  induction entries generalizing txnId count with
  | nil => simp [encodeEntries]
  | cons entry rest inductionHypothesis =>
      cases count with
      | zero => rfl
      | succ count => simp [encodeEntries, inductionHypothesis]

theorem encodeEntries_sizes (txnId : Nat) (entries : List LogEntry) :
    ∀ record ∈ encodeEntries txnId entries, record.length = recordSize := by
  induction entries generalizing txnId with
  | nil => simp [encodeEntries]
  | cons entry rest inductionHypothesis =>
      intro record member
      rw [encodeEntries, List.mem_cons] at member
      rcases member with rfl | later
      · cases entry with
        | page pageNum data => exact pageRecord_length _ _ _
        | commit => exact commitRecord_length _
      · exact inductionHypothesis _ record later

/-- Only the low 64 bits of an id are written. -/
theorem LogEntry.encode_mod (txnId : Nat) (entry : LogEntry) :
    entry.encode (txnId % 2 ^ 64) = entry.encode txnId := by
  have low : leBytes 8 (txnId % 2 ^ 64) = leBytes 8 txnId := by
    have same := leBytes_leValue (leBytes 8 txnId)
    rwa [leBytes_length, leValue_leBytes_eight] at same
  cases entry with
  | page pageNum data => simp only [LogEntry.encode, Wal.pageRecord, low]
  | commit => simp only [LogEntry.encode, Wal.commitRecord, low]

/-- The handle and its log: `start` is the id that the handle had when the log
was empty. -/
structure LogHolds (start : Nat) (entries : List LogEntry) (state : WalIo) : Prop where
  log : state.log = (encodeEntries start entries).flatten
  txnId : state.wal.txnId = (start + commitCount entries) % 2 ^ 64

/-! ### What a call that succeeds did -/

theorem Medium.perform_eq_ok {describe : String → String} {partway : Nat → Bytes → Bytes}
    {whole : Bytes → Bytes} {medium after : Medium}
    (ran : Medium.perform describe partway whole medium = (.ok (), after)) :
    after.bytes = whole medium.bytes := by
  unfold Medium.perform at ran
  split at ran <;> simp only [Prod.mk.injEq, reduceCtorEq, false_and] at ran
  · rw [← ran.2]
  · rw [← ran.2]

/-- A log call that succeeds leaves the handle alone and takes effect whole. -/
theorem Wal.onLog_eq_ok {describe : String → String} {partway : Nat → Bytes → Bytes}
    {whole : Bytes → Bytes} {state after : WalIo}
    (ran : Wal.onLog (Medium.perform describe partway whole) state = (.ok (), after)) :
    after.log = whole state.log ∧ after.wal = state.wal := by
  unfold Wal.onLog at ran
  rw [Exec.run_zoom, Prod.mk.injEq] at ran
  obtain ⟨done, rfl⟩ := ran
  exact ⟨Medium.perform_eq_ok (Prod.ext done rfl), rfl⟩

theorem Wal.appendPage_eq_ok {pageNum : Nat} {data : Page} {state after : WalIo}
    (ran : Wal.appendPage pageNum data state = (.ok (), after)) :
    after.log = state.log ++ Wal.pageRecord state.wal.txnId pageNum data ∧
      after.wal = state.wal := by
  obtain ⟨_, _, got, ran⟩ := Exec.bind_eq_ok.mp ran
  cases got
  obtain ⟨_, sought, touched, ran⟩ := Exec.bind_eq_ok.mp ran
  have still := Wal.onLog_eq_ok touched
  have appended := Wal.onLog_eq_ok ran
  rw [still.1, still.2] at appended
  exact appended

theorem Wal.appendCommit_eq_ok {state after : WalIo}
    (ran : Wal.appendCommit state = (.ok (), after)) :
    after.log = state.log ++ Wal.commitRecord state.wal.txnId ∧
      after.wal.txnId = (state.wal.txnId + 1) % 2 ^ 64 := by
  obtain ⟨_, _, got, ran⟩ := Exec.bind_eq_ok.mp ran
  cases got
  obtain ⟨_, sought, touched, ran⟩ := Exec.bind_eq_ok.mp ran
  obtain ⟨_, written, appended, ran⟩ := Exec.bind_eq_ok.mp ran
  obtain ⟨_, synced, flushed, ran⟩ := Exec.bind_eq_ok.mp ran
  cases ran
  have still := Wal.onLog_eq_ok touched
  have grown := Wal.onLog_eq_ok appended
  have stored := Wal.onLog_eq_ok flushed
  rw [still.1, still.2] at grown
  rw [grown.1, grown.2] at stored
  have moved : (synced.wal.txnId + 1) % 2 ^ 64 = (state.wal.txnId + 1) % 2 ^ 64 := by
    rw [stored.2]
  exact ⟨stored.1, moved⟩

theorem Wal.truncate_eq_ok {state after : WalIo} (ran : Wal.truncate state = (.ok (), after)) :
    after.log = [] ∧ after.wal = state.wal := by
  obtain ⟨_, cleared, emptied, ran⟩ := Exec.bind_eq_ok.mp ran
  have empty := Wal.onLog_eq_ok emptied
  have still := Wal.onLog_eq_ok ran
  rw [empty.1, empty.2] at still
  exact still

/-- One call that succeeds: the log holds the entries after the call. -/
theorem LogHolds.perform {start : Nat} {entries : List LogEntry} {state after : WalIo}
    (holds : LogHolds start entries state) (call : WalCall)
    (ran : call.perform state = (.ok (), after)) :
    ∃ start, LogHolds start (call.onEntries entries) after := by
  have appended (entry : LogEntry) :
      (encodeEntries start (entries ++ [entry])).flatten =
        state.log ++ entry.encode state.wal.txnId := by
    rw [encodeEntries_append, List.flatten_append, holds.log, holds.txnId, LogEntry.encode_mod]
    simp [encodeEntries]
  cases call with
  | appendPage pageNum data =>
      obtain ⟨log, wal⟩ := Wal.appendPage_eq_ok ran
      exact ⟨start, log.trans (appended (.page pageNum data)).symm, by
        rw [wal, holds.txnId, WalCall.onEntries, commitCount_append, commitCount_page,
          Nat.add_zero]⟩
  | appendCommit =>
      obtain ⟨log, wal⟩ := Wal.appendCommit_eq_ok ran
      exact ⟨start, log.trans (appended .commit).symm, by
        rw [wal, holds.txnId, WalCall.onEntries, commitCount_append, commitCount_commit,
          Nat.mod_add_mod, Nat.add_assoc]⟩
  | truncate =>
      obtain ⟨log, wal⟩ := Wal.truncate_eq_ok ran
      exact ⟨start + commitCount entries, log, by rw [wal, holds.txnId]; rfl⟩

/-- A run that succeeds: the log holds the appends since the last truncate. -/
theorem LogHolds.performAll {start : Nat} {entries : List LogEntry} {state after : WalIo}
    (holds : LogHolds start entries state) (calls : List WalCall)
    (ran : Wal.performAll calls state = (.ok (), after)) :
    ∃ start, LogHolds start (calls.foldl WalCall.onEntries entries) after := by
  induction calls generalizing start entries state with
  | nil =>
      cases ran
      exact ⟨start, holds⟩
  | cons call rest inductionHypothesis =>
      obtain ⟨_, between, first, later⟩ := Exec.bind_eq_ok.mp ran
      obtain ⟨next, held⟩ := holds.perform call first
      exact inductionHypothesis held later

/-! ### Recovery of a prefix -/

/-- The first bytes of records of one size: whole records, then a torn one. -/
theorem take_flatten {records : List Bytes} (sizes : ∀ record ∈ records, record.length = recordSize)
    (count : Nat) :
    ∃ torn, records.flatten.take count = (records.take (count / recordSize)).flatten ++ torn ∧
      torn.length < recordSize := by
  induction records generalizing count with
  | nil => exact ⟨[], by simp, recordSize_pos⟩
  | cons record rest inductionHypothesis =>
      have size := sizes record List.mem_cons_self
      by_cases short : count < recordSize
      · refine ⟨record.take count, ?_, ?_⟩
        · rw [Nat.div_eq_of_lt short, List.flatten_cons, List.take_append_of_le_length (by omega)]
          rfl
        · rw [List.length_take]
          omega
      · obtain ⟨torn, shape, cut⟩ := inductionHypothesis
          (fun other member => sizes other (List.mem_cons_of_mem _ member)) (count - recordSize)
        have next : count / recordSize = (count - recordSize) / recordSize + 1 :=
          Nat.div_eq_sub_div recordSize_pos (Nat.le_of_not_lt short)
        refine ⟨torn, ?_, cut⟩
        rw [next, List.flatten_cons, List.take_append, List.take_of_length_le (by omega), size,
          shape, List.take_succ_cons, List.flatten_cons, List.append_assoc]

/-- The page records of entries, with the ids they bear. -/
def pageRecordsOf : (txnId : Nat) → List LogEntry → List (Nat × WalRecord)
  | _, [] => []
  | txnId, .page pageNum data :: rest =>
      (txnId % 2 ^ 64, ⟨pageNum.toNat, data⟩) :: pageRecordsOf txnId rest
  | txnId, .commit :: rest => pageRecordsOf (txnId + 1) rest

/-- The scan of encoded entries: their page records, and one id for each commit record. -/
theorem foldl_add_encodeEntries (found : Wal.Scan) (txnId : Nat) (entries : List LogEntry) :
    ((encodeEntries txnId entries).foldl Wal.Scan.add found).pages =
        found.pages ++ pageRecordsOf txnId entries ∧
      ∀ id, id ∈ ((encodeEntries txnId entries).foldl Wal.Scan.add found).committed ↔
        id ∈ found.committed ∨ ∃ index < commitCount entries, id = (txnId + index) % 2 ^ 64 := by
  induction entries generalizing found txnId with
  | nil => simp [encodeEntries, pageRecordsOf, commitCount]
  | cons entry rest inductionHypothesis =>
      cases entry with
      | page pageNum data =>
          have small : pageNum.toNat % 2 ^ 32 = pageNum.toNat := Nat.mod_eq_of_lt pageNum.toNat_lt
          obtain ⟨pages, committed⟩ := inductionHypothesis
            { found with pages := found.pages ++ [(txnId % 2 ^ 64, ⟨pageNum.toNat, data⟩)] } txnId
          rw [encodeEntries, commitCount_page, Nat.add_zero, List.foldl_cons, LogEntry.encode,
            found.add_pageRecord, small, pages, commitCount_cons, commitCount_page, Nat.zero_add]
          exact ⟨by simp [pageRecordsOf], committed⟩
      | commit =>
          obtain ⟨pages, committed⟩ := inductionHypothesis
            { found with committed := txnId % 2 ^ 64 :: found.committed } (txnId + 1)
          rw [encodeEntries, commitCount_commit, List.foldl_cons, LogEntry.encode,
            found.add_commitRecord, pages, commitCount_cons, commitCount_commit]
          refine ⟨rfl, fun id => (committed id).trans ?_⟩
          simp only [List.mem_cons]
          constructor
          · rintro ((rfl | before) | ⟨index, below, rfl⟩)
            · exact Or.inr ⟨0, by omega, rfl⟩
            · exact Or.inl before
            · exact Or.inr ⟨index + 1, by omega, by rw [Nat.add_assoc, Nat.add_comm 1 index]⟩
          · rintro (before | ⟨index, below, rfl⟩)
            · exact Or.inl (Or.inr before)
            · cases index with
              | zero => exact Or.inl (Or.inl rfl)
              | succ index =>
                  exact Or.inr ⟨index, by omega, by rw [Nat.add_assoc, Nat.add_comm 1 index]⟩

/-- Keeping the page records of committed ids keeps those before the last commit
record, when the ids in the log are told apart by `committed`. -/
theorem filter_pageRecordsOf {committed : List Nat} {txnId : Nat} {entries : List LogEntry}
    (told : ∀ index ≤ commitCount entries,
      (txnId + index) % 2 ^ 64 ∈ committed ↔ index < commitCount entries) :
    ((pageRecordsOf txnId entries).filter fun page => page.1 ∈ committed).map Prod.snd =
      pagesBeforeLastCommit entries := by
  induction entries generalizing txnId with
  | nil => rfl
  | cons entry rest inductionHypothesis =>
      cases entry with
      | page pageNum data =>
          rw [commitCount_cons, commitCount_page, Nat.zero_add] at told
          have tail := inductionHypothesis told
          have head := told 0 (Nat.zero_le _)
          rw [Nat.add_zero, commitCount, List.count_pos_iff] at head
          rw [pageRecordsOf, pagesBeforeLastCommit]
          by_cases later : LogEntry.commit ∈ rest
          · rw [if_pos later, List.filter_cons_of_pos (by simpa using head.mpr later),
              List.map_cons, tail]
          · have none : pagesBeforeLastCommit rest = [] := by
              cases rest with
              | nil => rfl
              | cons next others =>
                  cases next with
                  | page nextNum nextData =>
                      have apart : LogEntry.commit ∉ others := fun member =>
                        later (List.mem_cons_of_mem _ member)
                      rw [pagesBeforeLastCommit, if_neg apart]
                  | commit => exact absurd List.mem_cons_self later
            have apart : txnId % 2 ^ 64 ∉ committed := fun member => later (head.mp member)
            rw [if_neg later, List.filter_cons_of_neg (by simpa using apart), tail, none]
      | commit =>
          rw [commitCount_cons, commitCount_commit] at told
          apply inductionHypothesis
          intro index within
          have here := told (index + 1) (by omega)
          rw [Nat.add_comm index 1, ← Nat.add_assoc] at here
          rw [here]
          omega

/-- Consecutive ids, fewer than there are 64-bit numbers, are told apart. -/
theorem consecutive_distinct {start left right : Nat} (leftSmall : left < 2 ^ 64)
    (rightSmall : right < 2 ^ 64) (same : (start + left) % 2 ^ 64 = (start + right) % 2 ^ 64) :
    left = right := by
  omega

/-- What recovery finds in the whole records of fewer than 2^64 entries, followed
by a torn record. -/
theorem recoveredRecords_encoded {start : Nat} {entries : List LogEntry} {torn : Bytes}
    (few : entries.length < 2 ^ 64) (short : torn.length < recordSize) :
    recoveredRecords ((encodeEntries start entries).flatten ++ torn) =
      pagesBeforeLastCommit entries := by
  have commits : commitCount entries ≤ entries.length := List.count_le_length
  obtain ⟨pages, committed⟩ := foldl_add_encodeEntries ⟨[], []⟩ start entries
  unfold recoveredRecords scanLog Wal.Scan.records
  rw [wholeRecords_flatten (encodeEntries_sizes start entries) short, pages, List.nil_append]
  apply filter_pageRecordsOf
  intro index within
  rw [committed]
  constructor
  · rintro (none | ⟨other, below, same⟩)
    · exact absurd none List.not_mem_nil
    · rwa [consecutive_distinct (by omega) (by omega) same]
  · exact fun below => Or.inr ⟨index, below, rfl⟩

/-- A run over an empty log, its calls all succeeding, leaves a log of which
recovery returns, for every byte prefix, exactly the page records that precede
the last whole commit record in the prefix. A file has fewer than 2^64 bytes. -/
theorem Wal.recover_prefix {calls : List WalCall} {schedule : List IoOutcome} {after : WalIo}
    (ran : Wal.performAll calls ⟨Wal.opened, [], schedule⟩ = (.ok (), after))
    (fileLength : after.log.length < 2 ^ 64) (reader : Wal) (count : Nat) :
    Wal.recover ⟨reader, after.log.take count, []⟩ =
      (.ok (pagesBeforeLastCommit ((entriesOf calls).take (count / recordSize))),
        ⟨reader, after.log.take count, []⟩) := by
  have empty : LogHolds 0 [] ⟨Wal.opened, [], schedule⟩ := ⟨rfl, rfl⟩
  obtain ⟨start, holds⟩ := empty.performAll calls ran
  have sizes := encodeEntries_sizes start (entriesOf calls)
  have length : after.log.length = (entriesOf calls).length * recordSize := by
    have each : (encodeEntries start (entriesOf calls)).map List.length =
        List.replicate (entriesOf calls).length recordSize := by
      rw [← encodeEntries_length start (entriesOf calls)]
      exact List.map_eq_replicate_iff.mpr sizes
    rw [holds.log, List.length_flatten]
    exact (congrArg List.sum each).trans List.sum_replicate_nat
  have few : (entriesOf calls).length < 2 ^ 64 :=
    (Nat.le_mul_of_pos_right _ recordSize_pos).trans_lt (length ▸ fileLength)
  have fewer : ((entriesOf calls).take (count / recordSize)).length < 2 ^ 64 := by
    rw [List.length_take]
    omega
  obtain ⟨torn, shape, short⟩ := take_flatten sizes count
  rw [encodeEntries_take] at shape
  have cut : after.log.take count =
      (encodeEntries start ((entriesOf calls).take (count / recordSize))).flatten ++ torn := by
    rw [holds.log]
    exact shape
  rw [recover_ok rfl, cut, recoveredRecords_encoded fewer short]

/-- Two transactions, the second one cut inside its commit record. -/
def twoTransactions : List WalCall :=
  [.appendPage 9 Page.zero, .truncate, .appendPage 7 Page.zero, .appendCommit,
    .appendPage 8 Page.zero, .appendCommit]

/-- The page of the second transaction is not recovered. -/
theorem Wal.recover_prefix_torn :
    (Wal.recover ⟨Wal.opened, (Wal.performAll twoTransactions
      ⟨Wal.opened, [], []⟩).2.log.take (3 * recordSize + 20), []⟩).1 = .ok [⟨7, Page.zero⟩] := by
  have ran : Wal.performAll twoTransactions ⟨Wal.opened, [], []⟩ =
      (.ok (), (Wal.performAll twoTransactions ⟨Wal.opened, [], []⟩).2) := Prod.ext rfl rfl
  have recovered := Wal.recover_prefix ran (by decide +kernel) Wal.opened (3 * recordSize + 20)
  rw [recovered]
  rfl

end MukhiDb.Model
