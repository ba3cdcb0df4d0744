import MukhiDb.Executor.Join

/-!
Contract: a join and the join with its sides exchanged.

Owns: the fact that a scan leaves what every later scan answers as it was; and the fact
that exchanging the tables and the two references of a join gives an error again, or the
same rows with their parts exchanged.

Does not own: joins with a WHERE clause.
-/

namespace MukhiDb.Model

open MukhiDb.Foundation

/-! ### Scans one after the other -/

namespace TableIo

/-- What a scan leaves alone. -/
structure Rescanned (before after : TableIo) : Prop where
  path : after.store.path = before.store.path
  columns : after.store.columns = before.store.columns
  rootPage : after.store.rootPage = before.store.rootPage
  disk : after.disk = before.disk
  quiet : after.io.Quiet
  reads : after.io.reads = before.io.reads

variable {table : TableIo}

theorem selectAll_after (table : TableIo) :
    (selectAll table).2 =
      table.withIo (Pager.perform (BTree.scanAll table.store.rootPage) table.io).2 := by
  have scanned : (onPages (BTree.scanAll table.store.rootPage) table).2 =
      table.withIo (Pager.perform (BTree.scanAll table.store.rootPage) table.io).2 := rfl
  unfold selectAll
  rw [Exec.bind_ok (Exec.run_get table), ← scanned]
  rcases ran : onPages (BTree.scanAll table.store.rootPage) table with ⟨fault | rawRows, after⟩
  · rw [Exec.bind_error ran]
  · rw [Exec.bind_ok ran]
    rcases decodeRows table.store.columns rawRows with fault | rows <;> rfl

theorem selectAll_rescanned (quiet : table.io.Quiet) : Rescanned table (selectAll table).2 := by
  have scanned := PagerIo.run_readOnly (BTree.readOnly_scanAll table.store.rootPage) quiet
  have filled := PagerIo.perform_filled (BTree.readOnly_scanAll table.store.rootPage) table.io
  rw [selectAll_after]
  exact ⟨rfl, rfl, rfl, filled.disk, scanned.2, filled.reads⟩

end TableIo

namespace Storage

variable {state : Storage} {name other : String}

/-- A table as another scan finds it. -/
theorem tableAt_selectAll (quiet : state.schedule = []) {table : TableIo}
    (found : state.tableAt other = some table) :
    ∃ after, (selectAll name state).2.tableAt other = some after ∧
      TableIo.Rescanned table after := by
  have quietHere : table.io.Quiet := (tableAt_schedule found).trans quiet
  have still : TableIo.Rescanned table table := ⟨rfl, rfl, rfl, rfl, quietHere, rfl⟩
  rcases there : state.tableAt name with _ | scanned
  · have same : selectAll name state = _ := onTable_missing there
    rw [same]
    exact ⟨table, found, still⟩
  · have rescanned := @TableIo.selectAll_rescanned scanned ((tableAt_schedule there).trans quiet)
    have ran : selectAll name state = _ :=
      onTable_found there (TableIo.Safe.samePath TableIo.selectAll_safe)
    rw [ran]
    by_cases same : other = name
    · subst same
      obtain rfl := Option.some.inj (there.symm.trans found)
      exact ⟨_, tableAt_put_self, rescanned⟩
    · refine ⟨table, ?_, still⟩
      obtain ⟨store, opened, rfl⟩ := tableAt_eq_some.mp found
      refine tableAt_eq_some.mpr
        ⟨store, (Finmap.lookup_insert_of_ne _ same).trans opened, ?_⟩
      have files : (state.put name (TableIo.selectAll scanned).2).filesAt store.path =
          state.filesAt store.path := by
        rw [filesAt_put, rescanned.path, rescanned.disk, tableAt_disk there]
        split
        · next path => rw [path]
        · rfl
      rw [files]
      exact congrArg (TableIo.mk store _) (quiet.trans rescanned.quiet.symm)

theorem tableAt_selectAll_none (absent : state.tableAt other = none) :
    (selectAll name state).2.tableAt other = none := by
  rcases there : state.tableAt name with _ | scanned
  · have same : selectAll name state = _ := onTable_missing there
    rw [same]
    exact absent
  · have ran : selectAll name state = _ :=
      onTable_found there (TableIo.Safe.samePath TableIo.selectAll_safe)
    have different : other ≠ name := by
      rintro rfl
      rw [absent] at there
      cases there
    rw [ran, tableAt_eq_none]
    exact (Finmap.lookup_insert_of_ne _ different).trans (tableAt_eq_none.mp absent)

/-- A scan answers as it would have before another scan. -/
theorem selectAll_again (quiet : state.schedule = []) (name other : String) :
    (selectAll other (selectAll name state).2).1 = (selectAll other state).1 := by
  rcases found : state.tableAt other with _ | table
  · have missing : selectAll other state = _ := onTable_missing found
    have missing' : selectAll other (selectAll name state).2 = _ :=
      onTable_missing (tableAt_selectAll_none found)
    rw [missing, missing']
  · obtain ⟨after, found', rescanned⟩ := @tableAt_selectAll state name other quiet table found
    exact onTable_congr (TableIo.Safe.samePath TableIo.selectAll_safe) found found'
      (TableIo.selectAll_congr ((tableAt_schedule found).trans quiet) rescanned.quiet
        rescanned.reads rescanned.rootPage rescanned.columns) (notFound other)

end Storage

/-! ### Exchanging the sides -/

namespace Executor

/-- A row with its first cells moved to the end. -/
def exchange (width : Nat) (row : List String) : List String := row.drop width ++ row.take width

/-- Both results are errors, or the second has the rows of the first in some order, with the
first cells of each row, and of the headers, moved to the end. -/
def Exchanged (width : Nat) : ExecuteResult → ExecuteResult → Prop
  | .message _, .message _ => True
  | .rows headers rows, .rows headers' rows' =>
      headers' = exchange width headers ∧ rows'.Perm (rows.map (exchange width))
  | _, _ => False

theorem exchange_append {width : Nat} {front back : List String} (size : front.length = width) :
    exchange width (front ++ back) = back ++ front := by
  subst size
  unfold exchange
  rw [List.drop_left, List.take_left]

theorem agreeAt_comm (leftIdx rightIdx : Nat) (left right : Row) :
    agreeAt leftIdx rightIdx left right = agreeAt rightIdx leftIdx right left := by
  unfold agreeAt
  rw [decide_eq_decide]
  exact eq_comm

variable {left right : List String × List Row} {leftTable rightTable : String}

theorem joinOn_exchanged (leftScanned : Scanned left) (leftIdx rightIdx : Nat) :
    Exchanged left.1.length (joinOn leftTable rightTable left right leftIdx rightIdx)
      (joinOn rightTable leftTable right left rightIdx leftIdx) := by
  obtain ⟨columns, headers, typed⟩ := leftScanned
  refine ⟨(exchange_append (List.length_map _)).symm, ?_⟩
  have pairs := joined_swap_perm (agreeAt leftIdx rightIdx) left.2 right.2
  rw [show (fun r l => agreeAt leftIdx rightIdx l r) = agreeAt rightIdx leftIdx from
    funext₂ fun r l => agreeAt_comm leftIdx rightIdx l r] at pairs
  have rows := (pairs.map displayPair).symm
  rw [List.map_map] at rows ⊢
  refine rows.trans (List.Perm.of_eq (List.map_congr_left ?_))
  intro pair member
  refine (exchange_append ?_).symm
  unfold display
  rw [List.length_map]
  change pair.1.values.length = _
  rw [(typed pair.1 (mem_joined.mp member).1).length, headers, List.length_map]

/-- The answer of a join from those of the scans. -/
def joinAnswers (leftTable : String) (jc : JoinClause) :
    Except Fault (List String × List Row) → Except Fault (List String × List Row) →
      Except Fault ExecuteResult
  | .error (.error error), _ => .ok (errorMessage error)
  | .error fault, _ => .error fault
  | .ok _, .error (.error error) => .ok (errorMessage error)
  | .ok _, .error fault => .error fault
  | .ok left, .ok right => joinTables leftTable jc none left right

theorem executeJoin_answers {state : Storage} (quiet : state.schedule = []) (leftTable : String)
    (jc : JoinClause) :
    (executeJoin leftTable jc none state).1 =
      joinAnswers leftTable jc (Storage.selectAll leftTable state).1
        (Storage.selectAll jc.rightTable state).1 := by
  have again := Storage.selectAll_again quiet leftTable jc.rightTable
  rcases leftRan : Storage.selectAll leftTable state with ⟨leftAnswer, middle⟩
  rw [leftRan] at again
  rcases rightRan : Storage.selectAll jc.rightTable middle with ⟨rightAnswer, after⟩
  rw [rightRan] at again
  rw [← again]
  unfold executeJoin
  rcases leftAnswer with fault | left
  · cases fault <;>
      · first
        | rw [Exec.bind_ok (Exec.attempt_error leftRan)]
        | rw [Exec.bind_error (Exec.attempt_fault leftRan nofun)]
        rfl
  rw [Exec.bind_ok (Exec.attempt_ok leftRan)]
  dsimp only
  rcases rightAnswer with fault | right
  · cases fault <;>
      · first
        | rw [Exec.bind_ok (Exec.attempt_error rightRan)]
        | rw [Exec.bind_error (Exec.attempt_fault rightRan nofun)]
        rfl
  rw [Exec.bind_ok (Exec.attempt_ok rightRan)]
  rfl

/-- The runs of a join and of the exchanged one. -/
def ExchangedRuns (width : Nat) : Except Fault ExecuteResult → Except Fault ExecuteResult → Prop
  | .ok first, .ok second => Exchanged width first second
  | .error _, .ok (.rows _ _) => False
  | .ok (.rows _ _), .error _ => False
  | _, _ => True

theorem joinTables_exchanged (leftScanned : Scanned left) (rightScanned : Scanned right)
    (leftCol rightCol : String) :
    ∃ first second, joinTables leftTable ⟨rightTable, leftCol, rightCol⟩ none left right = .ok first ∧
      joinTables rightTable ⟨leftTable, rightCol, leftCol⟩ none right left = .ok second ∧
      Exchanged left.1.length first second := by
  rcases leftFound : findColIndex left.1 leftTable leftCol with _ | leftIdx
  · exact ⟨_, _, joinTables_notFound (Or.inl leftFound), joinTables_notFound (Or.inr leftFound),
      trivial⟩
  rcases rightFound : findColIndex right.1 rightTable rightCol with _ | rightIdx
  · exact ⟨_, _, joinTables_notFound (Or.inr rightFound), joinTables_notFound (Or.inl rightFound),
      trivial⟩
  exact ⟨_, _, joinTables_found leftScanned rightScanned leftFound rightFound,
    joinTables_found rightScanned leftScanned rightFound leftFound,
    joinOn_exchanged leftScanned leftIdx rightIdx⟩

/-- Two scans that answered with rows, or did not. -/
theorem joinAnswers_exchanged {leftAnswer rightAnswer : Except Fault (List String × List Row)}
    {width : Nat} (leftScanned : ∀ left, leftAnswer = .ok left → Scanned left ∧ left.1.length = width)
    (rightScanned : ∀ right, rightAnswer = .ok right → Scanned right) (leftCol rightCol : String) :
    ExchangedRuns width
      (joinAnswers leftTable ⟨rightTable, leftCol, rightCol⟩ leftAnswer rightAnswer)
      (joinAnswers rightTable ⟨leftTable, rightCol, leftCol⟩ rightAnswer leftAnswer) := by
  rcases leftAnswer with fault | left
  · rcases rightAnswer with fault' | right
    · cases fault <;> cases fault' <;> trivial
    · cases fault <;> trivial
  · rcases rightAnswer with fault' | right
    · cases fault' <;> trivial
    · obtain ⟨scanned, rfl⟩ := leftScanned left rfl
      obtain ⟨first, second, firstRan, secondRan, exchanged⟩ :=
        @joinTables_exchanged left right leftTable rightTable scanned (rightScanned right rfl)
          leftCol rightCol
      change ExchangedRuns left.1.length
        (joinTables leftTable ⟨rightTable, leftCol, rightCol⟩ none left right)
        (joinTables rightTable ⟨leftTable, rightCol, leftCol⟩ none right left)
      rw [firstRan, secondRan]
      exact exchanged

/-- A join stops without a result only when a scan does. -/
theorem joinAnswers_fault {jc : JoinClause}
    {leftAnswer rightAnswer : Except Fault (List String × List Row)} {fault : Fault}
    (leftScanned : ∀ left, leftAnswer = .ok left → Scanned left)
    (rightScanned : ∀ right, rightAnswer = .ok right → Scanned right)
    (stopped : joinAnswers leftTable jc leftAnswer rightAnswer = .error fault) :
    leftAnswer = .error fault ∨ rightAnswer = .error fault := by
  rcases leftAnswer with leftFault | left
  · cases leftFault <;> cases stopped <;> exact Or.inl rfl
  rcases rightAnswer with rightFault | right
  · cases rightFault <;> cases stopped <;> exact Or.inr rfl
  obtain ⟨first, _, ran, -⟩ := @joinTables_exchanged left right leftTable jc.rightTable
    (leftScanned left rfl) (rightScanned right rfl) jc.leftCol jc.rightCol
  have stopped : joinTables leftTable jc none left right = .error fault := stopped
  rw [show joinTables leftTable jc none left right = .ok first from ran] at stopped
  cases stopped

section Storage

variable {state : Storage}

theorem scanned_answer {name : String} {answer : List String × List Row}
    (answered : (Storage.selectAll name state).1 = .ok answer) : Scanned answer :=
  scanned_of_selectAll (Prod.ext answered rfl)

/-- A join without WHERE and the join with the tables and the references exchanged: both
return errors, or both return rows, the second the rows of the first with the two parts of
each row exchanged. Either fails to return only when the scan of a table does. -/
theorem executeJoin_exchange (quiet : state.schedule = []) {table : TableIo}
    (found : state.tableAt leftTable = some table) (rightTable leftCol rightCol : String) :
    ExchangedRuns table.store.columns.length
        (executeJoin leftTable ⟨rightTable, leftCol, rightCol⟩ none state).1
        (executeJoin rightTable ⟨leftTable, rightCol, leftCol⟩ none state).1 ∧
      ∀ fault, ((executeJoin leftTable ⟨rightTable, leftCol, rightCol⟩ none state).1 = .error fault ∨
          (executeJoin rightTable ⟨leftTable, rightCol, leftCol⟩ none state).1 = .error fault) →
        (Storage.selectAll leftTable state).1 = .error fault ∨
          (Storage.selectAll rightTable state).1 = .error fault := by
  rw [executeJoin_answers quiet, executeJoin_answers quiet]
  constructor
  · refine joinAnswers_exchanged (fun left answered => ⟨scanned_answer answered, ?_⟩)
      (fun right answered => scanned_answer answered) leftCol rightCol
    have ran : Storage.selectAll leftTable state = _ :=
      Storage.onTable_found found (TableIo.Safe.samePath TableIo.selectAll_safe)
    rw [ran] at answered
    have typed := @TableIo.selectAll_typed table _ left.1 left.2 (Prod.ext answered rfl)
    rw [typed.1, List.length_map]
  · rintro fault (stopped | stopped)
    · exact joinAnswers_fault (fun _ => scanned_answer) (fun _ => scanned_answer) stopped
    · exact (joinAnswers_fault (fun _ => scanned_answer) (fun _ => scanned_answer) stopped).symm

/-- Two tables with rows that agree, joined on their only columns in either order. -/
theorem executeJoin_exchange_rows : ∃ state,
    (executeJoin "l" ⟨"r", "l.id", "r.user_id"⟩ none state).1 =
      .ok (.rows ["l.id", "r.user_id"] [["8", "8"]]) ∧
    ExchangedRuns 1 (executeJoin "l" ⟨"r", "l.id", "r.user_id"⟩ none state).1
      (executeJoin "r" ⟨"l", "r.user_id", "l.id"⟩ none state).1 := by
  obtain ⟨state, quiet, ⟨table, found, columns⟩, middle, after, leftRan, rightRan⟩ :=
    Storage.joinable
  have exchanged := (executeJoin_exchange quiet found "r" "l.id" "r.user_id").1
  rw [columns] at exchanged
  refine ⟨state, ?_, exchanged⟩
  rw [@executeJoin_selects "l" _ _ ⟨"r", "l.id", "r.user_id"⟩ _ _ _ leftRan rightRan none]
  rfl

end Storage

end Executor

end MukhiDb.Model
