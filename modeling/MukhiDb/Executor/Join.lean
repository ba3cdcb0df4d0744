import Mathlib.Data.List.Permutation
import MukhiDb.Executor.Rows
import MukhiDb.Model.Service
import MukhiDb.Storage.Refinement

/-!
Contract: what a join returns.

Owns: the result of `execute_join` without WHERE from the answers of the two scans; when
it is the join on the columns that the ON clause names; and the join of a session that is
alone with its storage, which is the same one.

Does not own: how the ON clause was parsed, and the join with its sides exchanged.
-/

namespace MukhiDb.Model

open MukhiDb.Foundation

/-! ### Tables that join -/

/-- Two tables of numbers, one with two rows and one with one, which has the number of the
second of those. -/
theorem Storage.joinable : ∃ state, state.schedule = [] ∧
    (∃ table, state.tableAt "l" = some table ∧ table.store.columns = [⟨"id", .integer⟩]) ∧
    ∃ middle after,
      selectAll "l" state = (.ok (["id"], [⟨[.integer 7]⟩, ⟨[.integer 8]⟩]), middle) ∧
      selectAll "r" middle = (.ok (["user_id"], [⟨[.integer 8]⟩]), after) := by
  obtain ⟨left, -, -, first⟩ := @Represents.createTable _ _ _ "l" [⟨"id", .integer⟩]
    (represents_new numbers (Host.startingWith "l")) rfl (by decide) metadataFits_id
  have own : (Host.startingWith "l").resolve (pathOf "r") = pathOf "r" := by decide
  obtain ⟨right, -, -, second⟩ := @Represents.createTable _ _ _ "r" [⟨"user_id", .integer⟩] first
    (by decide) own (metadataFits_one (by decide))
  obtain ⟨_, -, third⟩ := second.inserts steady_numbers (sized_number "l" 7)
    (Function.update_of_ne (by decide) _ _) (admits_number "id" 7) (by decide)
  obtain ⟨_, -, fourth⟩ := third.inserts steady_numbers (sized_number "l" 8)
    (Function.update_self _ _ _) (admits_number "id" 8) (by decide)
  obtain ⟨state, -, last⟩ := fourth.inserts steady_numbers (sized_number "r" 8)
    rfl (admits_number "user_id" 8) (by decide)
  obtain ⟨table, found, -, views⟩ := @Represents.present _ _ _ "l" _ last rfl
  obtain ⟨rows, middle, ran, order, next⟩ := @Represents.selects _ _ _ "l" _ last rfl
  obtain ⟨others, after, ran', order', -⟩ := @Represents.selects _ _ _ "r" _ next rfl
  -- the keys differ, so that a scan has the rows in their order
  obtain rfl : rows = [⟨[.integer 7]⟩, ⟨[.integer 8]⟩] := by
    rcases List.perm_pair.mp (Multiset.coe_eq_coe.mp order.1) with rfl | same
    · exact absurd (order.2 rfl (by decide)) (by decide)
    · exact same
  obtain rfl : others = [⟨[.integer 8]⟩] :=
    List.perm_singleton.mp (Multiset.coe_eq_coe.mp order'.1)
  exact ⟨state, last.quiet, ⟨table, found, views.columns⟩, middle, after, ran, ran'⟩

namespace Executor

/-! ### The result of a join -/

/-- The texts of a pair of rows. -/
def displayPair (pair : Row × Row) : List String := display pair.1 ++ display pair.2

/-- The join of two scanned tables on a column each. -/
def joinOn (leftTable rightTable : String) (left right : List String × List Row)
    (leftIdx rightIdx : Nat) : ExecuteResult :=
  .rows (left.1.map (qualified leftTable) ++ right.1.map (qualified rightTable))
    ((joined (agreeAt leftIdx rightIdx) left.2 right.2).map displayPair)

/-- The rows of a scanned table have values for some columns with the headers as names. -/
def Scanned (table : List String × List Row) : Prop :=
  ∃ columns : List Column, table.1 = columns.map Column.name ∧ ∀ row ∈ table.2, RowOf columns row

theorem Scanned.inside {table : List String × List Row} (scanned : Scanned table) {idx : Nat}
    (below : idx < table.1.length) {row : Row} (member : row ∈ table.2) :
    idx < row.values.length := by
  obtain ⟨columns, headers, typed⟩ := scanned
  rw [(typed row member).length, ← @List.length_map _ _ columns Column.name, ← headers]
  exact below

/-- Found columns are columns. -/
theorem position_below {headers : List String} {name : String} {idx : Nat}
    (found : position headers name = some idx) : idx < headers.length :=
  (List.findIdx?_eq_some_iff_getElem.mp found).1

variable {leftTable rightTable : String} {left right : List String × List Row} {jc : JoinClause}

theorem display_combined (pair : Row × Row) : display (combined pair) = displayPair pair := by
  unfold display combined displayPair
  rw [List.map_append]
  rfl

/-- A join whose columns were found. -/
theorem joinTables_found (leftScanned : Scanned left) (rightScanned : Scanned right)
    {leftIdx rightIdx : Nat} (leftFound : findColIndex left.1 leftTable jc.leftCol = some leftIdx)
    (rightFound : findColIndex right.1 jc.rightTable jc.rightCol = some rightIdx) :
    joinTables leftTable jc none left right =
      .ok (joinOn leftTable jc.rightTable left right leftIdx rightIdx) := by
  have rows := @joinRows_ok leftIdx rightIdx left.2 right.2
    (fun lr member => leftScanned.inside (position_below leftFound) member)
    (fun rr member => rightScanned.inside (position_below rightFound) member)
  unfold joinTables
  rw [leftFound, rightFound]
  dsimp only
  rw [rows, ok_bind, filterRows_none, ok_bind, List.map_map]
  unfold joinOn
  rw [show display ∘ combined = displayPair from funext display_combined]
  rfl

/-- A join one of whose columns was not found. -/
theorem joinTables_notFound
    (missing : findColIndex left.1 leftTable jc.leftCol = none ∨
      findColIndex right.1 jc.rightTable jc.rightCol = none) :
    joinTables leftTable jc none left right = .ok (errorMessage "JOIN column not found.") := by
  unfold joinTables
  rcases missing with missing | missing
  · rw [missing]
    rfl
  · rw [missing]
    cases findColIndex left.1 leftTable jc.leftCol <;> rfl

/-- The texts of pairs of rows tell the pairs apart. -/
theorem displayPair_injective (leftScanned : Scanned left) (rightScanned : Scanned right) :
    ∀ first ∈ left.2 ×ˢ right.2, ∀ second ∈ left.2 ×ˢ right.2,
      displayPair first = displayPair second → first = second := by
  obtain ⟨leftColumns, -, leftTyped⟩ := leftScanned
  obtain ⟨rightColumns, -, rightTyped⟩ := rightScanned
  rintro ⟨l, r⟩ member ⟨l', r'⟩ member' same
  obtain ⟨lMember, rMember⟩ := List.mem_product.mp member
  obtain ⟨lMember', rMember'⟩ := List.mem_product.mp member'
  have widths : (display l).length = (display l').length := by
    unfold display
    rw [List.length_map, List.length_map, (leftTyped l lMember).length,
      (leftTyped l' lMember').length]
  obtain ⟨leftSame, rightSame⟩ := List.append_inj same widths
  rw [display_injective (leftTyped l lMember) (leftTyped l' lMember') leftSame,
    display_injective (rightTyped r rMember) (rightTyped r' rMember') rightSame]

/-- Two joins of the same tables are the same exactly if the same pairs agree. -/
theorem joinOn_eq_iff (leftScanned : Scanned left) (rightScanned : Scanned right)
    {leftIdx rightIdx leftIdx' rightIdx' : Nat} :
    joinOn leftTable rightTable left right leftIdx rightIdx =
        joinOn leftTable rightTable left right leftIdx' rightIdx' ↔
      ∀ l ∈ left.2, ∀ r ∈ right.2, agreeAt leftIdx rightIdx l r = agreeAt leftIdx' rightIdx' l r := by
  unfold joinOn
  rw [← map_joined_eq_iff (displayPair_injective leftScanned rightScanned)]
  simp

/-! ### Answers of the scans -/

section Answers

variable {state middle after : Storage}

theorem scanned_of_selectAll {name : String}
    (ran : Storage.selectAll name state = (.ok left, after)) : Scanned left :=
  Storage.selectAll_typed ran

theorem executeJoin_selects (leftRan : Storage.selectAll leftTable state = (.ok left, middle))
    (rightRan : Storage.selectAll jc.rightTable middle = (.ok right, after))
    (whereClause : Option Expr) :
    executeJoin leftTable jc whereClause state =
      (joinTables leftTable jc whereClause left right, after) := by
  have leftAnswer : Exec.attempt (Storage.selectAll leftTable) state = (.ok (.ok left), middle) := by
    unfold Exec.attempt
    rw [leftRan]
  have rightAnswer : Exec.attempt (Storage.selectAll jc.rightTable) middle =
      (.ok (.ok right), after) := by
    unfold Exec.attempt
    rw [rightRan]
  unfold executeJoin
  rw [Exec.bind_ok leftAnswer]
  dsimp only
  rw [Exec.bind_ok rightAnswer]
  rfl

end Answers

/-! ### The join of a session -/

/-- The storage of a session that shares it with nobody. -/
def onStorage {α : Type} (inner : Exec Storage α) : Exec Alone α :=
  Exec.zoom Alone.storage (fun storage alone => ⟨alone.inTransaction, storage⟩) inner

theorem onStorage_bind {α β : Type} (first : Exec Storage α) (next : α → Exec Storage β) :
    onStorage (first >>= next) = onStorage first >>= fun value => onStorage (next value) :=
  @Exec.zoom_bind _ _ _ _ Alone.storage (fun storage alone => ⟨alone.inTransaction, storage⟩)
    (fun _ _ => rfl) (fun _ _ _ => rfl) first next

theorem onStorage_eq {α : Type} {inner : Exec Storage α} {alone : Alone} {result : Except Fault α}
    {storage : Storage} (ran : inner alone.storage = (result, storage)) :
    onStorage inner alone = (result, ⟨alone.inTransaction, storage⟩) := by
  unfold onStorage
  rw [Exec.run_zoom, ran]

/-- A scan of a session that shares the storage with nobody is one of the storage. -/
theorem selectAll_alone (table : String) :
    (Session.selectAll table).run Alone.reply =
      onStorage (Exec.attempt (Storage.selectAll table)) := by
  funext alone
  rcases ran : Storage.selectAll table alone.storage with ⟨outcome, storage⟩
  have performed : Alone.perform (.selectAll table) alone =
      (outcome.map fun answer => .rows answer.1 answer.2, ⟨alone.inTransaction, storage⟩) := by
    have closure : (Operation.selectAll table).closure alone.storage =
        (outcome.map fun answer => .rows answer.1 answer.2, storage) := by
      change (Storage.selectAll table >>= fun answer => pure (Answer.rows answer.1 answer.2))
        alone.storage = _
      rw [Exec.run_bind, ran]
      cases outcome <;> rfl
    change Alone.runClosure (.selectAll table) alone = _
    unfold Alone.runClosure
    rw [closure]
    rfl
  change (Alone.reply (.selectAll table) >>= _) alone = _
  unfold Alone.reply
  rcases outcome with fault | answer
  · by_cases refused : ∃ message, fault = .error message
    · obtain ⟨message, rfl⟩ := refused
      rw [Exec.bind_ok (Exec.attempt_error performed), onStorage_eq (Exec.attempt_error ran)]
      rfl
    · have other : ∀ message, fault ≠ .error message := fun message same => refused ⟨message, same⟩
      rw [Exec.bind_error (Exec.attempt_fault performed other),
        onStorage_eq (Exec.attempt_fault ran other)]
  · rw [Exec.bind_ok (Exec.attempt_ok performed), onStorage_eq (Exec.attempt_ok ran)]
    rfl

/-- The join of a session that shares the storage with nobody is the join over the storage. -/
theorem join_alone (leftTable : String) (jc : JoinClause) (whereClause : Option Expr) :
    (join leftTable jc whereClause).run Alone.reply =
      onStorage (executeJoin leftTable jc whereClause) := by
  unfold join executeJoin
  rw [Calls.run_bind, selectAll_alone, onStorage_bind]
  refine congrArg (onStorage _ >>= ·) (funext fun left => ?_)
  rcases left with error | left
  · rfl
  · dsimp only
    rw [Calls.run_bind, selectAll_alone, onStorage_bind]
    refine congrArg (onStorage _ >>= ·) (funext fun right => ?_)
    rcases right with error | right <;> rfl

/-! ### Qualified columns -/

/-- The order in which the sides of an ON clause are written. -/
inductive WrittenOrder where
  | asListed
  | reversed

/-- The ON clause that equates a column of one table with a column of the other. -/
def onClause (leftTable rightTable leftColumn rightColumn : String) : WrittenOrder → JoinClause
  | .asListed => ⟨rightTable, qualified leftTable leftColumn, qualified rightTable rightColumn⟩
  | .reversed => ⟨rightTable, qualified rightTable rightColumn, qualified leftTable leftColumn⟩

/-- The columns that are looked up exist, and the same pairs of rows agree in them as in the
given columns. -/
def LooksUpAlike (leftTable : String) (jc : JoinClause) (left right : List String × List Row)
    (leftIdx rightIdx : Nat) : Prop :=
  ∃ leftFound rightFound, findColIndex left.1 leftTable jc.leftCol = some leftFound ∧
    findColIndex right.1 jc.rightTable jc.rightCol = some rightFound ∧
    ∀ l ∈ left.2, ∀ r ∈ right.2, agreeAt leftFound rightFound l r = agreeAt leftIdx rightIdx l r

theorem joinTables_joinOn_iff (leftScanned : Scanned left) (rightScanned : Scanned right)
    {leftIdx rightIdx : Nat} :
    joinTables leftTable jc none left right =
        .ok (joinOn leftTable jc.rightTable left right leftIdx rightIdx) ↔
      LooksUpAlike leftTable jc left right leftIdx rightIdx := by
  unfold LooksUpAlike
  rcases leftFound : findColIndex left.1 leftTable jc.leftCol with _ | leftFound'
  · rw [joinTables_notFound (Or.inl leftFound)]
    refine iff_of_false nofun ?_
    rintro ⟨_, _, impossible, -⟩
    cases impossible
  rcases rightFound : findColIndex right.1 jc.rightTable jc.rightCol with _ | rightFound'
  · rw [joinTables_notFound (Or.inr rightFound)]
    refine iff_of_false nofun ?_
    rintro ⟨_, _, -, impossible, -⟩
    cases impossible
  rw [joinTables_found leftScanned rightScanned leftFound rightFound]
  constructor
  · intro same
    exact ⟨leftFound', rightFound', rfl, rfl,
      (joinOn_eq_iff leftScanned rightScanned).mp (Except.ok.inj same)⟩
  · rintro ⟨leftIdx', rightIdx', leftSame, rightSame, same⟩
    obtain rfl := Option.some.inj leftSame
    obtain rfl := Option.some.inj rightSame
    exact congrArg Except.ok ((joinOn_eq_iff leftScanned rightScanned).mpr same)

/-- A reference to a column of a table without a dot in its name stands for the column's name. -/
theorem columnName_qualified {table : String} (dotless : '.' ∉ table.toList) (column : String) :
    columnName (qualified table column) = column := by
  have scanned : (qualified table column).toList.dropWhile (· ≠ '.') = '.' :: column.toList := by
    unfold qualified
    rw [String.toList_append, String.toList_append, List.append_assoc,
      List.dropWhile_append_of_pos fun c member => by
        rw [decide_eq_true_eq]
        rintro rfl
        exact dotless member]
    rfl
  unfold columnName
  rw [scanned]
  exact String.ofList_toList

/-- The tables' names have no dot, the clause is written in the order of the tables, and no
other header comes before the named ones that differs from them in letter case only. -/
theorem looksUpAlike_asListed {leftColumn rightColumn : String} {leftIdx rightIdx : Nat}
    (leftDotless : '.' ∉ leftTable.toList) (rightDotless : '.' ∉ rightTable.toList)
    (leftFirst : position left.1 leftColumn = some leftIdx)
    (rightFirst : position right.1 rightColumn = some rightIdx) :
    LooksUpAlike leftTable (onClause leftTable rightTable leftColumn rightColumn .asListed) left
      right leftIdx rightIdx := by
  refine ⟨leftIdx, rightIdx, ?_, ?_, fun _ _ _ _ => rfl⟩
  · unfold findColIndex onClause
    rw [columnName_qualified leftDotless]
    exact leftFirst
  · unfold findColIndex onClause
    rw [columnName_qualified rightDotless]
    exact rightFirst

section Qualified

variable {state middle after : Storage}

/-- A join on a column of each table, written in either order, returns the pairs of rows
with equal values in them exactly if the columns that are looked up exist and the same pairs
agree in them. -/
theorem executeJoin_qualified_iff
    (leftRan : Storage.selectAll leftTable state = (.ok left, middle))
    (rightRan : Storage.selectAll rightTable middle = (.ok right, after))
    (leftColumn : Fin left.1.length) (rightColumn : Fin right.1.length) (order : WrittenOrder) :
    executeJoin leftTable
        (onClause leftTable rightTable (left.1.get leftColumn) (right.1.get rightColumn) order) none
        state = (.ok (joinOn leftTable rightTable left right leftColumn rightColumn), after) ↔
      LooksUpAlike leftTable
        (onClause leftTable rightTable (left.1.get leftColumn) (right.1.get rightColumn) order)
        left right leftColumn rightColumn := by
  have listed (jc : JoinClause) (names : jc.rightTable = rightTable) :
      executeJoin leftTable jc none state =
          (.ok (joinOn leftTable rightTable left right leftColumn rightColumn), after) ↔
        LooksUpAlike leftTable jc left right leftColumn rightColumn := by
    subst names
    rw [executeJoin_selects leftRan rightRan, Prod.mk.injEq,
      joinTables_joinOn_iff (scanned_of_selectAll leftRan) (scanned_of_selectAll rightRan)]
    exact and_iff_left rfl
  cases order <;> exact listed _ rfl

/-- Of two rows on the left and one on the right, one pair agrees. -/
theorem executeJoin_qualified_iff_listed :
    ∃ state, (executeJoin "l" (onClause "l" "r" "id" "user_id" .asListed) none state).1 =
      .ok (.rows ["l.id", "r.user_id"] [["8", "8"]]) := by
  obtain ⟨state, -, -, middle, after, leftRan, rightRan⟩ := Storage.joinable
  have joins := (executeJoin_qualified_iff leftRan rightRan ⟨0, by decide⟩ ⟨0, by decide⟩
    .asListed).mpr (looksUpAlike_asListed (by decide) (by decide) (by decide) (by decide))
  exact ⟨state, congrArg Prod.fst joins⟩

/-- The same join with the sides of the clause exchanged is refused. -/
theorem executeJoin_reversed_refused :
    ∃ left right middle after,
      Storage.selectAll "l" (Storage.twoTables "l" "r" [⟨"id", .integer⟩]
        [⟨"user_id", .integer⟩]) = (.ok left, middle) ∧
      Storage.selectAll "r" middle = (.ok right, after) ∧
      (executeJoin "l" (onClause "l" "r" "id" "user_id" .reversed) none
        (Storage.twoTables "l" "r" [⟨"id", .integer⟩] [⟨"user_id", .integer⟩])).1 ≠
          .ok (joinOn "l" "r" left right 0 0) := by
  obtain ⟨middle, after, leftRan, rightRan⟩ := @Storage.twoTables_scans "l" "r"
    [⟨"id", .integer⟩] [⟨"user_id", .integer⟩] (by decide) (by decide) (by decide)
  refine ⟨_, _, middle, after, leftRan, rightRan, ?_⟩
  rw [@executeJoin_selects "l" _ _ (onClause "l" "r" "id" "user_id" .reversed) _ _ _ leftRan
    rightRan none, joinTables_notFound (Or.inl (by decide))]
  exact nofun

end Qualified

end Executor

end MukhiDb.Model
