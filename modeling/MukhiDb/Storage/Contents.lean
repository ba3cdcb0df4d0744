import MukhiDb.BTree.SafeRows
import MukhiDb.Foundation.TreeSize
import MukhiDb.Model.Database
import MukhiDb.Storage.RowBytes

/-!
Contract: the rows of a table in the tree that holds them.

Owns: that the checks of an insert accept the rows of the table and refuse all others; the
cell of a row; which trees hold the rows of a table; and what an insertion in the tree and a
scan of it are for the rows.

Does not own: the pages of the tree.
-/

namespace MukhiDb.Model

open MukhiDb.Foundation
open BTree (Tree layout)

/-! ### Rows -/

section Rows

variable {columns : List Column} {values : List Value}

theorem admits_iff : TableView.Admits columns values ↔ Accepted columns values := by
  constructor
  · intro admits
    obtain ⟨arity, each⟩ := List.forall₂_iff_zip.mp admits.typed
    have typed : ∀ cell ∈ columns.zip values, Typed cell := by
      intro cell member
      obtain ⟨⟨name, dataType⟩, value⟩ := cell
      have typed := each member
      cases dataType <;> cases value <;> trivial
    exact ⟨arity.symm, typed, (rowBytes_length arity.symm typed).trans_le admits.short⟩
  · intro accepted
    refine ⟨List.forall₂_iff_zip.mpr ⟨accepted.arity.symm, ?_⟩,
      (rowBytes_length accepted.arity accepted.typed).symm.trans_le accepted.short⟩
    intro column value member
    obtain ⟨name, dataType⟩ := column
    have typed := accepted.typed _ member
    cases dataType <;> cases value <;> trivial

theorem checkTypes_typed {cells : List (Column × Value)} (typed : ∀ cell ∈ cells, Typed cell)
    (position : Nat) : TableIo.checkTypes cells position = .ok () := by
  induction cells generalizing position with
  | nil => rfl
  | cons cell rest inductionHypothesis =>
      have others := inductionHypothesis (fun other member => typed other (List.mem_cons_of_mem _ member))
        (position + 1)
      obtain ⟨⟨name, dataType⟩, value⟩ := cell
      have own := typed _ List.mem_cons_self
      cases dataType <;> cases value <;> first | exact others | exact own.elim

/-- The type check refuses with a message. -/
theorem checkTypes_error {cells : List (Column × Value)} {position : Nat} {fault : Fault}
    (refused : TableIo.checkTypes cells position = .error fault) : ∃ message, fault = .error message := by
  induction cells generalizing position with
  | nil => cases refused
  | cons cell rest inductionHypothesis =>
      obtain ⟨⟨name, dataType⟩, value⟩ := cell
      cases dataType <;> cases value <;>
        first | exact inductionHypothesis refused | exact ⟨_, (Except.error.inj refused).symm⟩

/-- The cell of a row. -/
def cellOf (columns : List Column) (row : Row) : Int64 × Bytes :=
  (TableView.key columns row, rowBytes row.values)

/-- The checks of an insert accept the rows of the table. -/
theorem encodeRow_admits (admits : TableView.Admits columns values) :
    TableIo.encodeRow columns values = .ok (cellOf columns ⟨values⟩) := by
  have accepted := admits_iff.mp admits
  unfold TableIo.encodeRow
  rw [if_neg (not_not.mpr accepted.arity), checkTypes_typed accepted.typed]
  change (if BTree.maxRowDataSize < serializedSize ⟨values⟩ columns then _ else _) = _
  rw [if_neg (Nat.not_lt.mpr admits.short), serialize_ok accepted.arity accepted.typed]
  rfl

/-- They refuse other rows with a message. -/
theorem encodeRow_refused (unfit : ¬ TableView.Admits columns values) :
    ∃ message, TableIo.encodeRow columns values = .error (.error message) := by
  unfold TableIo.encodeRow
  by_cases arity : values.length = columns.length
  · rw [if_neg (not_not.mpr arity)]
    rcases types : TableIo.checkTypes (columns.zip values) 0 with fault | ⟨⟩
    · obtain ⟨message, rfl⟩ := checkTypes_error types
      exact ⟨message, rfl⟩
    · have typed := checkTypes_ok types
      have large : BTree.maxRowDataSize < serializedSize ⟨values⟩ columns := by
        by_contra small
        refine unfit (admits_iff.mpr ⟨arity, typed, ?_⟩)
        exact (rowBytes_length arity typed).trans_le (Nat.le_of_not_lt small)
      change ∃ message, (if BTree.maxRowDataSize < serializedSize ⟨values⟩ columns then _ else _) = _
      rw [if_pos large]
      exact ⟨_, rfl⟩
  · rw [if_pos arity]
    exact ⟨_, rfl⟩

end Rows

/-! ### Trees of rows -/

/-- The cells of the tree are those of the rows. While the rows are intact, all pages in use are
pages of the tree, and if no two rows have the same key, leaves and separators are in key order. -/
structure Stores (columns : List Column) (tree : Tree) (count : Nat) (content : Content) : Prop where
  accepted : ∀ row ∈ content.rows, Accepted columns row.values
  cells : (tree.rows : Multiset (Int64 × Bytes)) = content.rows.map (cellOf columns)
  many : content.intact = false → assuredRows ≤ content.rows.card
  compact : content.intact = true → tree.Compact 1 count
  arranged : content.intact = true → (tree.rows.map Prod.fst).Nodup →
    ∃ row, tree.Arranged row ∧ Leaf.Headed row.entries

section Stores

variable {columns : List Column} {tree : Tree} {count : Nat} {content : Content}

theorem stores_fresh (columns : List Column) : Stores columns (BPlusTree.single 1) 2 .empty where
  accepted := fun row member => absurd member (Multiset.notMem_zero row)
  cells := rfl
  many := fun broken => by cases broken
  compact := fun _ => BPlusTree.compact_single 1
  arranged := fun _ _ => ⟨_, BPlusTree.arranged_single 1, fun _ member => absurd member List.not_mem_nil⟩

theorem Stores.card (stores : Stores columns tree count content) :
    tree.rows.length = content.rows.card := by
  have same := congrArg Multiset.card stores.cells
  rwa [Multiset.coe_card, Multiset.card_map] at same

/-- The rows of the content in the order of the tree. -/
theorem Stores.listed (stores : Stores columns tree count content) :
    ∃ rows : List Row, (rows : Multiset Row) = content.rows ∧ tree.rows = rows.map (cellOf columns) := by
  obtain ⟨some, same⟩ := Quot.exists_rep content.rows
  have cells := stores.cells
  rw [← same] at cells
  have perm : tree.rows.Perm (some.map (cellOf columns)) := Multiset.coe_eq_coe.mp cells
  have graph : List.Forall₂ (fun cell row => cell = cellOf columns row) (some.map (cellOf columns)) some := by
    rw [List.forall₂_map_left_iff]
    exact List.forall₂_same.mpr fun _ _ => rfl
  obtain ⟨rows, each, other⟩ := List.perm_comp_forall₂ perm graph
  have equal : List.Forall₂ (· = ·) tree.rows (rows.map (cellOf columns)) :=
    List.forall₂_map_right_iff.mpr each
  rw [List.forall₂_eq_eq_eq] at equal
  exact ⟨rows, (Multiset.coe_eq_coe.mpr other).trans same, equal⟩

/-- Reading the cells of the tree back gives the rows. With distinct keys they come in key order. -/
theorem Stores.scanned (stores : Stores columns tree count content) {view : TableView}
    (schema : view.columns = columns) (shown : view.live = content) :
    ∃ rows, TableIo.decodeRows columns (tree.rows.map Prod.snd) = .ok rows ∧ view.InOrder rows := by
  obtain ⟨rows, all, cells⟩ := stores.listed
  have keys : tree.rows.map Prod.fst = rows.map (TableView.key columns) := by
    rw [cells, List.map_map]
    rfl
  refine ⟨rows, ?_, ?_, fun intact distinct => ?_⟩
  · rw [cells, List.map_map]
    refine decodeRows_ok fun row member => stores.accepted row ?_
    rw [← all]
    exact member
  · rw [shown, all]
  · rw [shown] at intact
    rw [schema, ← keys] at distinct ⊢
    obtain ⟨row, arranged, -⟩ := stores.arranged intact distinct
    exact (arranged.rows_sorted.and distinct).imp fun both => lt_of_le_of_ne both.1 both.2

/-- A row is inserted in the tree, or there are many rows already. -/
theorem Stores.insert (stores : Stores columns tree count content) (linked : tree.Linked layout 1 count)
    {row : Row} (accepted : Accepted columns row.values) {grown : BPlusTree.Grown Int64 Bytes}
    (grows : tree.insert layout count (cellOf columns row).1 (cellOf columns row).2 = grown) :
    (grown.complete = true ∧
      Stores columns grown.tree grown.count ⟨row ::ₘ content.rows, content.intact⟩) ∨
    (grown.complete = false ∧ assuredRows ≤ content.rows.card ∧
      (grown = ⟨tree, count, false⟩ ∨
        Stores columns grown.tree grown.count ⟨row ::ₘ content.rows, false⟩)) := by
  have some (cells : List (Int64 × Bytes))
      (full : layout.room cells (cellOf columns row) = false) :
      0 < layout.cut (place cells (cellOf columns row).1 (cellOf columns row).2) :=
    BTree.splitPoint_pos (BTree.two_of_full accepted.short full)
  have each : ∀ other ∈ row ::ₘ content.rows, Accepted columns other.values := by
    intro other member
    rcases Multiset.mem_cons.mp member with rfl | old
    · exact accepted
    · exact stores.accepted other old
  have added (perm : grown.tree.rows.Perm (cellOf columns row :: tree.rows)) :
      (grown.tree.rows : Multiset (Int64 × Bytes)) = (row ::ₘ content.rows).map (cellOf columns) := by
    rw [Multiset.map_cons, ← stores.cells]
    exact Multiset.coe_eq_coe.mpr perm
  have rows := BPlusTree.insert_rows BTree.layout_splits linked (cellOf columns row).1
    (cellOf columns row).2
  rw [grows] at rows
  by_cases complete : grown.complete = true
  · left
    have perm : grown.tree.rows.Perm (cellOf columns row :: tree.rows) := by
      rcases rows with perm | stopped
      · exact perm
      · rw [stopped] at complete
        contradiction
    refine ⟨complete, each, added perm, fun broken => ?_, fun intact => ?_, fun intact distinct => ?_⟩
    · rw [Multiset.card_cons]
      exact Nat.le_succ_of_le (stores.many broken)
    · rw [← grows] at complete ⊢
      exact BPlusTree.insert_compact BTree.layout_splits linked (stores.compact intact) (some _) complete
    · have keys : (((cellOf columns row).1 :: tree.rows.map Prod.fst)).Nodup :=
        (perm.map Prod.fst).nodup_iff.mp distinct
      obtain ⟨leaves, arranged, headed⟩ := stores.arranged intact (List.nodup_cons.mp keys).2
      rw [← grows] at complete ⊢
      obtain ⟨next, step, kept⟩ := BPlusTree.insert_arranged BTree.layout_splits linked arranged
        (BPlusTree.aligned_of_distinct linked arranged headed (some _) keys) complete
      exact ⟨next, kept, step.headed (some _) headed⟩
  · right
    have stopped : grown.complete = false := Bool.eq_false_iff.mpr complete
    have many : assuredRows ≤ content.rows.card := by
      rcases intact : content.intact with _ | _
      · exact stores.many intact
      · rw [← grows] at stopped
        have pages := BPlusTree.insert_stopped BTree.layout_splits linked (stores.compact intact)
          (some _) stopped
        rw [stores.card] at pages
        have limit : layout.limit = 1024 := rfl
        unfold assuredRows
        omega
    refine ⟨stopped, many, ?_⟩
    rcases rows with perm | same
    · refine Or.inr ⟨each, added perm, fun _ => ?_, fun intact => ?_, fun intact => ?_⟩
      · rw [Multiset.card_cons]
        exact Nat.le_succ_of_le many
      · cases intact
      · cases intact
    · exact Or.inl same

end Stores

end MukhiDb.Model
