import MukhiDb.BTree.OnPager
import MukhiDb.Foundation.Separation
import MukhiDb.Pager.Opening

/-!
Contract: whole runs of `create_tree` and `insert`.

Owns: runs of insertions of rows of one length, which never overflow a leaf; the
multiset of rows that a scan returns after a run; the shape of the tree after a run
with distinct keys; and the order of the rows, which holds as long as every promoted
separator has the slot that the descent took.

Does not own: rows of different lengths.
-/

namespace MukhiDb.Model

open MukhiDb.Foundation

namespace BTree

/-- One `insert` for each cell, each on the root that the one before returned. -/
def insertAll : (root : Nat) → (cells : List (Int64 × Bytes)) → PageProgram Nat
  | root, [] => pure root
  | root, (key, row) :: rest => do insertAll (← insert root key row) rest

/-- `create_tree`, then one `insert` for each cell. -/
def build (cells : List (Int64 × Bytes)) : PageProgram Nat := do insertAll (← createTree) cells

/-! ### Rows of one length -/

section Uniform

variable {length : Nat}

theorem dataSize_uniform {cells : List (Int64 × Bytes)}
    (uniform : ∀ cell ∈ cells, cell.2.length = length) :
    dataSize cells = cells.length * (keySize + length) := by
  induction cells with
  | nil => rw [List.length_nil, Nat.zero_mul]; rfl
  | cons cell rest inductionHypothesis =>
      rw [dataSize_cons, uniform cell List.mem_cons_self,
        inductionHypothesis fun other member => uniform other (List.mem_cons_of_mem _ member),
        List.length_cons, Nat.succ_mul]
      omega

theorem splitPoint_pos {cells : List (Int64 × Bytes)} (two : 2 ≤ cells.length) :
    0 < splitPoint cells := by
  unfold splitPoint
  dsimp only
  split <;> split <;> omega

/-- A full leaf of rows of one length splits into two leaves that fit. -/
theorem splitFits_uniform {cells : List (Int64 × Bytes)} {key : Int64} {row : Bytes}
    (uniform : ∀ cell ∈ (key, row) :: cells, cell.2.length = length)
    (fits : leafSize cells ≤ pageSize) (some : cells ≠ []) : SplitFits (place cells key row) := by
  have placed := place_length cells key row
  have positive := List.length_pos_iff.mpr some
  have cut := splitPoint_pos (by omega : 2 ≤ (place cells key row).length)
  have inside := splitPoint_lt (List.ne_nil_of_length_pos (by omega : 0 < (place cells key row).length))
  have whole : ∀ cell ∈ place cells key row, cell.2.length = length :=
    fun cell member => uniform cell ((place_perm cells key row).subset member)
  -- a part with no more cells than the old leaf had fits
  have part : ∀ half : List (Int64 × Bytes), (∀ cell ∈ half, cell ∈ place cells key row) →
      half.length ≤ cells.length → leafSize half ≤ pageSize := by
    intro half known shorter
    have own := dataSize_uniform fun cell member => whole cell (known cell member)
    have old := dataSize_uniform fun cell member => uniform cell (List.mem_cons_of_mem _ member)
    have less := Nat.mul_le_mul_right (keySize + length) shorter
    rw [leafSize_eq] at fits ⊢
    omega
  constructor
  · apply part _ (fun cell member => List.mem_of_mem_take member)
    rw [List.length_take]
    omega
  · apply part _ (fun cell member => List.mem_of_mem_drop member)
    rw [List.length_drop]
    omega

end Uniform

/-- A short row always fits in an empty leaf. -/
theorem nonempty_of_full {cells : List (Int64 × Bytes)} {key : Int64} {row : Bytes}
    (short : row.length ≤ maxRowDataSize) (full : layout.room cells (key, row) = false) :
    cells ≠ [] := by
  rintro rfl
  have sizes := sizes
  have most : maxRowDataSize = 2030 := by decide
  have crowded := of_decide_eq_false full
  have empty : leafSize [] = 11 := rfl
  dsimp only at crowded
  omega

theorem short_cell {row : Bytes} (short : row.length ≤ maxRowDataSize) :
    keySize + row.length ≤ maxCellData := by
  have sizes : keySize = 8 ∧ maxRowDataSize = 2030 ∧ maxCellData = 4081 := by decide
  omega

theorem raise_chain (chain : List (Leaf Int64 Bytes)) {height : Nat}
    (promoted : Index.Promoted Int64 height) :
    (BPlusTree.raise layout chain promoted).tree.chain = chain := by
  unfold BPlusTree.raise
  cases promoted.promotion with
  | done => rfl
  | full => rfl
  | up separator right =>
      dsimp only
      split <;> rfl

/-! ### Runs on a book -/

section Runs

variable {book : List Page} {floor length : Nat}

theorem createTree_run (room : book.length < maxPages) {leaf : Page}
    (init : initLeaf Page.zero = .ok leaf) :
    createTree.run binding.store book = (.ok book.length, book ++ [leaf]) := by
  have grown : (book ++ [Page.zero]).length = book.length + 1 := by
    rw [List.length_append, List.length_singleton]
  have fresh : binding.at_ (book ++ [Page.zero]) book.length = Page.zero :=
    binding.at_of_getElem? List.getElem?_concat_length
  unfold createTree
  rw [Program.run_bind_ok (run_allocatePage room),
    Program.run_bind_ok (run_modifyPage (by omega) (by omega) (by rw [fresh]; exact init)),
    List.set_append_right _ _ (Nat.le_refl _), Nat.sub_self, List.set_cons_zero]
  rfl

theorem createTree_ok (room : book.length < maxPages) :
    ∃ after, createTree.run binding.store book = (.ok book.length, after) ∧
      after.length = book.length + 1 ∧ Held book.length after (BPlusTree.single book.length) := by
  obtain ⟨leaf, init, held⟩ := initLeaf_leafAt Page.zero
  have size : (book ++ [leaf]).length = book.length + 1 := by
    rw [List.length_append, List.length_singleton]
  refine ⟨book ++ [leaf], createTree_run room init, size, ?_⟩
  exact
    { small := by rw [size]; exact room
      linked := BPlusTree.linked_single (by omega)
      nodes := trivial
      chained := ⟨⟨leaf, List.getElem?_concat_length, held⟩, trivial⟩ }

/-- Every insertion of a run is of a short row, and every leaf that a run splits has
halves that fit. -/
def FitsRun : BPlusTree.Grown Int64 Bytes → (cells : List (Int64 × Bytes)) → Prop
  | _, [] => True
  | grown, (key, row) :: rest =>
      row.length ≤ maxRowDataSize ∧
        (layout.room (grown.tree.target key) (key, row) = false →
          SplitFits (place (grown.tree.target key) key row)) ∧
        FitsRun (grown.tree.insert layout grown.count key row) rest

/-- A run of insertions whose splits fit is the abstract run. -/
theorem insertAll_ok {grown : BPlusTree.Grown Int64 Bytes} {cells : List (Int64 × Bytes)}
    (held : Held floor book grown.tree) (count : book.length = grown.count)
    (complete : grown.complete = true) (fits : FitsRun grown cells) :
    ∃ after, (insertAll grown.tree.root cells).run binding.store book =
        (answer (BPlusTree.insertAll layout grown cells), after) ∧
      after.length = (BPlusTree.insertAll layout grown cells).count ∧
      Held floor after (BPlusTree.insertAll layout grown cells).tree := by
  induction cells generalizing grown book with
  | nil =>
      refine ⟨book, ?_, count, held⟩
      rw [BPlusTree.insertAll, answer, if_pos complete]
      rfl
  | cons cell rest inductionHypothesis =>
      obtain ⟨key, row⟩ := cell
      obtain ⟨short, splits, later⟩ := fits
      obtain ⟨middle, run, size, next⟩ := insert_ok held key (short_cell short) splits
      rw [count] at run size next
      rw [insertAll, BPlusTree.insertAll, if_pos complete]
      by_cases finished : (grown.tree.insert layout grown.count key row).complete = true
      · rw [answer, if_pos finished] at run
        rw [Program.run_bind_ok run]
        exact inductionHypothesis next size finished later
      · have stopped : BPlusTree.insertAll layout (grown.tree.insert layout grown.count key row) rest =
            grown.tree.insert layout grown.count key row := by
          cases rest with
          | nil => rfl
          | cons cell rest => exact if_neg finished
        rw [stopped]
        have failed := run
        rw [answer, if_neg finished] at failed
        rw [Program.run_bind_error failed]
        refine ⟨middle, ?_, size, next⟩
        rw [answer, if_neg finished]

/-- Everything that the leaves of a tree hold fits in pages. -/
def LeavesFit (tree : Tree) : Prop := ∀ leaf ∈ tree.chain, leafSize leaf.cells ≤ pageSize

section Leaves

variable {tree : Tree} {count : Nat}

/-- The cells of the leaf that a key is routed to. -/
theorem target_held (linked : tree.Linked layout floor count) (key : Int64) :
    (⟨tree.index.route key, tree.target key⟩ : Leaf Int64 Bytes) ∈ tree.chain := by
  obtain ⟨before, after, around, -⟩ := linked.around key
  rw [around]
  exact List.mem_append_right _ List.mem_cons_self

theorem target_subset (linked : tree.Linked layout floor count) (key : Int64) :
    ∀ cell ∈ tree.target key, cell ∈ tree.rows :=
  fun _ member => List.mem_flatMap.mpr ⟨_, target_held linked key, member⟩

theorem insert_rows_subset (linked : tree.Linked layout floor count) (key : Int64) (row : Bytes) :
    ∀ cell ∈ (tree.insert layout count key row).tree.rows, cell ∈ (key, row) :: tree.rows := by
  intro cell member
  rcases BPlusTree.insert_rows layout_splits linked key row with added | stopped
  · exact added.subset member
  · rw [stopped] at member
    exact List.mem_cons_of_mem _ member

/-- An insertion whose split fits keeps everything in pages. -/
theorem insert_leavesFit (linked : tree.Linked layout floor count) (old : LeavesFit tree)
    {key : Int64} {row : Bytes}
    (fits : layout.room (tree.target key) (key, row) = false →
      SplitFits (place (tree.target key) key row)) :
    LeavesFit (tree.insert layout count key row).tree := by
  obtain ⟨before, after, around, retarget⟩ := linked.around key
  -- the other leaves of the chain are old ones
  have others : ∀ leaves : List (Leaf Int64 Bytes),
      (∀ leaf ∈ leaves, leafSize leaf.cells ≤ pageSize) →
      ∀ leaf ∈ tree.retarget key leaves, leafSize leaf.cells ≤ pageSize := by
    intro leaves new leaf member
    rw [retarget] at member
    rcases List.mem_append.mp member with inner | right
    · rcases List.mem_append.mp inner with left | changed
      · exact old leaf (around ▸ List.mem_append_left _ left)
      · exact new leaf changed
    · exact old leaf (around ▸ List.mem_append_right _ (List.mem_cons_of_mem _ right))
  rcases BPlusTree.insert_cases layout_splits tree count key row with
    ⟨room, run⟩ | ⟨-, -, run⟩ | ⟨full, -, left, separator, first, later, cells, cut, run⟩
  · rw [run]
    apply others
    intro leaf member
    obtain rfl := List.mem_singleton.mp member
    rw [leafSize_place]
    exact of_decide_eq_true room
  · rw [run]
    exact old
  · have halves := fits full
    have kept : (place (tree.target key) key row).take (splitPoint (place (tree.target key) key row)) =
        left := by
      rw [show splitPoint (place (tree.target key) key row) = left.length from cut.symm, cells,
        List.take_left]
    have moved : (place (tree.target key) key row).drop
        (splitPoint (place (tree.target key) key row)) = (separator, first) :: later := by
      rw [show splitPoint (place (tree.target key) key row) = left.length from cut.symm, cells,
        List.drop_left]
    have leftFits := halves.left
    have rightFits := halves.right
    rw [kept] at leftFits
    rw [moved] at rightFits
    rw [run]
    unfold LeavesFit
    rw [raise_chain]
    apply others
    intro leaf member
    rcases List.mem_pair.mp member with rfl | rfl
    · exact leftFits
    · exact rightFits

/-- A run of insertions of rows of one length splits leaves into halves that fit. -/
theorem fitsRun_uniform {length : Nat} {grown : BPlusTree.Grown Int64 Bytes}
    {cells : List (Int64 × Bytes)} (linked : grown.tree.Linked layout floor grown.count)
    (old : LeavesFit grown.tree)
    (uniform : ∀ cell ∈ cells ++ grown.tree.rows, cell.2.length = length)
    (short : length ≤ maxRowDataSize) : FitsRun grown cells := by
  induction cells generalizing grown with
  | nil => trivial
  | cons cell rest inductionHypothesis =>
      obtain ⟨key, row⟩ := cell
      have rowLength : row.length = length := uniform (key, row) List.mem_cons_self
      have shortRow : row.length ≤ maxRowDataSize := rowLength ▸ short
      have fits : layout.room (grown.tree.target key) (key, row) = false →
          SplitFits (place (grown.tree.target key) key row) := by
        intro full
        have shared : ∀ other ∈ (key, row) :: grown.tree.target key, other.2.length = length := by
          intro other member
          rcases List.mem_cons.mp member with rfl | inside
          · exact rowLength
          · exact uniform other (List.mem_append_right _ (target_subset linked key other inside))
        exact splitFits_uniform shared (old _ (target_held linked key))
          (nonempty_of_full shortRow full)
      refine ⟨shortRow, fits, ?_⟩
      apply inductionHypothesis (BPlusTree.insert_linked layout_splits linked key row)
        (insert_leavesFit linked old fits)
      intro other member
      apply uniform other
      rcases List.mem_append.mp member with later | inside
      · exact List.mem_append_left _ (List.mem_cons_of_mem _ later)
      · rcases List.mem_cons.mp (insert_rows_subset linked key row other inside) with rfl | before
        · exact List.mem_append_left _ List.mem_cons_self
        · exact List.mem_append_right _ before

end Leaves

end Runs

/-! ### Runs on a pager -/

/-- What a run leaves that starts with `count` pages in use. -/
def grownFrom (count : Nat) (cells : List (Int64 × Bytes)) : BPlusTree.Grown Int64 Bytes :=
  BPlusTree.insertAll layout ⟨BPlusTree.single count, count + 1, true⟩ cells

/-- A run from an empty tree whose splits fit. -/
def FitsFrom (count : Nat) (cells : List (Int64 × Bytes)) : Prop :=
  FitsRun ⟨BPlusTree.single count, count + 1, true⟩ cells

theorem linked_start (count : Nat) :
    (BPlusTree.single count : Tree).Linked layout count (count + 1) :=
  BPlusTree.linked_single (Nat.lt_succ_self count)

theorem grownFrom_rows {count : Nat} {cells : List (Int64 × Bytes)}
    (complete : (grownFrom count cells).complete = true) :
    (grownFrom count cells).tree.rows.Perm cells := by
  have rows : (grownFrom count cells).tree.rows.Perm
      (cells ++ (BPlusTree.single count : Tree).rows) :=
    @BPlusTree.insertAll_rows _ _ _ layout count layout_splits
      ⟨BPlusTree.single count, count + 1, true⟩ cells (linked_start count) complete
  have none : (BPlusTree.single count : Tree).rows = [] := rfl
  rwa [none, List.append_nil] at rows

section OnPager

variable {state after : PagerIo} {cells : List (Int64 × Bytes)} {length root : Nat}

/-- Rows of one length never overflow a leaf. -/
theorem fitsFrom_uniform (count : Nat) (uniform : ∀ cell ∈ cells, cell.2.length = length)
    (short : length ≤ maxRowDataSize) : FitsFrom count cells := by
  have none : (BPlusTree.single count : Tree).rows = [] := rfl
  apply fitsRun_uniform (linked_start count)
  · intro leaf member
    obtain rfl := List.mem_singleton.mp member
    exact (by decide : leafSize [] ≤ pageSize)
  · rw [none, List.append_nil]
    exact uniform
  · exact short

/-- A run on a sound pager is the abstract run. -/
theorem build_runs (sound : state.Sound) (room : state.count < maxPages)
    (fits : FitsFrom state.count cells) :
    ∃ after book, Pager.perform (build cells) state = (answer (grownFrom state.count cells), after) ∧
      PagerIo.Shows state after book ∧ book.length = (grownFrom state.count cells).count ∧
      Held state.count book (grownFrom state.count cells).tree := by
  obtain ⟨middle, create, size, start⟩ := createTree_ok (by rw [PagerIo.book_length]; exact room)
  rw [PagerIo.book_length] at create size start
  obtain ⟨book, run, count, held⟩ := @insertAll_ok middle state.count
    ⟨BPlusTree.single state.count, state.count + 1, true⟩ cells start size rfl fits
  have whole : (build cells).run binding.store state.book =
      (answer (grownFrom state.count cells), book) := by
    unfold build
    rw [Program.run_bind_ok create]
    exact run
  obtain ⟨after, performed, shows⟩ := PagerIo.perform_shows (PagerIo.shows_book sound) whole (by
    unfold answer
    split <;> simp)
  exact ⟨after, book, performed, shows, count, held⟩

/-- What a run means that returned `Ok` throughout. -/
theorem build_ok (sound : state.Sound) (fits : FitsFrom state.count cells)
    (built : Pager.perform (build cells) state = (.ok root, after)) :
    ∃ book, PagerIo.Shows state after book ∧
      Held state.count book (grownFrom state.count cells).tree ∧
      (grownFrom state.count cells).complete = true ∧
      root = (grownFrom state.count cells).tree.root := by
  have room : state.count < maxPages := by
    by_contra full
    have refused := PagerIo.allocatePage_full sound (Nat.le_of_not_lt full)
    have stopped : Pager.perform (build cells) state =
        (.error (.error (Pager.pageLimitMessage state.count)), state) := by
      unfold Pager.perform build createTree
      apply Program.run_bind_error
      apply Program.run_bind_error
      exact (Program.run_extend Pager.store state).trans refused
    rw [stopped] at built
    cases (Prod.mk.inj built).1
  obtain ⟨reached, book, run, shows, -, held⟩ := build_runs sound room fits
  rw [built] at run
  obtain ⟨outcome, rfl⟩ := Prod.mk.inj run
  unfold answer at outcome
  split at outcome
  case isTrue complete =>
    exact ⟨book, shows, held, complete, Except.ok.inj outcome⟩
  case isFalse stopped =>
    contradiction

end OnPager

/-! ### Runs on a new file -/

/-- A pager that was opened on an empty file. -/
def newFile : PagerIo := ⟨Pager.fresh 0, ⟨[], []⟩, []⟩

theorem newFile_sound : newFile.Sound where
  coherent := @Pager.fresh_coherent ⟨[], []⟩ rfl []
  quiet := rfl
  noGap := fun _ gap => absurd gap.2.1 (Nat.not_lt_zero _)
  counted := Nat.two_pow_pos 32

/-- The longest row, filled with one byte. -/
def marked (mark : UInt8) : Bytes := List.replicate maxRowDataSize mark

theorem marked_head (mark : UInt8) : (marked mark).head? = some mark := by
  rw [marked, List.head?_replicate, if_neg (by decide)]

/-- A longest row for each key and mark. -/
def markedCells (keys : List (Int64 × UInt8)) : List (Int64 × Bytes) :=
  keys.map fun key => (key.1, marked key.2)

theorem marked_length (keys : List (Int64 × UInt8)) :
    ∀ cell ∈ markedCells keys, cell.2.length = maxRowDataSize := by
  intro cell member
  obtain ⟨key, -, rfl⟩ := List.mem_map.mp member
  exact List.length_replicate

/-- Keys whose second split promotes 5 into a root that has the separator 5. -/
def crossedKeys : List (Int64 × UInt8) := [(5, 1), (5, 2), (5, 3), (6, 4), (7, 5)]

/-- One key, whose splits promote it into a root that has it as a separator. -/
def repeatedKeys : List (Int64 × UInt8) := [(5, 1), (5, 2), (5, 3), (5, 4), (5, 5)]

/-- Small runs of the longest rows: none is stopped, and the crossed keys leave the row of 7 in
front of a row of 5. -/
theorem markedRuns :
    (∀ keys ∈ [[(5, 1), (5, 2), (5, 3)], [(3, 1), (2, 2), (1, 3)], repeatedKeys, crossedKeys],
      (grownFrom 0 (markedCells keys)).complete = true) ∧
    ((grownFrom 0 (markedCells crossedKeys)).tree.rows.map fun cell => cell.2.head?) =
      [some 3, some 2, some 5, some 1, some 4] := by
  decide +kernel

/-- A complete run of the longest rows on a new file. -/
theorem newFile_built (keys : List (Int64 × UInt8))
    (complete : (grownFrom 0 (markedCells keys)).complete = true) :
    ∃ root after, Pager.perform (build (markedCells keys)) newFile =
      (.ok root, after) := by
  obtain ⟨after, book, run, -⟩ := build_runs newFile_sound (by decide)
    (fitsFrom_uniform newFile.count (marked_length keys) (Nat.le_refl _))
  have returned : answer (grownFrom newFile.count (markedCells keys)) =
      .ok (grownFrom 0 (markedCells keys)).tree.root := if_pos complete
  exact ⟨_, after, run.trans (by rw [returned])⟩

/-! ### Scans and shape -/

section Claims

variable {state after : PagerIo} {cells : List (Int64 × Bytes)} {length root : Nat}

/-- After a run of insertions of rows of one length, a scan ends and returns exactly the
inserted rows. -/
theorem scanAll_rows (sound : state.Sound) (uniform : ∀ cell ∈ cells, cell.2.length = length)
    (short : length ≤ maxRowDataSize)
    (built : Pager.perform (build cells) state = (.ok root, after)) :
    ∃ rows final, Pager.perform (scanAll root) after = (.ok rows, final) ∧
      rows.Perm (cells.map Prod.snd) := by
  obtain ⟨book, shows, held, complete, rfl⟩ := build_ok sound (fitsFrom_uniform state.count uniform short) built
  obtain ⟨final, scanned, -⟩ := PagerIo.perform_shows shows (scanAll_ok held) (by simp)
  exact ⟨_, final, scanned, (grownFrom_rows complete).map Prod.snd⟩

/-- The three longest rows under one key, which split the first leaf. -/
theorem scanAll_rows_repeated :
    ∃ root after, Pager.perform (build (markedCells [(5, 1), (5, 2), (5, 3)])) newFile = (.ok root, after) ∧
      ∃ rows final, Pager.perform (scanAll root) after = (.ok rows, final) ∧
        rows.Perm [marked 1, marked 2, marked 3] := by
  obtain ⟨root, after, built⟩ := newFile_built [(5, 1), (5, 2), (5, 3)] (markedRuns.1 _ (by simp))
  exact ⟨root, after, built, scanAll_rows newFile_sound (marked_length _) (Nat.le_refl _) built⟩

/-- The pages of a book form a well-formed tree under a root: all leaves are at one depth,
every branch has between one and `internal_max_keys` separators, which increase strictly
and part the keys below it, no page occurs twice, and the leaves from left to right are
the chain, which ends in 0. -/
def WellFormed (book : List Page) (root : Nat) : Prop :=
  ∃ tree : Tree, tree.root = root ∧ tree.index.Nodes (NodeIn book) ∧ Chained book tree.chain 0 ∧
    tree.index.Sized internalMaxKeys ∧ tree.index.Separated tree.keysAt ∧ tree.pages.Nodup ∧
    tree.index.leaves = Leaf.pages tree.chain

/-- After a run of insertions with distinct keys, the pages form a well-formed tree. -/
theorem build_wellFormed (sound : state.Sound) (uniform : ∀ cell ∈ cells, cell.2.length = length)
    (short : length ≤ maxRowDataSize) (distinct : (cells.map Prod.fst).Nodup)
    (built : Pager.perform (build cells) state = (.ok root, after)) : WellFormed after.book root := by
  obtain ⟨book, shows, held, complete, rfl⟩ := build_ok sound (fitsFrom_uniform state.count uniform short) built
  rw [shows.book]
  have cuts : ∀ cell ∈ cells, ∀ held, layout.room held cell = false →
      0 < layout.cut (place held cell.1 cell.2) := by
    intro cell member others full
    have some := nonempty_of_full (by rw [uniform cell member]; exact short) full
    have positive := List.length_pos_iff.mpr some
    apply splitPoint_pos
    rw [place_length]
    omega
  have none : (BPlusTree.single state.count : Tree).rows = [] := rfl
  obtain ⟨row, arranged, headed⟩ := BPlusTree.insertAll_distinct layout_splits cuts
    (linked_start state.count) (BPlusTree.arranged_single state.count) (fun _ member => by cases member)
    (by rw [none, List.append_nil]; exact distinct) complete
  have keys : ((grownFrom state.count cells).tree.rows.map Prod.fst).Nodup :=
    ((grownFrom_rows complete).map Prod.fst).nodup_iff.mpr distinct
  exact ⟨_, rfl, held.nodes, held.chained, held.linked.sized,
    arranged.separated held.linked headed keys, held.linked.distinct, arranged.leaves⟩

/-- Three longest rows under decreasing keys, which split the first leaf. -/
theorem build_wellFormed_decreasing :
    ∃ root after, Pager.perform (build (markedCells [(3, 1), (2, 2), (1, 3)])) newFile = (.ok root, after) ∧ WellFormed after.book root := by
  obtain ⟨root, after, built⟩ := newFile_built [(3, 1), (2, 2), (1, 3)] (markedRuns.1 _ (by simp))
  have distinct : (markedCells [(3, 1), (2, 2), (1, 3)]).map Prod.fst = [3, 2, 1] := rfl
  exact ⟨root, after, built, build_wellFormed newFile_sound (marked_length _) (Nat.le_refl _)
    (by rw [distinct]; decide) built⟩

/-- Rows are in the order of the keys that they were inserted with. -/
def InKeyOrder (cells : List (Int64 × Bytes)) (rows : List Bytes) : Prop :=
  ∃ keyed : List (Int64 × Bytes), keyed.Perm cells ∧ keyed.map Prod.snd = rows ∧
    (keyed.map Prod.fst).Pairwise (· ≤ ·)

/-- After a run of insertions in which every promoted separator has the slot that the
descent took, a scan returns the rows in key order. -/
theorem scanAll_inKeyOrder (sound : state.Sound)
    (uniform : ∀ cell ∈ cells, cell.2.length = length) (short : length ≤ maxRowDataSize)
    (aligned : BPlusTree.AlignedRun layout
      ⟨BPlusTree.single state.count, state.count + 1, true⟩ cells)
    (built : Pager.perform (build cells) state = (.ok root, after)) :
    ∃ rows final, Pager.perform (scanAll root) after = (.ok rows, final) ∧
      InKeyOrder cells rows := by
  obtain ⟨book, shows, held, complete, rfl⟩ := build_ok sound (fitsFrom_uniform state.count uniform short) built
  obtain ⟨final, scanned, -⟩ := PagerIo.perform_shows shows (scanAll_ok held) (by simp)
  obtain ⟨row, arranged⟩ := BPlusTree.insertAll_arranged layout_splits (linked_start state.count)
    (BPlusTree.arranged_single state.count) aligned complete
  exact ⟨_, final, scanned, _, grownFrom_rows complete, rfl, arranged.rows_sorted⟩

/-- Five longest rows under one key: each split but the first promotes a separator into a root that
has an equal one. -/
theorem scanAll_inKeyOrder_repeated :
    ∃ root after, Pager.perform (build (markedCells repeatedKeys)) newFile = (.ok root, after) ∧
      ∃ rows final, Pager.perform (scanAll root) after = (.ok rows, final) ∧
        InKeyOrder (markedCells repeatedKeys) rows := by
  obtain ⟨root, after, built⟩ := newFile_built repeatedKeys (markedRuns.1 _ (by simp))
  have aligned : BPlusTree.AlignedRun layout
      ⟨BPlusTree.single newFile.count, newFile.count + 1, true⟩ (markedCells repeatedKeys) := by
    decide +kernel
  exact ⟨root, after, built,
    scanAll_inKeyOrder newFile_sound (marked_length _) (Nat.le_refl _) aligned built⟩

/-- The longest rows under the keys 5, 5, 5, 6 and 7: the second split puts its separator in
front of the slot that the descent took, and a scan returns the row of 7 before a row of 5. -/
theorem scanAll_outOfOrder :
    ∃ root after, Pager.perform (build (markedCells crossedKeys)) newFile = (.ok root, after) ∧
      ∃ rows final, Pager.perform (scanAll root) after = (.ok rows, final) ∧
        ¬ InKeyOrder (markedCells crossedKeys) rows := by
  have complete : (grownFrom 0 (markedCells crossedKeys)).complete = true :=
    markedRuns.1 _ (by simp)
  have order := markedRuns.2
  obtain ⟨root, after, built⟩ := newFile_built crossedKeys complete
  obtain ⟨book, shows, held, -, rootIs⟩ := build_ok newFile_sound
    (fitsFrom_uniform newFile.count (marked_length crossedKeys) (Nat.le_refl _)) built
  obtain ⟨final, scanned, -⟩ := PagerIo.perform_shows shows (scanAll_ok held) (by simp)
  rw [← rootIs] at scanned
  refine ⟨root, after, built, _, final, scanned, ?_⟩
  rintro ⟨keyed, same, rows, sorted⟩
  -- a mark tells the key of its row
  have heads : keyed.map (fun cell => cell.2.head?) =
      [some 3, some 2, some 5, some 1, some 4] := by
    have mapped := congrArg (List.map List.head?) rows
    rw [List.map_map, List.map_map] at mapped
    exact mapped.trans order
  have keyOf : ∀ cell ∈ keyed, (cell.2.head? = some 5 → cell.1 = 7) ∧
      (cell.2.head? = some 1 → cell.1 = 5) := by
    intro cell member
    obtain ⟨key, inside, rfl⟩ := List.mem_map.mp (same.subset member)
    rw [marked_head]
    have known : ∀ key ∈ crossedKeys, (some key.2 = some 5 → key.1 = 7) ∧
        (some key.2 = some 1 → key.1 = 5) := by simp [crossedKeys]
    exact known key inside
  obtain ⟨first, rest, rfl, -, heads⟩ := List.map_eq_cons_iff.mp heads
  obtain ⟨second, rest, rfl, -, heads⟩ := List.map_eq_cons_iff.mp heads
  obtain ⟨third, rest, rfl, thirdHead, heads⟩ := List.map_eq_cons_iff.mp heads
  obtain ⟨fourth, rest, rfl, fourthHead, heads⟩ := List.map_eq_cons_iff.mp heads
  have seven := (keyOf third (by simp)).1 thirdHead
  have five := (keyOf fourth (by simp)).2 fourthHead
  have inOrder : third.1 ≤ fourth.1 := by
    simp only [List.map_cons, List.pairwise_cons, List.mem_cons] at sorted
    exact sorted.2.2.1 fourth.1 (Or.inl rfl)
  rw [seven, five] at inOrder
  exact absurd inOrder (by decide)

end Claims

end BTree

end MukhiDb.Model
