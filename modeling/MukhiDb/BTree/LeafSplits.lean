import MukhiDb.BTree.Runs

/-!
Contract: where `split_leaf` cuts a leaf of short rows of any lengths.

Owns: the cell at which the running total of bytes first passes half of the total,
which is where the cut goes; the exact condition under which both parts fit in a
page; runs of insertions whose splits all meet it; and a leaf that is split into a
part that does not fit.

Does not own: what a part that does not fit leaves in a page.
-/

namespace MukhiDb.Model

open MukhiDb.Foundation

namespace BTree

/-- The bytes that cells take, their slots included. -/
def costs (cells : List (Int64 × Bytes)) : Nat := (cells.map cellCost).sum

/-- The bytes of a leaf page that cells can use. -/
def leafRoom : Nat := pageSize - leafHeaderSize

/-- The running total first passes half of the total at `cell`, which has `before` in
front of it. The first cell of a leaf always counts as in front. -/
structure Crosses (cells before : List (Int64 × Bytes)) (cell : Int64 × Bytes) : Prop where
  some : before ≠ []
  below : before.length = 1 ∨ costs before ≤ costs cells / 2
  above : costs cells / 2 < costs before + cellCost cell

/-- The cells in front of the one at which the running total passes half of the total leave
no more than a page for the rest. -/
def CrossesLate (cells : List (Int64 × Bytes)) : Prop :=
  ∃ before cell after, cells = before ++ cell :: after ∧ Crosses cells before cell ∧
    costs cells ≤ costs before + leafRoom

instance (cells before : List (Int64 × Bytes)) (cell : Int64 × Bytes) :
    Decidable (Crosses cells before cell) :=
  decidable_of_iff (before ≠ [] ∧ (before.length = 1 ∨ costs before ≤ costs cells / 2) ∧
      costs cells / 2 < costs before + cellCost cell)
    ⟨fun ⟨nonempty, below, above⟩ => ⟨nonempty, below, above⟩,
      fun ⟨nonempty, below, above⟩ => ⟨nonempty, below, above⟩⟩

instance (cells : List (Int64 × Bytes)) : Decidable (CrossesLate cells) :=
  decidable_of_iff (∃ index : Fin cells.length, Crosses cells (cells.take index) (cells.get index) ∧
      costs cells ≤ costs (cells.take index) + leafRoom)
    ⟨fun ⟨index, crosses, late⟩ =>
        ⟨cells.take index, cells.get index, cells.drop (index + 1), by
          rw [List.get_eq_getElem, List.getElem_cons_drop, List.take_append_drop], crosses, late⟩,
      fun ⟨before, cell, after, whole, crosses, late⟩ => by
        subst whole
        refine ⟨⟨before.length, by simp⟩, ?_⟩
        rw [List.take_left, List.get_eq_getElem, List.getElem_append_right (Nat.le_refl _)]
        simpa using ⟨crosses, late⟩⟩

/-! ### Where the cut goes -/

section Cut

variable {cells before other after : List (Int64 × Bytes)} {cell : Int64 × Bytes}

theorem costs_append (cells others : List (Int64 × Bytes)) :
    costs (cells ++ others) = costs cells + costs others := by
  unfold costs
  rw [List.map_append, List.sum_append]

theorem costs_cons (cell : Int64 × Bytes) (cells : List (Int64 × Bytes)) :
    costs (cell :: cells) = cellCost cell + costs cells := by
  unfold costs
  rw [List.map_cons, List.sum_cons]

theorem cellCost_eq (cell : Int64 × Bytes) : cellCost cell = 12 + cell.2.length := rfl

theorem leafSize_costs (cells : List (Int64 × Bytes)) : leafSize cells = 11 + costs cells := by
  rw [leafSize_eq]
  induction cells with
  | nil => rfl
  | cons cell rest inductionHypothesis =>
      have sizes := sizes
      rw [dataSize_cons, costs_cons, cellCost_eq, List.length_cons]
      omega

/-- The loop of `split_leaf` stops at a cell that passes `half`, and passed none before. -/
theorem countLeft_ok (half : Nat) (before rest : List (Int64 × Bytes)) :
    ∃ front back, rest = front ++ back ∧
      countLeft half rest before.length (costs before) = before.length + front.length ∧
      (∀ cell after, back = cell :: after →
        half < costs (before ++ front) + cellCost cell ∧ before ++ front ≠ []) ∧
      ∀ start cell later, front = start ++ cell :: later →
        before ++ start = [] ∨ costs (before ++ start) + cellCost cell ≤ half := by
  induction rest generalizing before with
  | nil =>
      refine ⟨[], [], rfl, rfl, ?_, ?_⟩
      · intro cell after none
        cases none
      · intro start cell later none
        exact absurd none (by simp)
  | cons cell rest inductionHypothesis =>
      rw [countLeft]
      by_cases stop : half < costs before + cellCost cell ∧ 0 < before.length
      · rw [if_pos stop]
        refine ⟨[], cell :: rest, rfl, rfl, ?_, ?_⟩
        · intro other after same
          obtain ⟨rfl, rfl⟩ := List.cons.inj same
          rw [List.append_nil]
          exact ⟨stop.1, List.ne_nil_of_length_pos stop.2⟩
        · intro start other later none
          exact absurd none (by simp)
      · rw [if_neg stop]
        obtain ⟨front, back, whole, count, passed, kept⟩ := inductionHypothesis (before ++ [cell])
        have step : costs (before ++ [cell]) = costs before + cellCost cell := by
          rw [costs_append, costs_cons]
          rfl
        rw [List.length_append, List.length_singleton, step] at count
        refine ⟨cell :: front, back, by rw [whole]; rfl, ?_, ?_, ?_⟩
        · rw [count, List.length_cons]
          omega
        · intro other after same
          have next := passed other after same
          rwa [List.append_assoc] at next
        · intro start other later same
          cases start with
          | nil =>
              obtain ⟨rfl, -⟩ := List.cons.inj same
              rw [List.append_nil]
              by_cases none : before = []
              · exact Or.inl none
              · have positive := List.length_pos_iff.mpr none
                exact Or.inr (by omega)
          | cons first start =>
              obtain ⟨rfl, rfl⟩ := List.cons.inj same
              have next := kept start other later rfl
              rwa [List.append_assoc] at next

/-- The cut goes in front of the cell at which the running total passes half. -/
theorem splitPoint_crosses (two : 2 ≤ cells.length) :
    ∃ before cell after, cells = before ++ cell :: after ∧
      before.length = splitPoint cells ∧ Crosses cells before cell := by
  obtain ⟨front, back, whole, count, passed, kept⟩ := countLeft_ok (costs cells / 2) [] cells
  rw [List.length_nil, Nat.zero_add] at count
  -- some cell is behind the cut, and the cut is not at the start
  cases back with
  | nil =>
      rw [List.append_nil] at whole
      obtain ⟨start, last, rfl⟩ : ∃ start last, cells = start ++ [last] :=
        ⟨cells.dropLast, cells.getLast (List.ne_nil_of_length_pos (by omega)),
          (List.dropLast_append_getLast _).symm⟩
      rcases kept start last [] whole.symm with none | within
      · rw [List.nil_append] at none
        rw [none] at two
        contradiction
      · have total : costs (start ++ [last]) = costs start + cellCost last := by
          rw [costs_append, costs_cons]
          rfl
        have positive := cellCost_eq last
        rw [List.nil_append, total] at within
        omega
  | cons cell after =>
      obtain ⟨above, some⟩ := passed cell after rfl
      rw [List.nil_append] at above some
      have positive := List.length_pos_iff.mpr some
      have size := congrArg List.length whole
      rw [List.length_append, List.length_cons] at size
      refine ⟨front, cell, after, whole, ?_, some, ?_, above⟩
      · have point : splitPoint cells = front.length := by
          unfold splitPoint
          dsimp only
          rw [show ((cells.map cellCost).sum / 2) = costs cells / 2 from rfl,
            show countLeft (costs cells / 2) cells 0 0 = front.length from count,
            if_neg (Nat.ne_of_gt positive), if_neg (by omega)]
        exact point.symm
      · obtain ⟨start, last, rfl⟩ : ∃ start last, front = start ++ [last] :=
          ⟨front.dropLast, front.getLast some, (List.dropLast_append_getLast _).symm⟩
        rcases kept start last [] rfl with none | within
        · rw [List.nil_append] at none
          rw [none]
          exact Or.inl rfl
        · rw [List.nil_append] at within
          rw [costs_append, costs_cons]
          exact Or.inr within

/-- The running total passes half at one cell only. -/
theorem Crosses.unique {otherCell : Int64 × Bytes} {otherAfter : List (Int64 × Bytes)}
    (crosses : Crosses cells before cell) (whole : cells = before ++ cell :: after)
    (crosses' : Crosses cells other otherCell) (whole' : cells = other ++ otherCell :: otherAfter) :
    before = other := by
  -- of two different cuts the later one has the crossing cell of the earlier one in front
  have ahead : ∀ {first second : List (Int64 × Bytes)} {one two : Int64 × Bytes}
      {restOne restTwo : List (Int64 × Bytes)}, Crosses cells first one → Crosses cells second two →
      cells = first ++ one :: restOne → cells = second ++ two :: restTwo →
      ¬ first.length < second.length := by
    intro first second one two restOne restTwo early late wholeOne wholeTwo shorter
    obtain ⟨more, start⟩ : ∃ more, second = first ++ one :: more := by
      rcases List.append_eq_append_iff.mp (wholeOne.symm.trans wholeTwo) with
        ⟨middle, longer, tails⟩ | ⟨middle, longer, -⟩
      · cases middle with
        | nil =>
            rw [longer, List.append_nil] at shorter
            exact absurd shorter (Nat.lt_irrefl _)
        | cons head rest =>
            obtain ⟨rfl, -⟩ := List.cons.inj tails
            exact ⟨rest, longer⟩
      · rw [longer, List.length_append] at shorter
        omega
    have total : costs second = costs first + (cellCost one + costs more) := by
      rw [start, costs_append, costs_cons]
    have positive := List.length_pos_iff.mpr early.some
    have above := early.above
    rcases late.below with single | within
    · omega
    · omega
  have same : before.length = other.length := by
    have one := ahead crosses crosses' whole whole'
    have two := ahead crosses' crosses whole' whole
    omega
  exact (List.append_inj (whole.symm.trans whole') same).1

end Cut

/-! ### Both parts fit -/

section Fit

variable {cells : List (Int64 × Bytes)} {key : Int64} {row : Bytes}

/-- The two parts of a split, by the cell at the cut. -/
theorem split_parts (two : 2 ≤ (place cells key row).length) :
    ∃ before cell after, place cells key row = before ++ cell :: after ∧
      Crosses (place cells key row) before cell ∧
      (place cells key row).take (splitPoint (place cells key row)) = before ∧
      (place cells key row).drop (splitPoint (place cells key row)) = cell :: after := by
  obtain ⟨before, cell, after, whole, cut, crosses⟩ := splitPoint_crosses two
  refine ⟨before, cell, after, whole, crosses, ?_, ?_⟩
  · rw [← cut, whole, List.take_left]
  · rw [← cut, whole, List.drop_left]

theorem two_of_full (shortRow : row.length ≤ maxRowDataSize)
    (full : layout.room cells (key, row) = false) : 2 ≤ (place cells key row).length := by
  have some := List.length_pos_iff.mpr (nonempty_of_full shortRow full)
  rw [place_length]
  omega

/-- The parts of a full leaf of short rows fit exactly when the cut is late enough. -/
theorem splitFits_iff (held : leafSize cells ≤ pageSize)
    (short : ∀ cell ∈ cells, cell.2.length ≤ maxRowDataSize)
    (shortRow : row.length ≤ maxRowDataSize) (full : layout.room cells (key, row) = false) :
    SplitFits (place cells key row) ↔ CrossesLate (place cells key row) := by
  obtain ⟨before, cell, after, whole, crosses, low, high⟩ := split_parts (two_of_full shortRow full)
  have sizes : pageSize = 4096 ∧ leafRoom = 4085 ∧ maxRowDataSize = 2030 ∧ slotSize = 4 ∧
      keySize = 8 := by decide
  have total : costs (place cells key row) = costs before + costs (cell :: after) := by
    rw [← costs_append, ← whole]
  have right : SplitFits (place cells key row) ↔
      costs (place cells key row) ≤ costs before + leafRoom := by
    have grown := leafSize_place cells key row
    rw [leafSize_costs] at grown
    have left : leafSize before ≤ pageSize := by
      rw [leafSize_costs]
      rcases crosses.below with single | within
      · obtain ⟨only, rfl⟩ := List.length_eq_one_iff.mp single
        have member : only ∈ place cells key row := by
          rw [whole]
          exact List.mem_append_left _ (List.mem_singleton.mpr rfl)
        have bound : only.2.length ≤ maxRowDataSize := by
          rcases List.mem_cons.mp ((place_perm cells key row).subset member) with rfl | old
          · exact shortRow
          · exact short only old
        rw [costs_cons, cellCost_eq, show costs [] = 0 from rfl]
        omega
      · omega
    constructor
    · intro fits
      have most := fits.right
      rw [high, leafSize_costs] at most
      omega
    · intro late
      refine ⟨by rw [low]; exact left, ?_⟩
      rw [high, leafSize_costs]
      omega
  rw [right]
  constructor
  · exact fun late => ⟨before, cell, after, whole, crosses, late⟩
  · rintro ⟨other, otherCell, otherAfter, whole', crosses', late⟩
    rwa [crosses.unique whole crosses' whole']

/-- `split_leaf` of a page cuts its cells and a new one into two parts that are not empty,
and leaves each in a page of its own. -/
structure Divides (book : List Page) (page : Nat) (cells : List (Int64 × Bytes)) (next : Nat)
    (key : Int64) (row : Bytes) : Prop where
  left : (place cells key row).take (splitPoint (place cells key row)) ≠ []
  right : (place cells key row).drop (splitPoint (place cells key row)) ≠ []
  fits : SplitFits (place cells key row)
  written : ∃ separator low high,
    LeafAt low ((place cells key row).take (splitPoint (place cells key row))) book.length ∧
    LeafAt high ((place cells key row).drop (splitPoint (place cells key row))) next ∧
    (splitLeaf page key row).run binding.store book =
      if book.length < maxPages then
        (.ok (separator, book.length), book.set page low ++ [high])
      else (.error (.error (Pager.pageLimitMessage book.length)), book)

theorem divides_iff {book : List Page} {page next : Nat} (small : book.length ≤ maxPages)
    (leaf : LeafIn book page cells next) (smallNext : next < 2 ^ 32)
    (short : ∀ cell ∈ cells, cell.2.length ≤ maxRowDataSize)
    (shortRow : row.length ≤ maxRowDataSize) (full : layout.room cells (key, row) = false) :
    Divides book page cells next key row ↔ CrossesLate (place cells key row) := by
  rw [← splitFits_iff (at_of_leafIn leaf).fits short shortRow full]
  refine ⟨Divides.fits, fun fits => ?_⟩
  obtain ⟨before, ⟨separator, first⟩, after, whole, crosses, low, high⟩ :=
    split_parts (two_of_full shortRow full)
  have cut : before.length = splitPoint (place cells key row) := by
    rw [← low, List.length_take]
    exact Nat.min_eq_left (Nat.le_of_lt (splitPoint_lt (by rw [whole]; simp)))
  obtain ⟨left, right, leftLeaf, rightLeaf, run⟩ := splitLeaf_ok small leaf smallNext whole cut fits
  exact
    { left := by rw [low]; exact crosses.some
      right := by rw [high]; exact List.cons_ne_nil _ _
      fits := fits
      written := ⟨separator, left, right, by rw [low]; exact leftLeaf,
        by rw [high]; exact rightLeaf, run⟩ }

end Fit

/-! ### Runs -/

/-- The cells of the leaf that an insertion of a key goes in. -/
def targetCells (rootPage : Nat) (key : Int64) : PageProgram (List (Int64 × Bytes)) := do
  let (cur, _) ← descend key (maxPages + 1) rootPage []
  let page ← getPage cur
  collectLeafCells page

theorem run_targetCells {floor : Nat} {book : List Page} {tree : Tree} (held : Held floor book tree)
    (key : Int64) :
    (targetCells tree.root key).run binding.store book = (.ok (tree.target key), book) := by
  obtain ⟨before, after, -, -, leaf, -⟩ := held.target key
  have descent := descend_ok held.nodes held.branches held.leaves key
    (Nat.lt_succ_of_lt held.bounds.1) []
  have load := @run_getPage book (tree.index.route key)
    (Nat.lt_of_lt_of_le leaf.inside held.small)
  unfold targetCells BPlusTree.root
  rw [Program.run_bind_ok descent]
  dsimp only
  rw [Program.run_bind_ok load]
  exact congrArg (·, book) (collectLeafCells_ok (at_of_leafIn leaf))

/-- Every insertion of a run is of a short row, and every split of a run is cut late
enough. -/
def LateRun : BPlusTree.Grown Int64 Bytes → (cells : List (Int64 × Bytes)) → Prop
  | _, [] => True
  | grown, (key, row) :: rest =>
      row.length ≤ maxRowDataSize ∧
        (layout.room (grown.tree.target key) (key, row) = false →
          CrossesLate (place (grown.tree.target key) key row)) ∧
        LateRun (grown.tree.insert layout grown.count key row) rest

instance decidableLateRun : (grown : BPlusTree.Grown Int64 Bytes) →
    (cells : List (Int64 × Bytes)) → Decidable (LateRun grown cells)
  | _, [] => isTrue trivial
  | grown, (key, row) :: rest =>
      have := decidableLateRun (grown.tree.insert layout grown.count key row) rest
      inferInstanceAs (Decidable (_ ∧ (_ → _) ∧ _))

theorem LateRun.fits {floor : Nat} {grown : BPlusTree.Grown Int64 Bytes}
    {cells : List (Int64 × Bytes)} (late : LateRun grown cells)
    (linked : grown.tree.Linked layout floor grown.count) (old : LeavesFit grown.tree)
    (short : ∀ cell ∈ grown.tree.rows, cell.2.length ≤ maxRowDataSize) : FitsRun grown cells := by
  induction cells generalizing grown with
  | nil => trivial
  | cons cell rest inductionHypothesis =>
      obtain ⟨key, row⟩ := cell
      obtain ⟨shortRow, now, later⟩ := late
      have fits : layout.room (grown.tree.target key) (key, row) = false →
          SplitFits (place (grown.tree.target key) key row) := by
        intro full
        apply (splitFits_iff (old _ (target_held linked key)) _ shortRow full).mpr (now full)
        exact fun cell member => short cell (target_subset linked key cell member)
      refine ⟨shortRow, fits, inductionHypothesis later
        (BPlusTree.insert_linked layout_splits linked key row)
        (insert_leavesFit linked old fits) ?_⟩
      intro cell member
      rcases List.mem_cons.mp (insert_rows_subset linked key row cell member) with rfl | before
      · exact shortRow
      · exact short cell before

theorem LateRun.short {grown : BPlusTree.Grown Int64 Bytes} {cells : List (Int64 × Bytes)}
    (late : LateRun grown cells) : ∀ cell ∈ cells, cell.2.length ≤ maxRowDataSize := by
  induction cells generalizing grown with
  | nil => exact fun cell member => by cases member
  | cons head rest inductionHypothesis =>
      obtain ⟨shortRow, -, later⟩ := late
      intro cell member
      rcases List.mem_cons.mp member with rfl | inside
      · exact shortRow
      · exact inductionHypothesis later cell inside

/-- After a run of insertions of short rows whose splits were all cut late enough, the next
split of any leaf divides it into two parts that fit exactly when it is cut late enough. -/
theorem build_divides_iff {state after : PagerIo} {cells : List (Int64 × Bytes)} {root : Nat}
    (sound : state.Sound)
    (late : LateRun ⟨BPlusTree.single state.count, state.count + 1, true⟩ cells)
    (built : Pager.perform (build cells) state = (.ok root, after)) :
    ∃ tree : Tree, tree.root = root ∧ Held state.count after.book tree ∧
      ∀ leaf ∈ tree.chain, ∃ next, LeafIn after.book leaf.page leaf.cells next ∧
        ∀ key row, row.length ≤ maxRowDataSize → layout.room leaf.cells (key, row) = false →
          (Divides after.book leaf.page leaf.cells next key row ↔
            CrossesLate (place leaf.cells key row)) := by
  have fits : FitsFrom state.count cells := by
    apply late.fits (linked_start state.count)
    · intro leaf member
      obtain rfl := List.mem_singleton.mp member
      exact (by decide : leafSize [] ≤ pageSize)
    · exact fun cell member => by cases member
  obtain ⟨book, shows, held, complete, rfl⟩ := build_ok sound fits built
  rw [shows.book]
  refine ⟨_, rfl, held, fun leaf member => ?_⟩
  obtain ⟨before, behind, around⟩ := List.append_of_mem member
  have chained := held.chained
  rw [around] at chained
  obtain ⟨-, inBook, -⟩ := chained_append.mp chained
  have smallNext : nextOf behind 0 < 2 ^ 32 := by
    cases behind with
    | nil => exact Nat.two_pow_pos 32
    | cons other rest =>
        have limit : maxPages < 2 ^ 32 := by decide
        have inPages : other.page ∈ (grownFrom state.count cells).tree.pages := by
          apply List.mem_append_right
          rw [around]
          simp [Leaf.pages]
        exact Nat.lt_trans (held.inside inPages).2 limit
  refine ⟨_, inBook, fun key row shortRow full => ?_⟩
  apply divides_iff held.small inBook smallNext _ shortRow full
  intro cell inside
  apply late.short cell
  exact (grownFrom_rows complete).subset (List.mem_flatMap.mpr ⟨leaf, member, inside⟩)

/-- Three longest rows, of which the last splits the first leaf. -/
theorem build_divides_iff_split :
    ∃ root after, Pager.perform (build (markedCells [(5, 1), (5, 2), (5, 3)])) newFile =
        (.ok root, after) ∧
      ∃ tree : Tree, tree.root = root ∧ Held 0 after.book tree ∧
        ∀ leaf ∈ tree.chain, ∃ next, LeafIn after.book leaf.page leaf.cells next ∧
          ∀ key row, row.length ≤ maxRowDataSize → layout.room leaf.cells (key, row) = false →
            (Divides after.book leaf.page leaf.cells next key row ↔
              CrossesLate (place leaf.cells key row)) := by
  obtain ⟨root, after, built⟩ := newFile_built [(5, 1), (5, 2), (5, 3)] (markedRuns.1 _ (by simp))
  have late : LateRun ⟨BPlusTree.single newFile.count, newFile.count + 1, true⟩
      (markedCells [(5, 1), (5, 2), (5, 3)]) := by
    decide +kernel
  exact ⟨root, after, built, build_divides_iff newFile_sound late built⟩

/-! ### A part that does not fit -/

/-- Cells that need more bytes than are left make the write panic. -/
theorem writeCellsFrom_panics {rest : List (Int64 × Bytes)} {index start : Nat} {page : Page}
    (under : start < dataSize rest) : writeCellsFrom rest index start page = .error .panic := by
  have written : ∀ (page : Page) (offset : Nat) (data : Bytes),
      page.write offset data = .error .panic ∨ ∃ after, page.write offset data = .ok after := by
    intro page offset data
    unfold Page.write
    split
    · exact Or.inr ⟨_, rfl⟩
    · exact Or.inl rfl
  induction rest generalizing index start page with
  | nil => exact absurd under (Nat.not_lt_zero _)
  | cons cell rest inductionHypothesis =>
      rw [dataSize_cons] at under
      rw [writeCellsFrom]
      dsimp only
      split
      · rfl
      · have later : start - (keySize + cell.2.length) < dataSize rest := by omega
        rcases written page (start - (keySize + cell.2.length)) (i64Bytes cell.1) with
          stop | ⟨keyed, run⟩
        · rw [writeI64, stop]
          rfl
        rw [writeI64, run, ok_bind]
        rcases written keyed (start - (keySize + cell.2.length) + keySize) cell.2 with
          stop | ⟨filled, run⟩
        · rw [stop]
          rfl
        rw [run, ok_bind, writeSlot]
        rcases written filled (slotOffset index) (leBytes 2 (start - (keySize + cell.2.length))) with
          stop | ⟨placed, run⟩
        · rw [writeU16, stop]
          rfl
        rw [writeU16, run, ok_bind]
        rcases written placed (slotOffset index + 2) (leBytes 2 (keySize + cell.2.length)) with
          stop | ⟨slotted, run⟩
        · rw [writeU16, stop]
          rfl
        rw [writeU16, run, ok_bind]
        exact inductionHypothesis later

theorem writeLeafCells_panics {cells : List (Int64 × Bytes)} (tooLong : pageSize < dataSize cells)
    (page : Page) : writeLeafCells cells page = .error .panic := by
  obtain ⟨fresh, init, -⟩ := initLeaf_ok page
  unfold writeLeafCells
  rw [init, ok_bind, writeCellsFrom_panics tooLong]
  rfl

/-- A split whose right part needs more bytes than a page has panics. -/
theorem splitLeaf_panics {book : List Page} {page next : Nat} {cells : List (Int64 × Bytes)}
    {key : Int64} {row : Bytes} (room : book.length < maxPages) (leaf : LeafIn book page cells next)
    (left : leafSize ((place cells key row).take (splitPoint (place cells key row))) ≤ pageSize)
    (tooLong : pageSize < dataSize ((place cells key row).drop (splitPoint (place cells key row)))) :
    ∃ after, (splitLeaf page key row).run binding.store book = (.error .panic, after) := by
  have held := at_of_leafIn leaf
  have inside := leaf.inside
  have limit : maxPages < 2 ^ 32 := by decide
  obtain ⟨low, writeLow, -⟩ := @writeLeafCells_ok _ book.length left (by omega)
    (binding.at_ book page)
  have load := @run_getPage book page (Nat.lt_trans inside room)
  have grown : (book ++ [Page.zero]).length = book.length + 1 := by
    rw [List.length_append, List.length_singleton]
  have old : binding.at_ (book ++ [Page.zero]) page = binding.at_ book page :=
    binding.at_of_getElem?
      (by rw [List.getElem?_append_left inside, binding.getElem?_of_lt inside])
  have same : ((book ++ [Page.zero]).set page low).length = book.length + 1 := by
    rw [List.length_set, grown]
  refine ⟨(book ++ [Page.zero]).set page low, ?_⟩
  unfold splitLeaf
  rw [Program.run_bind_ok load, Program.run_lift_ok (collectLeafCells_ok held)]
  dsimp only
  rw [insertIdx_slot, Program.run_bind_ok load, Program.run_lift_ok (leafNextLeaf_ok held),
    Program.run_bind_ok (run_allocatePage room),
    Program.run_bind_ok (run_modifyPage (by omega) (by omega) (by rw [old]; exact writeLow))]
  apply Program.run_bind_error
  apply Binding.run_update_error (Nat.lt_of_lt_of_le room (Nat.le_refl _)) (by omega)
  rw [writeLeafCells_panics tooLong]
  rfl

/-- Rows of 1010, 2030 and 1009 bytes fill a leaf to its last byte. -/
def lopsided : List (Int64 × Bytes) :=
  [(1, List.replicate 1010 1), (2, List.replicate 2030 2), (3, List.replicate 1009 3)]

/-- The tree after three insertions is one leaf, and its cells with one more do not fit in two. -/
theorem lopsided_sizes :
    (grownFrom 0 lopsided).complete = true ∧ (grownFrom 0 lopsided).tree.root = 0 ∧
      (grownFrom 0 lopsided).tree.chain = [⟨0, lopsided⟩] ∧ (grownFrom 0 lopsided).count = 1 ∧
      layout.room lopsided (4, marked 4) = false ∧
      leafSize ((place lopsided 4 (marked 4)).take
        (splitPoint (place lopsided 4 (marked 4)))) ≤ pageSize ∧
      pageSize < dataSize ((place lopsided 4 (marked 4)).drop
        (splitPoint (place lopsided 4 (marked 4)))) ∧
      ¬ leafSize ((place lopsided 4 (marked 4)).drop
        (splitPoint (place lopsided 4 (marked 4)))) ≤ pageSize := by
  decide +kernel

/-- The cut in front of the second of four rows leaves 5105 bytes for the right part: the
fourth insertion panics. -/
theorem split_overflows :
    ∃ after next, Pager.perform (build lopsided) newFile = (.ok 0, after) ∧
      LeafIn after.book 0 lopsided next ∧ layout.room lopsided (4, marked 4) = false ∧
      ¬ Divides after.book 0 lopsided next 4 (marked 4) ∧
      ∃ final, Pager.perform (insert 0 4 (marked 4)) after = (.error .panic, final) := by
  obtain ⟨complete, root, chain, count, full, left, tooLong, tooLarge⟩ := lopsided_sizes
  have fits : FitsFrom 0 lopsided :=
    ⟨by decide +kernel, fun full => absurd full (by decide +kernel), by decide +kernel,
      fun full => absurd full (by decide +kernel), by decide +kernel,
      fun full => absurd full (by decide +kernel), trivial⟩
  obtain ⟨after, book, run, shows, size, held⟩ := build_runs newFile_sound (by decide) fits
  rw [show newFile.count = 0 from rfl] at run size held
  generalize grownFrom 0 lopsided = grown at *
  rw [answer, if_pos complete, root] at run
  have leaf : LeafIn book 0 lopsided 0 := by
    have chained := held.chained
    rw [chain] at chained
    exact chained.1
  have only := target_held held.linked 4
  rw [chain] at only
  obtain ⟨route, target⟩ := Leaf.mk.inj (List.mem_singleton.mp only)
  have start := insert_start held 4 (short_cell (Nat.le_of_eq (marked_length [(4, 4)] _
    List.mem_cons_self)))
  rw [root, route, target, if_neg (by rw [full]; exact Bool.false_ne_true)] at start
  obtain ⟨stopped, panics⟩ := splitLeaf_panics (by rw [size, count]; decide) leaf left tooLong
  rw [Program.run_bind_error panics] at start
  obtain ⟨final, performed, -⟩ := PagerIo.perform_shows shows start (by simp)
  exact ⟨after, 0, run, shows.book ▸ leaf, full, fun divides => tooLarge divides.fits.right,
    final, performed⟩

end BTree

end MukhiDb.Model
