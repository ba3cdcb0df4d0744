import MukhiDb.BTree.PageParts

/-!
Contract: the slotted leaf page and the cells it holds.

Owns: the relation between a leaf page and its cells; reading it (count, next leaf,
free space, keys, rows, all cells); placing one more cell in it; and writing a
list of cells into a page.

Does not own: which leaf a key belongs to.
-/

namespace MukhiDb.Model

open MukhiDb.Foundation

namespace BTree

/-- The values of the layout constants, for arithmetic. -/
theorem sizes : pageSize = 4096 ∧ leafHeaderSize = 11 ∧ slotSize = 4 ∧ keySize = 8 ∧
    leafNumCellsOffset = 1 ∧ leafNextLeafOffset = 5 ∧ leafDataStartOffset = 9 ∧
    internalNumKeysOffset = 1 ∧ rightChildOffset = 5 ∧ internalHeaderSize = 9 ∧
    internalEntrySize = 12 ∧ internalMaxKeys = 340 ∧ maxPages = 1024 := by decide

/-- Bytes of cell data. -/
def dataSize (cells : List (Int64 × Bytes)) : Nat :=
  (cells.map fun cell => keySize + cell.2.length).sum

/-- Header, slots and cell data of a leaf. -/
def leafSize (cells : List (Int64 × Bytes)) : Nat :=
  leafHeaderSize + cells.length * slotSize + dataSize cells

theorem slotOffset_eq (index : Nat) : slotOffset index = 11 + index * 4 := rfl

theorem leafSize_eq (cells : List (Int64 × Bytes)) :
    leafSize cells = 11 + cells.length * 4 + dataSize cells := rfl

theorem dataSize_perm {cells others : List (Int64 × Bytes)} (same : cells.Perm others) :
    dataSize cells = dataSize others :=
  (same.map _).sum_nat

theorem dataSize_cons (cell : Int64 × Bytes) (cells : List (Int64 × Bytes)) :
    dataSize (cell :: cells) = keySize + cell.2.length + dataSize cells := by
  simp [dataSize]

theorem leafSize_place (cells : List (Int64 × Bytes)) (key : Int64) (row : Bytes) :
    leafSize (place cells key row) = leafSize cells + slotSize + keySize + row.length := by
  rw [leafSize_eq, leafSize_eq, place_length, dataSize_perm (place_perm cells key row),
    dataSize_cons]
  have := sizes
  dsimp only
  omega

/-! ### Stored cells -/

/-- Slot `index` refers to a cell whose data starts at `off`. -/
structure StoredAt (page : Page) (index off : Nat) (cell : Int64 × Bytes) : Prop where
  offset : page.number (slotOffset index) 2 = off
  length : page.number (slotOffset index + 2) 2 = keySize + cell.2.length
  inside : off + (keySize + cell.2.length) ≤ pageSize
  key : page.key off = cell.1
  row : page.part (off + keySize) cell.2.length = cell.2

/-- Every cell is stored, with its data from `dataStart` on. -/
def Stored (page : Page) (cells : List (Int64 × Bytes)) (dataStart : Nat) : Prop :=
  ∀ index (inside : index < cells.length), ∃ off, dataStart ≤ off ∧
    StoredAt page index off cells[index]

/-- A page with its cells, whose data lies from `start` on. -/
structure CellsAt (page : Page) (cells : List (Int64 × Bytes)) (start : Nat) : Prop where
  numCells : page.number leafNumCellsOffset 4 = cells.length
  dataStart : page.number leafDataStartOffset 2 = start
  slots : leafHeaderSize + cells.length * slotSize ≤ start
  inside : start ≤ pageSize
  stored : Stored page cells start

/-- A leaf page with its cells and its successor in the chain. -/
structure LeafAt (page : Page) (cells : List (Int64 × Bytes)) (next : Nat) : Prop where
  kind : page.byte 0 = nodeTypeLeaf
  numCells : page.number leafNumCellsOffset 4 = cells.length
  nextLeaf : page.number leafNextLeafOffset 4 = next
  dataStart : page.number leafDataStartOffset 2 = pageSize - dataSize cells
  fits : leafSize cells ≤ pageSize
  stored : Stored page cells (pageSize - dataSize cells)

/-- The offset in a slot. -/
def slotStart (page : Page) (index : Nat) : Nat := page.number (slotOffset index) 2

/-- The length in a slot. -/
def slotLength (page : Page) (index : Nat) : Nat := page.number (slotOffset index + 2) 2

/-- The ranges of the first slots do not overlap. -/
def SlotsApart (page : Page) (count : Nat) : Prop :=
  ∀ first second, first < count → second < count → first ≠ second →
    slotStart page first + slotLength page first ≤ slotStart page second ∨
      slotStart page second + slotLength page second ≤ slotStart page first

/-- A slot has the same range as another one with its bytes. -/
theorem slot_same {page after : Page} {index other : Nat}
    (same : after.part (slotOffset other) 4 = page.part (slotOffset index) 4) :
    slotStart after other = slotStart page index ∧ slotLength after other = slotLength page index := by
  have low (page : Page) (index : Nat) : slotStart page index =
      leValue (slice (page.part (slotOffset index) 4) 0 2) := by
    unfold Page.part
    rw [slice_slice (by omega)]
    rfl
  have high (page : Page) (index : Nat) : slotLength page index =
      leValue (slice (page.part (slotOffset index) 4) 2 2) := by
    unfold Page.part
    rw [slice_slice (by omega)]
    rfl
  rw [low, high, low, high, same]
  exact ⟨rfl, rfl⟩

/-- A cell stays stored when its slot is copied and its data stays. -/
theorem StoredAt.move {page after : Page} {index other off : Nat} {cell : Int64 × Bytes}
    (stored : StoredAt page index off cell)
    (slotSame : after.part (slotOffset other) 4 = page.part (slotOffset index) 4)
    (dataSame : ∀ start width, off ≤ start → after.part start width = page.part start width) :
    StoredAt after other off cell where
  offset := (slot_same slotSame).1.trans stored.offset
  length := (slot_same slotSame).2.trans stored.length
  inside := stored.inside
  key := by
    rw [Page.key_eq, dataSame off 8 (Nat.le_refl _)]
    exact stored.key
  row := by
    rw [dataSame _ _ (Nat.le_add_right _ _)]
    exact stored.row

/-- Slots with the same bytes stay apart, and so does one more slot whose range lies below theirs. -/
theorem SlotsApart.push {page after : Page} {count start : Nat} (apart : SlotsApart page count)
    (same : ∀ index, index < count →
      after.part (slotOffset index) 4 = page.part (slotOffset index) 4)
    (above : ∀ index, index < count → start ≤ slotStart page index)
    (below : slotStart after count + slotLength after count ≤ start) :
    SlotsApart after (count + 1) := by
  have old (index : Nat) (inside : index < count) := slot_same (same index inside)
  intro first second firstInside secondInside different
  rcases Nat.lt_succ_iff_lt_or_eq.mp firstInside with firstOld | rfl
  · rw [(old first firstOld).1, (old first firstOld).2]
    rcases Nat.lt_succ_iff_lt_or_eq.mp secondInside with secondOld | rfl
    · rw [(old second secondOld).1, (old second secondOld).2]
      exact apart first second firstOld secondOld different
    · exact Or.inr (Nat.le_trans below (above first firstOld))
  · have secondOld : second < first := by omega
    rw [(old second secondOld).1, (old second secondOld).2]
    exact Or.inl (Nat.le_trans below (above second secondOld))

/-! ### Reading a leaf -/

section Reading

variable {page : Page} {cells : List (Int64 × Bytes)} {next : Nat}

theorem LeafAt.slots (leaf : LeafAt page cells next) :
    11 + cells.length * 4 ≤ pageSize - dataSize cells ∧ dataSize cells ≤ pageSize := by
  have fits := leaf.fits
  rw [leafSize_eq] at fits
  omega

theorem LeafAt.cellsAt (leaf : LeafAt page cells next) :
    CellsAt page cells (pageSize - dataSize cells) where
  numCells := leaf.numCells
  dataStart := leaf.dataStart
  slots := leaf.slots.1
  inside := Nat.sub_le _ _
  stored := leaf.stored

theorem readSlot_ok {index off : Nat} {cell : Int64 × Bytes} (stored : StoredAt page index off cell)
    (fits : slotOffset index + 4 ≤ pageSize) :
    readSlot page index = .ok (off, keySize + cell.2.length) := by
  unfold readSlot
  dsimp only
  rw [readU16_ok (by omega), readU16_ok (by omega), stored.offset, stored.length]
  rfl

namespace CellsAt

variable {start : Nat} (filled : CellsAt page cells start)

include filled

theorem slotBelow {index : Nat} (inside : index < cells.length) :
    slotOffset index + 4 ≤ start := by
  have slots := filled.slots
  change 11 + cells.length * 4 ≤ start at slots
  rw [slotOffset_eq]
  omega

theorem slotInside {index : Nat} (inside : index < cells.length) :
    slotOffset index + 4 ≤ pageSize :=
  Nat.le_trans (filled.slotBelow inside) filled.inside

theorem leafNumCells_ok : leafNumCells page = .ok cells.length := by
  unfold leafNumCells
  rw [readU32_ok (by decide), filled.numCells]

theorem leafDataStart_ok : leafDataStart page = .ok start := by
  unfold leafDataStart
  rw [readU16_ok (by decide), filled.dataStart]

/-- The free space lies between the slots and the data. -/
theorem leafFreeSpace_ok :
    leafFreeSpace page = .ok (start - (leafHeaderSize + cells.length * slotSize)) := by
  have slots := filled.slots
  unfold leafFreeSpace
  rw [filled.leafNumCells_ok, ok_bind, filled.leafDataStart_ok, ok_bind]
  refine congrArg Except.ok ?_
  split <;> omega

theorem leafCellKey_ok {index : Nat} (inside : index < cells.length) :
    leafCellKey page index = .ok (cells[index]).1 := by
  obtain ⟨off, -, stored⟩ := filled.stored index inside
  have fits := stored.inside
  have := sizes
  unfold leafCellKey
  rw [readSlot_ok stored (filled.slotInside inside)]
  change readI64 page off = _
  rw [readI64_ok (by omega), stored.key]

theorem leafCellRow_ok {index : Nat} (inside : index < cells.length) :
    leafCellRow page index = .ok (cells[index]).2 := by
  obtain ⟨off, -, stored⟩ := filled.stored index inside
  have fits := stored.inside
  unfold leafCellRow
  rw [readSlot_ok stored (filled.slotInside inside)]
  change (if keySize + _ < keySize then _ else _) = _
  rw [if_neg (by omega), Nat.add_sub_cancel_left, Page.read_ok (by omega)]
  exact congrArg Except.ok stored.row

theorem collectLeafCells_ok : collectLeafCells page = .ok cells := by
  unfold collectLeafCells
  rw [filled.leafNumCells_ok]
  refine collectFrom_ok fun i inside => ?_
  rw [Nat.zero_add, filled.leafCellKey_ok inside, filled.leafCellRow_ok inside]
  rfl

theorem searchLeaf_ok (key : Int64) :
    searchFrom (leafCellKey page) key cells.length 0 = .ok (slot cells key) := by
  have searched := @searchFrom_ok _ (leafCellKey page) key cells 0 fun i inside => by
    rw [Nat.zero_add, filled.leafCellKey_ok inside]
  rwa [Nat.zero_add] at searched

end CellsAt

theorem leafNumCells_ok (leaf : LeafAt page cells next) : leafNumCells page = .ok cells.length :=
  leaf.cellsAt.leafNumCells_ok

theorem leafNextLeaf_ok (leaf : LeafAt page cells next) : leafNextLeaf page = .ok next := by
  unfold leafNextLeaf
  rw [readU32_ok (by decide), leaf.nextLeaf]

/-- The free space lies between the slots and the data. -/
theorem leafFreeSpace_ok (leaf : LeafAt page cells next) :
    leafFreeSpace page = .ok (pageSize - leafSize cells) := by
  rw [leaf.cellsAt.leafFreeSpace_ok]
  unfold leafSize
  rw [Nat.sub_right_comm, Nat.sub_sub]

theorem collectLeafCells_ok (leaf : LeafAt page cells next) : collectLeafCells page = .ok cells :=
  leaf.cellsAt.collectLeafCells_ok

theorem collectRows_ok (leaf : LeafAt page cells next) :
    collectFrom (leafCellRow page) cells.length 0 = .ok (cells.map Prod.snd) := by
  have collected := @collectFrom_ok _ (leafCellRow page) (cells.map Prod.snd) 0 fun i inside => by
    rw [List.length_map] at inside
    rw [Nat.zero_add, leaf.cellsAt.leafCellRow_ok inside, List.getElem_map]
  rwa [List.length_map] at collected

end Reading

/-! ### Writing slots -/

/-- The page after slot `index` was written. -/
def putSlot (page : Page) (index off len : Nat) : Page :=
  (page.put (slotOffset index) (leBytes 2 off)).put (slotOffset index + 2) (leBytes 2 len)

section Slots

variable {page : Page} {index off len : Nat}

theorem writeSlot_eq (fits : slotOffset index + 4 ≤ pageSize) :
    writeSlot page index off len = .ok (putSlot page index off len) := by
  unfold writeSlot
  dsimp only
  rw [writeU16_eq _ (by omega), ok_bind, writeU16_eq _ (by omega)]
  rfl

theorem putSlot_apart {other width : Nat}
    (apart : other + width ≤ slotOffset index ∨ slotOffset index + 4 ≤ other) :
    (putSlot page index off len).part other width = page.part other width := by
  unfold putSlot
  rw [Page.part_put_apart (by rw [leBytes_length]; omega),
    Page.part_put_apart (by rw [leBytes_length]; omega)]

theorem putSlot_low (fits : slotOffset index + 4 ≤ pageSize) :
    (putSlot page index off len).part (slotOffset index) 2 = leBytes 2 off := by
  unfold putSlot
  rw [Page.part_put_apart (Or.inl (Nat.le_refl _)),
    Page.part_put_same (by rw [leBytes_length]; omega) (leBytes_length 2 off).symm]

theorem putSlot_high (fits : slotOffset index + 4 ≤ pageSize) :
    (putSlot page index off len).part (slotOffset index + 2) 2 = leBytes 2 len := by
  unfold putSlot
  rw [Page.part_put_same (by rw [leBytes_length]; omega) (leBytes_length 2 len).symm]

/-- Shifting a slot copies it to the place above. -/
theorem slot_copies (fits : slotOffset (index + 1) + 4 ≤ pageSize) :
    CopiesUp (fun i page => do
      let (off, len) ← readSlot page i
      writeSlot page (i + 1) off len) leafHeaderSize slotSize index := by
  intro page
  have here := slotOffset_eq index
  have above := slotOffset_eq (index + 1)
  have read : readSlot page index =
      .ok (page.number (slotOffset index) 2, page.number (slotOffset index + 2) 2) := by
    unfold readSlot
    dsimp only
    rw [readU16_ok (by omega), readU16_ok (by omega)]
    rfl
  have bytes : ∀ offset, offset + 2 ≤ pageSize →
      leBytes 2 (page.number offset 2) = page.part offset 2 := by
    intro offset inside
    have size := @Page.part_length page offset 2 inside
    rw [Page.number_eq]
    have same := leBytes_leValue (page.part offset 2)
    rwa [size] at same
  refine ⟨putSlot page (index + 1) (page.number (slotOffset index) 2)
    (page.number (slotOffset index + 2) 2), ?_, ?_, fun other width apart => ?_⟩
  · dsimp only
    rw [read, ok_bind]
    exact writeSlot_eq fits
  · change (putSlot _ _ _ _).part (slotOffset (index + 1)) (2 + 2) =
      page.part (slotOffset index) (2 + 2)
    rw [Page.part_add 2 2 (by omega), Page.part_add 2 2 (by omega), putSlot_low fits,
      putSlot_high fits, bytes _ (by omega), bytes _ (by omega)]
  · refine putSlot_apart ?_
    have start : leafHeaderSize + (index + 1) * slotSize = slotOffset (index + 1) := rfl
    have stop : leafHeaderSize + (index + 2) * slotSize = slotOffset (index + 1) + 4 := by
      change 11 + (index + 2) * 4 = _
      omega
    omega

end Slots

/-! ### Writing cells -/

/-- The page after a cell was written: its data from `off` on, and slot `index`. -/
def putCell (page : Page) (index off : Nat) (cell : Int64 × Bytes) : Page :=
  putSlot ((page.put off (i64Bytes cell.1)).put (off + keySize) cell.2) index off
    (keySize + cell.2.length)

section Cells

variable {page : Page} {index off : Nat} {cell : Int64 × Bytes}

theorem putCell_apart {other width : Nat}
    (slotApart : other + width ≤ slotOffset index ∨ slotOffset index + 4 ≤ other)
    (dataApart : other + width ≤ off ∨ off + (keySize + cell.2.length) ≤ other) :
    (putCell page index off cell).part other width = page.part other width := by
  have := sizes
  unfold putCell
  rw [putSlot_apart slotApart, Page.part_put_apart (by omega),
    Page.part_put_apart (by rw [i64Bytes_length]; omega)]

/-- A cell that was written is stored. -/
theorem putCell_stored (below : slotOffset index + 4 ≤ off)
    (inside : off + (keySize + cell.2.length) ≤ pageSize) :
    StoredAt (putCell page index off cell) index off cell := by
  have := sizes
  have small : pageSize < 256 ^ 2 := by decide
  refine ⟨?_, ?_, inside, ?_, ?_⟩
  · unfold putCell
    rw [Page.number_eq, putSlot_low (by omega), leValue_leBytes_of_lt (by omega)]
  · unfold putCell
    rw [Page.number_eq, putSlot_high (by omega), leValue_leBytes_of_lt (by omega)]
  · unfold putCell
    rw [Page.key_eq, putSlot_apart (by omega), Page.part_put_apart (by omega), ← Page.key_eq,
      key_put_same (by omega)]
  · unfold putCell
    rw [putSlot_apart (by omega), Page.part_put_same (by omega) rfl]

/-- Other cells stay stored when a cell is written below their data. -/
theorem StoredAt.putCell {other start : Nat} {old : Int64 × Bytes}
    (stored : StoredAt page other start old) (different : other ≠ index)
    (below : off + (keySize + cell.2.length) ≤ start) (slotBelow : slotOffset other + 4 ≤ off)
    (dataAbove : slotOffset index + 4 ≤ off) :
    StoredAt (putCell page index off cell) other start old := by
  have here := slotOffset_eq index
  have there := slotOffset_eq other
  refine stored.move (putCell_apart (by omega) (by omega)) fun at_ width above => ?_
  exact putCell_apart (by omega) (by omega)

end Cells

section Placing

variable {page : Page} {cells : List (Int64 × Bytes)} {next : Nat}

/-- The slots of a leaf after a place for a new one was made. -/
theorem shiftSlots_ok {count start : Nat} (fits : slotOffset (start + count) + 4 ≤ pageSize)
    (page : Page) :
    ∃ after, forDown (fun i page => do
        let (off, len) ← readSlot page i
        writeSlot page (i + 1) off len) start count page = .ok after ∧
      (∀ i, start ≤ i → i < start + count →
        after.part (slotOffset (i + 1)) 4 = page.part (slotOffset i) 4) ∧
      ∀ other width, other + width ≤ slotOffset (start + 1) ∨ slotOffset (start + count + 1) ≤ other →
        after.part other width = page.part other width := by
  refine forDown_shift (fun i above below => slot_copies ?_) page
  have here := slotOffset_eq (i + 1)
  have last := slotOffset_eq (start + count)
  omega

/-- What placing a cell at slot `pos` does to a page with `count` cells whose data starts at
`start`: its data lies right below, the slots from `pos` on have moved one place up, and the other
bytes are kept. -/
structure Placed (page after : Page) (count pos start : Nat) (cell : Int64 × Bytes) : Prop where
  numCells : after.number leafNumCellsOffset 4 = count + 1
  dataStart : after.number leafDataStartOffset 2 = start - (keySize + cell.2.length)
  own : StoredAt after pos (start - (keySize + cell.2.length)) cell
  moved : ∀ index, index < count →
    after.part (slotOffset (if index < pos then index else index + 1)) 4 =
      page.part (slotOffset index) 4
  kept : ∀ other width, (other + width ≤ leafNumCellsOffset ∨
      (leafNextLeafOffset ≤ other ∧ other + width ≤ leafDataStartOffset) ∨ start ≤ other) →
    after.part other width = page.part other width

/-- A page with room takes one more cell at the slot of its key. -/
theorem addCell_placed {start : Nat} (filled : CellsAt page cells start) (key : Int64) (row : Bytes)
    (room : slotOffset cells.length + 4 + (keySize + row.length) ≤ start) :
    ∃ after, addCell key row page = .ok after ∧
      Placed page after cells.length (slot cells key) start (key, row) := by
  have sizes := sizes
  have inside := filled.inside
  have positioned := slot_le cells key
  have searched := filled.searchLeaf_ok key
  generalize slot cells key = pos at *
  have whole : pos + (cells.length - pos) = cells.length := by omega
  have lastSlot := slotOffset_eq cells.length
  have posSlot := slotOffset_eq pos
  have nextSlot := slotOffset_eq (pos + 1)
  have lastShift := slotOffset_eq (pos + (cells.length - pos) + 1)
  obtain ⟨shifted, shift, moved, kept⟩ := @shiftSlots_ok (cells.length - pos) pos
    (by rw [whole]; omega) page
  have dataStart : leafDataStart shifted = .ok start := by
    unfold leafDataStart
    rw [readU16_ok (by omega), Page.number_eq, kept _ _ (Or.inl (by omega)), ← Page.number_eq,
      filled.dataStart]
  -- the page as the writes after the shift leave it
  generalize newStart : start - (keySize + row.length) = off at *
  refine ⟨((putCell (shifted.put leafDataStartOffset (leBytes 2 off)) pos off (key, row)).put
    leafNumCellsOffset (leBytes 4 (cells.length + 1))), ?_, ?_⟩
  · unfold addCell
    dsimp only
    rw [filled.leafNumCells_ok, ok_bind, searched, ok_bind, shift, ok_bind, dataStart, ok_bind,
      if_neg (by omega), newStart]
    unfold leafSetDataStart leafSetNumCells
    rw [writeU16_eq _ (by omega), ok_bind, writeI64_eq _ (by omega), ok_bind,
      Page.write_eq_put (by omega), ok_bind, writeSlot_eq (by omega), ok_bind,
      writeU32_eq _ (by omega)]
    rfl
  · have stored := @putCell_stored (shifted.put leafDataStartOffset (leBytes 2 off)) pos off
      (key, row) (by omega) (by dsimp only; omega)
    -- the slots that are not written last are those of the shifted page
    have slotSame : ∀ index, index ≠ pos → index ≤ cells.length →
        ((putCell (shifted.put leafDataStartOffset (leBytes 2 off)) pos off (key, row)).put
          leafNumCellsOffset (leBytes 4 (cells.length + 1))).part (slotOffset index) 4 =
        shifted.part (slotOffset index) 4 := by
      intro index different bound
      have here := slotOffset_eq index
      rw [Page.part_put_apart (by rw [leBytes_length]; omega), putCell_apart (by omega)
        (by dsimp only; omega), Page.part_put_apart (by rw [leBytes_length]; omega)]
    refine
      { numCells := number_put_same (by omega) (by omega), dataStart := ?_, own := ?_, moved := ?_
        kept := ?_ }
    · rw [Page.number_eq, Page.part_put_apart (by rw [leBytes_length]; omega),
        putCell_apart (by omega) (by dsimp only; omega), ← Page.number_eq,
        number_put_same (by omega) (by omega), newStart]
    · rw [newStart]
      refine stored.move ?_ fun at_ width above => ?_
      · exact Page.part_put_apart (by rw [leBytes_length]; omega)
      · exact Page.part_put_apart (by rw [leBytes_length]; omega)
    · intro index below
      have here := slotOffset_eq index
      split
      · next before => rw [slotSame index (by omega) (by omega), kept _ _ (by omega)]
      · next behind => rw [slotSame (index + 1) (by omega) (by omega), moved index (by omega) (by omega)]
    · intro other width apart
      rw [Page.part_put_apart (by rw [leBytes_length]; omega), putCell_apart (by omega)
        (by dsimp only; omega), Page.part_put_apart (by rw [leBytes_length]; omega),
        kept _ _ (by omega)]

/-- The entry of a placed list at the place an old one moved to. -/
theorem place_getElem_moved (key : Int64) (row : Bytes) {index : Nat}
    (inside : index < cells.length)
    (bound : (if index < slot cells key then index else index + 1) < (place cells key row).length) :
    (place cells key row)[if index < slot cells key then index else index + 1] = cells[index] := by
  have positioned := slot_le cells key
  have taken : (cells.take (slot cells key)).length = slot cells key := List.length_take_of_le positioned
  simp only [place_eq cells key row]
  split
  · next before => rw [List.getElem_append_left (by omega), List.getElem_take]
  · next behind =>
      rw [List.getElem_append_right (by omega)]
      simp only [taken]
      rw [List.getElem_cons, dif_neg (by omega), List.getElem_drop]
      congr 1
      omega

theorem place_getElem_own (key : Int64) (row : Bytes)
    (bound : slot cells key < (place cells key row).length) :
    (place cells key row)[slot cells key] = (key, row) := by
  have positioned := slot_le cells key
  have taken : (cells.take (slot cells key)).length = slot cells key := List.length_take_of_le positioned
  simp only [place_eq cells key row]
  rw [List.getElem_append_right (by omega)]
  simp [taken]

/-- The cells after one was placed. -/
theorem Placed.cellsAt {after : Page} {start : Nat} {key : Int64} {row : Bytes}
    (filled : CellsAt page cells start)
    (placed : Placed page after cells.length (slot cells key) start (key, row))
    (room : slotOffset cells.length + 4 + (keySize + row.length) ≤ start) :
    CellsAt after (place cells key row) (start - (keySize + row.length)) := by
  have total := place_length cells key row
  have positioned := slot_le cells key
  have lastSlot := slotOffset_eq cells.length
  refine
    { numCells := by rw [placed.numCells, total], dataStart := placed.dataStart, slots := ?_
      inside := Nat.le_trans (Nat.sub_le _ _) filled.inside, stored := ?_ }
  · rw [total]
    change 11 + (cells.length + 1) * 4 ≤ _
    omega
  · have oldStored : ∀ index, (inside : index < cells.length) →
        ∃ off, start - (keySize + row.length) ≤ off ∧
          StoredAt after (if index < slot cells key then index else index + 1) off cells[index] := by
      intro index inside
      obtain ⟨off, above, stored⟩ := filled.stored index inside
      exact ⟨off, by omega, stored.move (placed.moved index inside) fun other width beyond =>
        placed.kept other width (Or.inr (Or.inr (Nat.le_trans above beyond)))⟩
    intro index bound
    rcases Nat.lt_trichotomy index (slot cells key) with before | rfl | behind
    · have old := oldStored index (by omega)
      have same := place_getElem_moved key row (show index < cells.length by omega)
        (by rw [if_pos before]; exact bound)
      simp only [if_pos before] at old same
      rw [same]
      exact old
    · rw [place_getElem_own key row bound]
      exact ⟨_, Nat.le_refl _, placed.own⟩
    · have shifted : index - 1 + 1 = index := by omega
      have old := oldStored (index - 1) (by omega)
      have same := place_getElem_moved key row (show index - 1 < cells.length by omega)
        (by rw [if_neg (by omega), shifted]; exact bound)
      simp only [if_neg (show ¬ index - 1 < slot cells key by omega), shifted] at old same
      rw [same]
      exact old

/-- A leaf with room takes one more cell in front of the first cell whose key is not
below its own. -/
theorem addCell_ok (leaf : LeafAt page cells next) (key : Int64) (row : Bytes)
    (room : leafSize (place cells key row) ≤ pageSize) :
    ∃ after, addCell key row page = .ok after ∧ LeafAt after (place cells key row) next := by
  have sizes := sizes
  have grown := leafSize_place cells key row
  have size := leafSize_eq cells
  have lastSlot := slotOffset_eq cells.length
  have data : dataSize (place cells key row) = dataSize cells + (keySize + row.length) := by
    rw [dataSize_perm (place_perm cells key row), dataSize_cons]
    exact Nat.add_comm _ _
  have enough : slotOffset cells.length + 4 + (keySize + row.length) ≤ pageSize - dataSize cells := by
    omega
  obtain ⟨after, added, placed⟩ := addCell_placed leaf.cellsAt key row enough
  have filled := Placed.cellsAt leaf.cellsAt placed enough
  have start : pageSize - dataSize cells - (keySize + row.length) =
      pageSize - dataSize (place cells key row) := by omega
  rw [start] at filled
  refine ⟨after, added, ?_, filled.numCells, ?_, filled.dataStart, room, filled.stored⟩
  · rw [Page.byte_eq, placed.kept 0 1 (Or.inl (by omega)), ← Page.byte_eq, leaf.kind]
  · rw [Page.number_eq, placed.kept _ 4 (Or.inr (Or.inl (by omega))), ← Page.number_eq, leaf.nextLeaf]

end Placing

/-! ### Writing a whole leaf -/

section Whole

/-- A page after its header was initialised. -/
theorem initLeaf_ok (page : Page) :
    ∃ after, initLeaf page = .ok after ∧ after.byte 0 = nodeTypeLeaf ∧
      after.number leafNumCellsOffset 4 = 0 ∧ after.number leafNextLeafOffset 4 = 0 ∧
      after.number leafDataStartOffset 2 = pageSize := by
  have sizes := sizes
  refine ⟨(((page.put 0 [nodeTypeLeaf]).put leafNumCellsOffset (leBytes 4 0)).put leafNextLeafOffset
    (leBytes 4 0)).put leafDataStartOffset (leBytes 2 pageSize), ?_, ?_, ?_, ?_, ?_⟩
  · unfold initLeaf leafSetNumCells leafSetNextLeaf leafSetDataStart
    rw [Page.write_eq_put (by rw [List.length_singleton]; omega), ok_bind,
      writeU32_eq _ (by omega), ok_bind, writeU32_eq _ (by omega), ok_bind, writeU16_eq _ (by omega)]
  · have first := @Page.part_put_same page 0 1 [nodeTypeLeaf]
      (by rw [List.length_singleton]; omega) rfl
    rw [Page.byte_eq, Page.part_put_apart (by omega), Page.part_put_apart (by omega),
      Page.part_put_apart (by omega), first]
    rfl
  · rw [Page.number_eq, Page.part_put_apart (by omega), Page.part_put_apart (by omega),
      ← Page.number_eq, number_put_same (by omega) (by omega)]
  · rw [Page.number_eq, Page.part_put_apart (by omega), ← Page.number_eq,
      number_put_same (by omega) (by omega)]
  · rw [number_put_same (by omega) (by omega)]

/-- The loop of `write_leaf_cells` stores the remaining cells below the ones it has
stored, apart from each other, and leaves the header alone. -/
theorem writeCellsFrom_ok {written rest : List (Int64 × Bytes)} {page : Page} {start : Nat}
    (stored : Stored page written start) (apart : SlotsApart page written.length)
    (inside : start ≤ pageSize)
    (fits : 11 + (written.length + rest.length) * 4 + dataSize rest ≤ start) :
    ∃ after, writeCellsFrom rest written.length start page = .ok (after, start - dataSize rest) ∧
      Stored after (written ++ rest) (start - dataSize rest) ∧
      SlotsApart after (written ++ rest).length ∧
      ∀ other width, other + width ≤ leafHeaderSize → after.part other width = page.part other width := by
  induction rest generalizing written page start with
  | nil =>
      refine ⟨page, rfl, ?_, ?_, fun _ _ _ => rfl⟩
      · rw [List.append_nil]
        exact stored
      · rw [List.append_nil]
        exact apart
  | cons cell rest inductionHypothesis =>
      have sizes := sizes
      rw [dataSize_cons, List.length_cons] at fits
      have slotHere := slotOffset_eq written.length
      generalize placed : start - (keySize + cell.2.length) = off at *
      have own : StoredAt (putCell page written.length off cell) written.length off cell :=
        putCell_stored (by omega) (by omega)
      have next : Stored (putCell page written.length off cell) (written ++ [cell]) off := by
        intro index bound
        rw [List.length_append, List.length_singleton] at bound
        by_cases last : index = written.length
        · subst last
          rw [List.getElem_concat_length rfl]
          exact ⟨off, Nat.le_refl _, own⟩
        · obtain ⟨off', far, old⟩ := stored index (by omega)
          have slotThere := slotOffset_eq index
          refine ⟨off', by omega, ?_⟩
          rw [List.getElem_append_left (by omega)]
          exact old.putCell last (by omega) (by omega) (by omega)
      have nextApart : SlotsApart (putCell page written.length off cell) (written ++ [cell]).length := by
        rw [List.length_append, List.length_singleton]
        refine @SlotsApart.push page _ written.length start apart (fun index bound => ?_)
          (fun index bound => ?_) ?_
        · have slotThere := slotOffset_eq index
          exact putCell_apart (by omega) (by omega)
        · obtain ⟨off', far, old⟩ := stored index bound
          exact Nat.le_trans far (Nat.le_of_eq old.offset.symm)
        · have ends : slotStart _ written.length + slotLength _ written.length =
              off + (keySize + cell.2.length) := congrArg₂ (· + ·) own.offset own.length
          rw [ends]
          omega
      obtain ⟨after, run, storedAfter, apartAfter, kept⟩ := inductionHypothesis next nextApart
        (by omega) (by
          rw [List.length_append, List.length_singleton]
          omega)
      rw [List.length_append, List.length_singleton] at run
      have total : start - dataSize (cell :: rest) = off - dataSize rest := by
        rw [dataSize_cons]
        omega
      rw [total, List.append_cons]
      refine ⟨after, ?_, storedAfter, apartAfter, fun other width header => ?_⟩
      · rw [writeCellsFrom]
        dsimp only
        rw [if_neg (by omega), placed, writeI64_eq _ (by omega), ok_bind,
          Page.write_eq_put (by omega), ok_bind, writeSlot_eq (by omega), ok_bind]
        exact run
      · rw [kept other width header, putCell_apart (by omega) (by omega)]

/-- A list of cells that fits is written into a page, and read back from it. -/
theorem writeLeafCells_cellsAt {cells : List (Int64 × Bytes)} (fits : leafSize cells ≤ pageSize)
    (page : Page) :
    ∃ after, writeLeafCells cells page = .ok after ∧
      CellsAt after cells (pageSize - dataSize cells) ∧ SlotsApart after cells.length ∧
      after.byte 0 = nodeTypeLeaf ∧ after.number leafNextLeafOffset 4 = 0 := by
  have sizes := sizes
  rw [leafSize_eq] at fits
  obtain ⟨fresh, init, kind, -, nextLeaf, -⟩ := initLeaf_ok page
  have none : Stored fresh [] pageSize := fun index inside => absurd inside (Nat.not_lt_zero index)
  have noneApart : SlotsApart fresh 0 := fun index _ inside => absurd inside (Nat.not_lt_zero index)
  obtain ⟨filled, fill, stored, apart, kept⟩ := @writeCellsFrom_ok [] cells fresh pageSize none
    noneApart (Nat.le_refl _) (by rw [List.length_nil]; omega)
  -- the two counters in the header are all that is written behind the loop
  have same : ∀ other width, (other + width ≤ leafNumCellsOffset ∨ leafHeaderSize ≤ other ∨
      (leafNextLeafOffset ≤ other ∧ other + width ≤ leafDataStartOffset)) →
      ((filled.put leafNumCellsOffset (leBytes 4 cells.length)).put leafDataStartOffset
        (leBytes 2 (pageSize - dataSize cells))).part other width = filled.part other width := by
    intro other width apart
    rw [Page.part_put_apart (by rw [leBytes_length]; omega),
      Page.part_put_apart (by rw [leBytes_length]; omega)]
  have slotSame (index : Nat) := same (slotOffset index) 4
    (Or.inr (Or.inl (by rw [slotOffset_eq]; omega)))
  refine ⟨(filled.put leafNumCellsOffset (leBytes 4 cells.length)).put leafDataStartOffset
    (leBytes 2 (pageSize - dataSize cells)), ?_, ?_, ?_, ?_, ?_⟩
  · unfold writeLeafCells leafSetNumCells leafSetDataStart
    rw [init, ok_bind]
    rw [List.length_nil] at fill
    rw [fill, ok_bind]
    dsimp only
    rw [writeU32_eq _ (by omega), ok_bind, writeU16_eq _ (by omega)]
  · refine ⟨?_, number_put_same (by omega) (by omega), ?_, Nat.sub_le _ _, ?_⟩
    · rw [Page.number_eq, Page.part_put_apart (by omega), ← Page.number_eq,
        number_put_same (by omega) (by omega)]
    · change 11 + cells.length * 4 ≤ _
      omega
    · intro index inside
      obtain ⟨off, far, old⟩ := stored index inside
      exact ⟨off, far, old.move (slotSame index) fun at_ width above =>
        same at_ width (Or.inr (Or.inl (by omega)))⟩
  · intro first second firstInside secondInside different
    rw [(slot_same (slotSame first)).1, (slot_same (slotSame first)).2,
      (slot_same (slotSame second)).1, (slot_same (slotSame second)).2]
    exact apart first second firstInside secondInside different
  · rw [Page.byte_eq, same 0 1 (Or.inl (by omega)), kept _ _ (by omega), ← Page.byte_eq, kind]
  · rw [Page.number_eq, same _ 4 (Or.inr (Or.inr (by omega))), kept _ _ (by omega), ← Page.number_eq,
      nextLeaf]

/-- A list of cells that fits is a leaf once it was written with its successor. -/
theorem writeLeafCells_ok {cells : List (Int64 × Bytes)} {next : Nat}
    (fits : leafSize cells ≤ pageSize) (small : next < 2 ^ 32) (page : Page) :
    ∃ after, (do
        let page ← writeLeafCells cells page
        leafSetNextLeaf page next) = .ok after ∧ LeafAt after cells next := by
  have sizes := sizes
  obtain ⟨filled, written, filledCells, -, kind, -⟩ := writeLeafCells_cellsAt fits page
  have same : ∀ other width, (other + width ≤ leafNextLeafOffset ∨ leafDataStartOffset ≤ other) →
      (filled.put leafNextLeafOffset (leBytes 4 next)).part other width = filled.part other width :=
    fun other width apart => Page.part_put_apart (by rw [leBytes_length]; omega)
  refine ⟨filled.put leafNextLeafOffset (leBytes 4 next), ?_, ?_⟩
  · unfold leafSetNextLeaf
    rw [written, ok_bind, writeU32_eq _ (by omega)]
  · refine
      { kind := ?_, numCells := ?_, nextLeaf := number_put_same (by omega) (by omega)
        dataStart := ?_, fits := fits, stored := ?_ }
    · rw [Page.byte_eq, same 0 1 (by omega), ← Page.byte_eq, kind]
    · rw [Page.number_eq, same _ 4 (by omega), ← Page.number_eq, filledCells.numCells]
    · rw [Page.number_eq, same _ 2 (by omega), ← Page.number_eq, filledCells.dataStart]
    · intro index inside
      obtain ⟨off, far, old⟩ := filledCells.stored index inside
      have here := slotOffset_eq index
      have below := filledCells.slotBelow inside
      exact ⟨off, far, old.move (same _ _ (by omega)) fun at_ width above =>
        same at_ width (Or.inr (by omega))⟩

/-- An initialised page is an empty leaf. -/
theorem initLeaf_leafAt (page : Page) : ∃ after, initLeaf page = .ok after ∧ LeafAt after [] 0 := by
  obtain ⟨after, init, kind, numCells, nextLeaf, dataStart⟩ := initLeaf_ok page
  refine ⟨after, init, ⟨kind, numCells, nextLeaf, dataStart, by decide, ?_⟩⟩
  exact fun index inside => absurd inside (Nat.not_lt_zero index)

end Whole

end BTree

end MukhiDb.Model
