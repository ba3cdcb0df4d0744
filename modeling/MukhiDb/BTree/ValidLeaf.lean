import MukhiDb.BTree.LeafPage

/-!
Contract: leaf pages whose slots and cell data are laid out soundly, whatever their order.

Owns: validity of a leaf page, and the cells that a valid page has; that placing a cell
where there is room keeps a page valid and every other cell where it is; and that the
cells written into a page in one go are read back from a valid page.

Does not own: splitting a full leaf, and the tree around it.
-/

namespace MukhiDb.Model

open MukhiDb.Foundation

namespace BTree

/-- The number of cells in the header. -/
def cellCount (page : Page) : Nat := page.number leafNumCellsOffset 4

/-- Where the cell data starts, by the header. -/
def dataStartOf (page : Page) : Nat := page.number leafDataStartOffset 2

/-- The slot directory ends before the data, and the ranges of the slots lie in the data, are long
enough for a key, and do not overlap. -/
structure ValidLeaf (page : Page) : Prop where
  slots : leafHeaderSize + cellCount page * slotSize ≤ dataStartOf page
  dataStart : dataStartOf page ≤ pageSize
  inside : ∀ index, index < cellCount page →
    dataStartOf page ≤ slotStart page index ∧
      slotStart page index + slotLength page index ≤ pageSize
  long : ∀ index, index < cellCount page → keySize ≤ slotLength page index
  apart : SlotsApart page (cellCount page)

/-- The bytes that a slot refers to. -/
def cellBytes (page : Page) (index : Nat) : Bytes :=
  page.part (slotStart page index) (slotLength page index)

/-- The key and the row that a slot refers to. -/
def cellOf (page : Page) (index : Nat) : Int64 × Bytes :=
  (page.key (slotStart page index),
    page.part (slotStart page index + keySize) (slotLength page index - keySize))

/-- The cells of a page, by its slots. -/
def cellsOf (page : Page) : List (Int64 × Bytes) := (List.range (cellCount page)).map (cellOf page)

section Valid

variable {page : Page}

@[simp] theorem cellsOf_length (page : Page) : (cellsOf page).length = cellCount page := by
  simp [cellsOf]

theorem ValidLeaf.storedAt (valid : ValidLeaf page) {index : Nat} (inside : index < cellCount page) :
    StoredAt page index (slotStart page index) (cellOf page index) := by
  have ends := (valid.inside index inside).2
  have long := valid.long index inside
  have width : (cellOf page index).2.length = slotLength page index - keySize :=
    Page.part_length (by omega)
  refine ⟨rfl, ?_, by rw [width]; omega, rfl, by rw [width]; rfl⟩
  rw [width, Nat.add_sub_cancel' long]
  rfl

/-- A valid page has the cells its slots refer to. -/
theorem ValidLeaf.cellsAt (valid : ValidLeaf page) :
    CellsAt page (cellsOf page) (dataStartOf page) where
  numCells := (cellsOf_length page).symm
  dataStart := rfl
  slots := by
    rw [cellsOf_length]
    exact valid.slots
  inside := valid.dataStart
  stored index inside := by
    rw [cellsOf_length] at inside
    have same : (cellsOf page)[index] = cellOf page index := by simp [cellsOf]
    exact ⟨_, (valid.inside index inside).1, same ▸ valid.storedAt inside⟩

/-- Cells whose slots are apart make a valid page. -/
theorem CellsAt.valid {cells : List (Int64 × Bytes)} {start : Nat} (filled : CellsAt page cells start)
    (apart : SlotsApart page cells.length) : ValidLeaf page := by
  have count : cellCount page = cells.length := filled.numCells
  have dataStart : dataStartOf page = start := filled.dataStart
  have bounds : ∀ index, index < cells.length → start ≤ slotStart page index ∧
      slotStart page index + slotLength page index ≤ pageSize ∧
        keySize ≤ slotLength page index := by
    intro index inside
    obtain ⟨off, above, stored⟩ := filled.stored index inside
    have offset : slotStart page index = off := stored.offset
    have length : slotLength page index = keySize + (cells[index]).2.length := stored.length
    rw [offset, length]
    exact ⟨above, stored.inside, Nat.le_add_right _ _⟩
  refine ⟨?_, ?_, ?_, ?_, ?_⟩
  · rw [count, dataStart]
    exact filled.slots
  · rw [dataStart]
    exact filled.inside
  · rw [count, dataStart]
    exact fun index inside => ⟨(bounds index inside).1, (bounds index inside).2.1⟩
  · rw [count]
    exact fun index inside => (bounds index inside).2.2
  · rw [count]
    exact apart

end Valid

/-! ### Placing one cell -/

section Placing

variable {page after : Page} {pos : Nat} {cell : Int64 × Bytes}

/-- The place that an old cell has among the slots after one was placed. -/
def movedTo (pos index : Nat) : Nat := if index < pos then index else index + 1

/-- Every slot behind the placing is the new one or an old one that has moved. -/
theorem slot_cases {count index : Nat} (positioned : pos ≤ count) (inside : index < count + 1) :
    index = pos ∨ ∃ old, old < count ∧ index = movedTo pos old := by
  rcases Nat.lt_trichotomy index pos with before | same | behind
  · exact Or.inr ⟨index, by omega, (if_pos before).symm⟩
  · exact Or.inl same
  · refine Or.inr ⟨index - 1, by omega, ?_⟩
    unfold movedTo
    rw [if_neg (by omega)]
    omega

/-- The slots are still apart after a cell was placed below the data. -/
theorem Placed.slotsApart (valid : ValidLeaf page) (positioned : pos ≤ cellCount page)
    (room : keySize + cell.2.length ≤ dataStartOf page)
    (placed : Placed page after (cellCount page) pos (dataStartOf page) cell) :
    SlotsApart after (cellCount page + 1) := by
  have old (index : Nat) (inside : index < cellCount page) :
      slotStart after (movedTo pos index) = slotStart page index ∧
        slotLength after (movedTo pos index) = slotLength page index :=
    slot_same (placed.moved index inside)
  have own : slotStart after pos + slotLength after pos = dataStartOf page := by
    have ends : slotStart after pos + slotLength after pos =
        dataStartOf page - (keySize + cell.2.length) + (keySize + cell.2.length) :=
      congrArg₂ (· + ·) placed.own.offset placed.own.length
    omega
  intro first second firstInside secondInside different
  rcases slot_cases positioned firstInside with rfl | ⟨firstOld, firstBound, rfl⟩
  · rcases slot_cases positioned secondInside with rfl | ⟨secondOld, secondBound, rfl⟩
    · exact absurd rfl different
    · rw [own, (old secondOld secondBound).1]
      exact Or.inl (valid.inside secondOld secondBound).1
  · rw [(old firstOld firstBound).1, (old firstOld firstBound).2]
    rcases slot_cases positioned secondInside with rfl | ⟨secondOld, secondBound, rfl⟩
    · rw [own]
      exact Or.inr (valid.inside firstOld firstBound).1
    · rw [(old secondOld secondBound).1, (old secondOld secondBound).2]
      exact valid.apart firstOld secondOld firstBound secondBound
        fun same => different (congrArg (movedTo pos) same)

/-- The slot of an old cell, and the bytes it refers to, are what they were. -/
def Unmoved (page after : Page) (pos index : Nat) : Prop :=
  slotStart after (movedTo pos index) = slotStart page index ∧
    slotLength after (movedTo pos index) = slotLength page index ∧
    cellBytes after (movedTo pos index) = cellBytes page index

theorem Placed.unmoved (valid : ValidLeaf page)
    (placed : Placed page after (cellCount page) pos (dataStartOf page) cell) {index : Nat}
    (inside : index < cellCount page) : Unmoved page after pos index := by
  have same := slot_same (placed.moved index inside)
  refine ⟨same.1, same.2, ?_⟩
  unfold cellBytes
  change after.part (slotStart after (if index < pos then index else index + 1))
    (slotLength after (if index < pos then index else index + 1)) = _
  rw [same.1, same.2]
  exact placed.kept _ _ (Or.inr (Or.inr (valid.inside index inside).1))

/-- Placing a cell where there is room. -/
theorem addCell_valid (valid : ValidLeaf page) (key : Int64) (row : Bytes) {free : Nat}
    (space : leafFreeSpace page = .ok free) (room : slotSize + keySize + row.length ≤ free) :
    ∃ after, addCell key row page = .ok after ∧ ValidLeaf after ∧
      collectLeafCells after = .ok (place (cellsOf page) key row) ∧
      leafNextLeaf after = leafNextLeaf page ∧
      ∀ index, index < cellCount page → Unmoved page after (slot (cellsOf page) key) index := by
  have sizes := sizes
  have filled := valid.cellsAt
  have measured := filled.leafFreeSpace_ok
  rw [space, cellsOf_length] at measured
  obtain rfl := Except.ok.inj measured
  have lastSlot := slotOffset_eq (cellCount page)
  have directory : cellCount page * slotSize = cellCount page * 4 := rfl
  have enough : slotOffset (cellsOf page).length + 4 + (keySize + row.length) ≤ dataStartOf page := by
    rw [cellsOf_length]
    omega
  have positioned := slot_le (cellsOf page) key
  obtain ⟨after, added, placed⟩ := addCell_placed filled key row enough
  have placedCells := Placed.cellsAt filled placed enough
  rw [cellsOf_length] at placed positioned
  have apart := placed.slotsApart valid positioned (by dsimp only; omega)
  refine ⟨after, added, placedCells.valid ?_, placedCells.collectLeafCells_ok, ?_,
    fun index inside => placed.unmoved valid inside⟩
  · rw [place_length, cellsOf_length]
    exact apart
  · unfold leafNextLeaf
    rw [readU32_ok (by omega), readU32_ok (by omega), Page.number_eq,
      placed.kept _ 4 (Or.inr (Or.inl (by omega))), ← Page.number_eq]

end Placing

/-- Header, slots and data of cells, summed up cell by cell. -/
theorem leafSize_sum (cells : List (Int64 × Bytes)) :
    leafHeaderSize + (cells.map cellCost).sum = leafSize cells := by
  induction cells with
  | nil => rfl
  | cons cell rest inductionHypothesis =>
      rw [leafSize_eq] at inductionHypothesis ⊢
      rw [List.map_cons, List.sum_cons, dataSize_cons, List.length_cons]
      have cost : cellCost cell = slotSize + keySize + cell.2.length := rfl
      have := sizes
      omega

/-- Both writers of leaf cells leave a valid page with the cells they were given: the one that
places a cell where there is room keeps the next leaf and every other cell; the one that writes a
list that fits is read back. -/
theorem leafWriters_valid :
    (∀ (page : Page) (key : Int64) (row : Bytes) (free : Nat), ValidLeaf page →
      leafFreeSpace page = .ok free → slotSize + keySize + row.length ≤ free →
      ∃ cells after, collectLeafCells page = .ok cells ∧ addCell key row page = .ok after ∧
        ValidLeaf after ∧ collectLeafCells after = .ok (place cells key row) ∧
        leafNextLeaf after = leafNextLeaf page ∧
        ∀ index, index < cells.length → Unmoved page after (slot cells key) index) ∧
    ∀ (cells : List (Int64 × Bytes)) (page : Page),
      leafHeaderSize + (cells.map cellCost).sum ≤ pageSize →
      ∃ after, writeLeafCells cells page = .ok after ∧ ValidLeaf after ∧
        collectLeafCells after = .ok cells := by
  constructor
  · intro page key row free valid space room
    obtain ⟨after, added, validAfter, collected, next, unmoved⟩ :=
      addCell_valid valid key row space room
    refine ⟨cellsOf page, after, valid.cellsAt.collectLeafCells_ok, added, validAfter, collected, next,
      fun index inside => unmoved index ?_⟩
    rw [← cellsOf_length]
    exact inside
  · intro cells page fits
    rw [leafSize_sum] at fits
    obtain ⟨after, written, filled, apart, -, -⟩ := writeLeafCells_cellsAt fits page
    exact ⟨after, written, filled.valid apart, filled.collectLeafCells_ok⟩

/-- A cell goes between the two cells of a leaf, and two cells are written to a page. -/
theorem leafWriters_valid_between :
    (∃ page after, collectLeafCells page = .ok [(1, [0x31]), (5, [0x32, 0x33])] ∧
      addCell 3 [0x34] page = .ok after ∧ ValidLeaf after ∧
      collectLeafCells after = .ok [(1, [0x31]), (3, [0x34]), (5, [0x32, 0x33])] ∧
      leafNextLeaf after = leafNextLeaf page ∧ Unmoved page after 1 0 ∧ Unmoved page after 1 1) ∧
    ∃ after, writeLeafCells [(2, []), (1, [0x31])] Page.zero = .ok after ∧ ValidLeaf after ∧
      collectLeafCells after = .ok [(2, []), (1, [0x31])] := by
  constructor
  · obtain ⟨page, -, filled, apart, -, -⟩ := @writeLeafCells_cellsAt
      [(1, [0x31]), (5, [0x32, 0x33])] (by decide) Page.zero
    obtain ⟨cells, after, collected, added, validAfter, placed, next, unmoved⟩ :=
      leafWriters_valid.1 page 3 [0x34] _ (filled.valid apart) filled.leafFreeSpace_ok (by decide)
    obtain rfl : [(1, [0x31]), (5, [0x32, 0x33])] = cells :=
      Except.ok.inj (filled.collectLeafCells_ok.symm.trans collected)
    exact ⟨page, after, collected, added, validAfter, placed, next, unmoved 0 (by decide),
      unmoved 1 (by decide)⟩
  · exact leafWriters_valid.2 _ _ (by decide)

end BTree

end MukhiDb.Model
