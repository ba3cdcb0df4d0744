import MukhiDb.Foundation.Programs
import MukhiDb.Foundation.Rows
import MukhiDb.Model.Pager

/-!
Contract: the B+tree over the pages of one table file (`btree.rs`).

Owns: the two page layouts and the bounds-checked accesses to them; searching,
shifting, splitting and propagating as the loops of the source do; `create_tree`,
`insert`, `scan_all` and `dump_tree`; and running these on a pager.

Does not own: what the bytes of a page mean, and rows as values.
-/

namespace MukhiDb.Model

open MukhiDb.Foundation

/-- Keys are compared as signed numbers. -/
instance keyOrder : LinearOrder Int64 where
  le_refl := Int64.le_refl
  le_trans := fun _ _ _ => Int64.le_trans
  le_antisymm := fun _ _ => Int64.le_antisymm
  le_total := Int64.le_total
  lt_iff_le_not_ge := fun left right => by
    rw [Int64.not_le]
    constructor
    · exact fun below => ⟨(Int64.le_iff_lt_or_eq).mpr (Or.inl below), below⟩
    · exact fun both => both.2
  toDecidableLE := inferInstance
  toDecidableLT := inferInstance
  toDecidableEq := inferInstance

/-- A computation that reaches the pager only through its page operations. -/
abbrev PageProgram (α : Type) : Type := Program Page α

namespace BTree

/-- `pager.get_page(page_num)?` and `pager.read_page(page_num)?`. -/
def getPage (pageNum : Nat) : PageProgram Page := Program.fetch pageNum

/-- `pager.get_page_mut(page_num)?`, with what is done through the reference. -/
def modifyPage (pageNum : Nat) (change : Page → Except Fault Page) : PageProgram Unit :=
  Program.update pageNum change

/-- `pager.allocate_page()?`. -/
def allocatePage : PageProgram Nat := Program.extend

/-! ### Constants -/

/-- `NODE_TYPE_LEAF`. -/
def nodeTypeLeaf : UInt8 := 1

/-- `NODE_TYPE_INTERNAL`. -/
def nodeTypeInternal : UInt8 := 2

/-- `LEAF_NUM_CELLS_OFFSET`. -/
def leafNumCellsOffset : Nat := 1

/-- `LEAF_NEXT_LEAF_OFFSET`. -/
def leafNextLeafOffset : Nat := 5

/-- `LEAF_DATA_START_OFFSET`. -/
def leafDataStartOffset : Nat := 9

/-- `LEAF_HEADER_SIZE`. -/
def leafHeaderSize : Nat := 11

/-- `SLOT_SIZE`. -/
def slotSize : Nat := 4

/-- `KEY_SIZE`. -/
def keySize : Nat := 8

/-- `MAX_CELL_DATA`. -/
def maxCellData : Nat := pageSize - leafHeaderSize - slotSize

/-- `INTERNAL_NUM_KEYS_OFFSET`. -/
def internalNumKeysOffset : Nat := 1

/-- `RIGHT_CHILD_OFFSET`. -/
def rightChildOffset : Nat := 5

/-- `INTERNAL_HEADER_SIZE`. -/
def internalHeaderSize : Nat := 9

/-- `INTERNAL_ENTRY_SIZE`. -/
def internalEntrySize : Nat := 4 + 8

/-! ### Loops -/

/-- The loop `for i in (start..start + count).rev()`, whose body changes the page. -/
def forDown (body : Nat → Page → Except Fault Page) (start : Nat) :
    (count : Nat) → Page → Except Fault Page
  | 0, page => pure page
  | count + 1, page => do forDown body start count (← body (start + count) page)

/-- The loop `while index < num && key_at(index) < key { index += 1 }`, with
`remaining` entries still to look at. -/
def searchFrom (keyAt : Nat → Except Fault Int64) (key : Int64) :
    (remaining index : Nat) → Except Fault Nat
  | 0, index => pure index
  | remaining + 1, index => do
      if (← keyAt index) < key then searchFrom keyAt key remaining (index + 1) else pure index

/-- The loop `for i in index..index + remaining`, which collects one item for each. -/
def collectFrom {α : Type} (item : Nat → Except Fault α) :
    (remaining index : Nat) → Except Fault (List α)
  | 0, _ => pure []
  | remaining + 1, index => do
      let head ← item index
      let rest ← collectFrom item remaining (index + 1)
      pure (head :: rest)

/-! ### Leaf helpers -/

def leafNumCells (page : Page) : Except Fault Nat := readU32 page leafNumCellsOffset

def leafSetNumCells (page : Page) (n : Nat) : Except Fault Page := writeU32 page leafNumCellsOffset n

def leafNextLeaf (page : Page) : Except Fault Nat := readU32 page leafNextLeafOffset

def leafSetNextLeaf (page : Page) (v : Nat) : Except Fault Page :=
  writeU32 page leafNextLeafOffset v

def leafDataStart (page : Page) : Except Fault Nat := readU16 page leafDataStartOffset

def leafSetDataStart (page : Page) (v : Nat) : Except Fault Page :=
  writeU16 page leafDataStartOffset v

def slotOffset (i : Nat) : Nat := leafHeaderSize + i * slotSize

/-- The offset and the length in slot `i`. -/
def readSlot (page : Page) (i : Nat) : Except Fault (Nat × Nat) := do
  let off := slotOffset i
  pure (← readU16 page off, ← readU16 page (off + 2))

def writeSlot (page : Page) (i dataOff dataLen : Nat) : Except Fault Page := do
  let off := slotOffset i
  let page ← writeU16 page off dataOff
  writeU16 page (off + 2) dataLen

def leafCellKey (page : Page) (i : Nat) : Except Fault Int64 := do
  let (off, _) ← readSlot page i
  readI64 page off

/-- The row of cell `i`. A length below the key size makes the slice bounds cross. -/
def leafCellRow (page : Page) (i : Nat) : Except Fault Bytes := do
  let (off, len) ← readSlot page i
  if len < keySize then throw .panic else page.read (off + keySize) (len - keySize)

def leafFreeSpace (page : Page) : Except Fault Nat := do
  let num ← leafNumCells page
  let slotsEnd := leafHeaderSize + num * slotSize
  let dataStart ← leafDataStart page
  pure (if slotsEnd < dataStart then dataStart - slotsEnd else 0)

def initLeaf (page : Page) : Except Fault Page := do
  let page ← page.write 0 [nodeTypeLeaf]
  let page ← leafSetNumCells page 0
  let page ← leafSetNextLeaf page 0
  leafSetDataStart page pageSize

/-! ### Internal node helpers -/

def internalNumKeys (page : Page) : Except Fault Nat := readU32 page internalNumKeysOffset

def internalSetNumKeys (page : Page) (n : Nat) : Except Fault Page :=
  writeU32 page internalNumKeysOffset n

def internalRightChild (page : Page) : Except Fault Nat := readU32 page rightChildOffset

def internalSetRightChild (page : Page) (v : Nat) : Except Fault Page :=
  writeU32 page rightChildOffset v

def internalEntryOffset (idx : Nat) : Nat := internalHeaderSize + idx * internalEntrySize

def internalChild (page : Page) (idx : Nat) : Except Fault Nat :=
  readU32 page (internalEntryOffset idx)

/-- The child that a descent takes at `idx`: the one before the key there, or the last one. -/
def childAt (page : Page) (nk idx : Nat) : Except Fault Nat :=
  if idx < nk then internalChild page idx else internalRightChild page

def internalKey (page : Page) (idx : Nat) : Except Fault Int64 :=
  readI64 page (internalEntryOffset idx + 4)

def internalSetEntry (page : Page) (idx child : Nat) (key : Int64) : Except Fault Page := do
  let off := internalEntryOffset idx
  let page ← writeU32 page off child
  writeI64 page (off + 4) key

def internalMaxKeys : Nat := (pageSize - internalHeaderSize) / internalEntrySize

def initInternal (page : Page) : Except Fault Page := do
  let page ← page.write 0 [nodeTypeInternal]
  let page ← internalSetNumKeys page 0
  internalSetRightChild page 0

/-! ### Leaf insertion and splitting -/

/-- `max_row_data_size`. -/
def maxRowDataSize : Nat := (pageSize - leafHeaderSize) / 2 - slotSize - keySize

/-- The body of `insert_into_leaf` after `get_page_mut`. -/
def addCell (key : Int64) (rowData : Bytes) (page : Page) : Except Fault Page := do
  let cellSize := keySize + rowData.length
  let num ← leafNumCells page
  let pos ← searchFrom (leafCellKey page) key num 0
  let page ← forDown
    (fun i page => do
      let (off, len) ← readSlot page i
      writeSlot page (i + 1) off len)
    pos (num - pos) page
  let dataStart ← leafDataStart page
  if dataStart < cellSize then throw .panic
  else
    let newDataStart := dataStart - cellSize
    let page ← leafSetDataStart page newDataStart
    let page ← writeI64 page newDataStart key
    let page ← page.write (newDataStart + keySize) rowData
    let page ← writeSlot page pos newDataStart cellSize
    leafSetNumCells page (num + 1)

/-- `insert_into_leaf`. -/
def insertIntoLeaf (pageNum : Nat) (key : Int64) (rowData : Bytes) : PageProgram Unit :=
  modifyPage pageNum (addCell key rowData)

/-- `collect_leaf_cells`. -/
def collectLeafCells (page : Page) : Except Fault (List (Int64 × Bytes)) := do
  let n ← leafNumCells page
  collectFrom (fun i => do pure (← leafCellKey page i, ← leafCellRow page i)) n 0

/-- The loop of `write_leaf_cells`, from cell `index` on. -/
def writeCellsFrom : (cells : List (Int64 × Bytes)) → (index dataStart : Nat) → Page →
    Except Fault (Page × Nat)
  | [], _, dataStart, page => pure (page, dataStart)
  | (key, row) :: rest, index, dataStart, page => do
      let cellSize := keySize + row.length
      if dataStart < cellSize then throw .panic
      else
        let dataStart := dataStart - cellSize
        let page ← writeI64 page dataStart key
        let page ← page.write (dataStart + keySize) row
        let page ← writeSlot page index dataStart cellSize
        writeCellsFrom rest (index + 1) dataStart page

/-- `write_leaf_cells`. -/
def writeLeafCells (cells : List (Int64 × Bytes)) (page : Page) : Except Fault Page := do
  let page ← initLeaf page
  let (page, dataStart) ← writeCellsFrom cells 0 pageSize page
  let page ← leafSetNumCells page cells.length
  leafSetDataStart page dataStart

/-- The bytes a cell takes, its slot included. -/
def cellCost (cell : Int64 × Bytes) : Nat := slotSize + keySize + cell.2.length

/-- The loop of `split_leaf` that counts the cells of the left half. -/
def countLeft (half : Nat) : (cells : List (Int64 × Bytes)) → (leftCount leftBytes : Nat) → Nat
  | [], leftCount, _ => leftCount
  | cell :: rest, leftCount, leftBytes =>
      if half < leftBytes + cellCost cell ∧ 0 < leftCount then leftCount
      else countLeft half rest (leftCount + 1) (leftBytes + cellCost cell)

/-- The number of cells that `split_leaf` keeps on the left. -/
def splitPoint (cells : List (Int64 × Bytes)) : Nat :=
  let totalData := (cells.map cellCost).sum
  let leftCount := countLeft (totalData / 2) cells 0 0
  let leftCount := if leftCount = 0 then 1 else leftCount
  if cells.length ≤ leftCount then cells.length - 1 else leftCount

/-- `split_leaf`. -/
def splitLeaf (pageNum : Nat) (key : Int64) (rowData : Bytes) : PageProgram (Int64 × Nat) := do
  let oldCells ← collectLeafCells (← getPage pageNum)
  let ins := slot oldCells key
  let allCells := oldCells.insertIdx ins (key, rowData)
  let leftCount := splitPoint allCells
  let rightCells := allCells.drop leftCount
  let leftCells := allCells.take leftCount
  let oldNext ← leafNextLeaf (← getPage pageNum)
  let newPageNum ← allocatePage
  modifyPage pageNum fun page => do
    let page ← writeLeafCells leftCells page
    leafSetNextLeaf page newPageNum
  modifyPage newPageNum fun page => do
    let page ← writeLeafCells rightCells page
    leafSetNextLeaf page oldNext
  match rightCells with
  | [] => Program.stop .panic
  | (medianKey, _) :: _ => pure (medianKey, newPageNum)

/-! ### Internal insertion and splitting -/

/-- The body of `insert_into_internal` after `get_page_mut`. -/
def addEntry (key : Int64) (rightChild : Nat) (page : Page) : Except Fault Page := do
  let nk ← internalNumKeys page
  let pos ← searchFrom (internalKey page) key nk 0
  let page ← forDown
    (fun i page => do
      let k ← internalKey page i
      let c ← internalChild page i
      internalSetEntry page (i + 1) c k)
    pos (nk - pos) page
  let oldChildAtPos ← (if pos < nk then internalChild page (pos + 1) else internalRightChild page)
  let page ← internalSetEntry page pos oldChildAtPos key
  let page ←
    (if pos + 1 ≤ nk then writeU32 page (internalEntryOffset (pos + 1)) rightChild else pure page)
  let page ← (if pos = nk then internalSetRightChild page rightChild else pure page)
  internalSetNumKeys page (nk + 1)

/-- `insert_into_internal`. -/
def insertIntoInternal (pageNum : Nat) (key : Int64) (rightChild : Nat) : PageProgram Unit :=
  modifyPage pageNum (addEntry key rightChild)

/-- The loop that writes entries, each its key with the child before it, from entry
`index` on. -/
def writeEntriesFrom : (entries : List (Int64 × Nat)) → (index : Nat) → Page → Except Fault Page
  | [], _, page => pure page
  | (key, child) :: rest, index, page => do
      writeEntriesFrom rest (index + 1) (← internalSetEntry page index child key)

/-- Write a whole internal node. -/
def writeInternal (entries : List (Int64 × Nat)) (rightChild : Nat) (page : Page) :
    Except Fault Page := do
  let page ← initInternal page
  let page ← internalSetNumKeys page entries.length
  let page ← writeEntriesFrom entries 0 page
  internalSetRightChild page rightChild

/-- The entries of a full node with the new key among them, each key with the child
before it, and the last child. -/
def combineEntries (entries : List (Int64 × Nat)) (oldRight : Nat) (key : Int64)
    (rightChild : Nat) : List (Int64 × Nat) × Nat :=
  let ins := slot entries key
  let newEntryChild := if inside : ins < entries.length then (entries.get ⟨ins, inside⟩).2 else oldRight
  let entries := entries.insertIdx ins (key, newEntryChild)
  let combinedRight := if ins + 1 = entries.length then rightChild else oldRight
  (entries.modify (ins + 1) fun entry => (entry.1, rightChild), combinedRight)

/-- `split_internal`. The left half is written before the new page is allocated. -/
def splitInternal (pageNum : Nat) (key : Int64) (rightChild : Nat) :
    PageProgram (Int64 × Nat) := do
  let page ← getPage pageNum
  let oldRight ← internalRightChild page
  let entries ← collectFrom (fun i => do
    let child ← internalChild page i
    pure (← internalKey page i, child)) internalMaxKeys 0
  let (entries, combinedRight) := combineEntries entries oldRight key rightChild
  let mid := (internalMaxKeys + 1) / 2
  match entries.drop mid with
  | [] => Program.stop .panic
  | (medianKey, leftRightChild) :: rightEntries =>
      modifyPage pageNum (writeInternal (entries.take mid) leftRightChild)
      let newPage ← allocatePage
      modifyPage newPage (writeInternal rightEntries combinedRight)
      pure (medianKey, newPage)

/-! ### Public operations -/

/-- `create_tree`. -/
def createTree : PageProgram Nat := do
  let pageNum ← allocatePage
  modifyPage pageNum initLeaf
  pure pageNum

/-- The first loop of `insert`: the leaf for a key and the path to it. A descent through
more pages than there are page numbers never ends. -/
def descend (key : Int64) : (fuel cur : Nat) → (path : List (Nat × Nat)) →
    PageProgram (Nat × List (Nat × Nat))
  | 0, _, _ => Program.stop .diverge
  | fuel + 1, cur, path => do
      let nodeType := (← getPage cur).byte 0
      if nodeType = nodeTypeLeaf then pure (cur, path)
      else
        let page ← getPage cur
        let nk ← internalNumKeys page
        let idx ← searchFrom (internalKey page) key nk 0
        let child ← childAt page nk idx
        descend key fuel child (path ++ [(cur, idx)])

/-- The loop of `insert` over the path, from the leaf up. The answer is the key and the
page that the root was split at, if it was. -/
def propagate : (path : List (Nat × Nat)) → (promoteKey : Int64) → (promoteChild : Nat) →
    PageProgram (Option (Int64 × Nat))
  | [], promoteKey, promoteChild => pure (some (promoteKey, promoteChild))
  | (parentPage, _) :: rest, promoteKey, promoteChild => do
      let nk ← internalNumKeys (← getPage parentPage)
      if nk < internalMaxKeys then
        insertIntoInternal parentPage promoteKey promoteChild
        pure none
      else
        let (newMedian, newInternal) ← splitInternal parentPage promoteKey promoteChild
        propagate rest newMedian newInternal

/-- The text of the cell size check. -/
def rowTooLargeMessage (size : Nat) : String :=
  s!"Row too large ({size} bytes). Maximum is {maxRowDataSize} bytes."

/-- The new root over a split one. -/
def writeRoot (rootPage : Nat) (promoteKey : Int64) (promoteChild : Nat) (page : Page) :
    Except Fault Page := do
  let page ← initInternal page
  let page ← internalSetNumKeys page 1
  let page ← internalSetEntry page 0 rootPage promoteKey
  internalSetRightChild page promoteChild

/-- `insert`. -/
def insert (rootPage : Nat) (key : Int64) (rowData : Bytes) : PageProgram Nat := do
  let cellSize := keySize + rowData.length
  let spaceNeeded := slotSize + cellSize
  if maxCellData < cellSize then Program.stop (.error (rowTooLargeMessage rowData.length))
  else
    let (cur, path) ← descend key (maxPages + 1) rootPage []
    let free ← leafFreeSpace (← getPage cur)
    if spaceNeeded ≤ free then
      insertIntoLeaf cur key rowData
      pure rootPage
    else
      let (medianKey, newLeaf) ← splitLeaf cur key rowData
      match ← propagate path.reverse medianKey newLeaf with
      | none => pure rootPage
      | some (promoteKey, promoteChild) =>
          let newRoot ← allocatePage
          modifyPage newRoot (writeRoot rootPage promoteKey promoteChild)
          pure newRoot

/-- The first loop of `scan_all`: the leftmost leaf. -/
def descendLeft : (fuel cur : Nat) → PageProgram Nat
  | 0, _ => Program.stop .diverge
  | fuel + 1, cur => do
      let page ← getPage cur
      if page.byte 0 = nodeTypeLeaf then pure cur
      else
        let nk ← internalNumKeys page
        let child ← childAt page nk 0
        descendLeft fuel child

/-- The second loop of `scan_all`: the rows of the leaf chain. A chain through more pages
than there are page numbers never ends. -/
def scanChain : (fuel cur : Nat) → PageProgram (List Bytes)
  | 0, _ => Program.stop .diverge
  | fuel + 1, cur => do
      let page ← getPage cur
      let n ← leafNumCells page
      let rows ← collectFrom (leafCellRow page) n 0
      let next ← leafNextLeaf page
      if next = 0 then pure rows
      else
        let rest ← scanChain fuel next
        pure (rows ++ rest)

/-- `scan_all`. -/
def scanAll (rootPage : Nat) : PageProgram (List Bytes) := do
  let first ← descendLeft (maxPages + 1) rootPage
  scanChain (maxPages + 1) first

/-- The loop of `dump_tree` over the keys of an internal node with the child before each. -/
def dumpEntries (dump : Nat → PageProgram String) (indent : String) :
    (entries : List (Int64 × Nat)) → (out : String) → PageProgram String
  | [], out => pure out
  | (key, child) :: rest, out => do
      let inner ← dump child
      dumpEntries dump indent rest (out ++ s!"\n{inner}" ++ s!"\n{indent}  key {key}")

/-- `dump_tree`. A recursion through more pages than there are page numbers never ends. -/
def dumpTree : (fuel pageNum depth : Nat) → PageProgram String
  | 0, _, _ => Program.stop .diverge
  | fuel + 1, pageNum, depth => do
      let indent := String.join (List.replicate depth "  ")
      let page ← getPage pageNum
      let nodeType := page.byte 0
      if nodeType = nodeTypeLeaf then
        let n ← leafNumCells page
        let next ← leafNextLeaf page
        let free ← leafFreeSpace page
        let keys ← collectFrom (leafCellKey page) n 0
        let out := s!"{indent}Leaf (page={pageNum}, cells={n}, next={next}, free={free})"
        pure (keys.foldl (fun out k => out ++ s!"\n{indent}  - key {k}") out)
      else if nodeType = nodeTypeInternal then
        let nk ← internalNumKeys page
        let rc ← internalRightChild page
        let entries ← collectFrom (fun i => do
          let child ← internalChild page i
          pure (← internalKey page i, child)) nk 0
        let out := s!"{indent}Internal (page={pageNum}, keys={nk})"
        let out ← dumpEntries (fun child => dumpTree fuel child (depth + 1)) indent entries out
        let inner ← dumpTree fuel rc (depth + 1)
        pure (out ++ s!"\n{inner}")
      else Program.stop (.error s!"Unknown node type {nodeType} at page {pageNum}")

end BTree

/-! ### Running on a pager -/

/-- The page operations of a pager. -/
def Pager.store : Store PagerIo Page := ⟨Pager.getPage, Pager.modifyPage, Pager.allocatePage⟩

/-- Run a page program on a pager. -/
def Pager.perform {α : Type} (program : PageProgram α) : Exec PagerIo α := program.run Pager.store

end MukhiDb.Model
