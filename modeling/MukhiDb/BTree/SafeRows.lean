import MukhiDb.BTree.LeafSplits

/-!
Contract: the sizes of rows for which no split of a leaf overflows.

Owns: the largest bound on the rows of a leaf under which both parts of a split fit, whatever
the rows are; that it is the largest; and rows that are all of one size.

Does not own: leaves with larger rows of different sizes.
-/

namespace MukhiDb.Model

open MukhiDb.Foundation

namespace BTree

/-- Rows up to this size split in two parts that fit, whatever sizes they have. -/
def safeRowSize : Nat := 1350

/-- Sizes of rows: all are the same, or none is over the safe size. -/
def Steady (sizes : Nat → Prop) : Prop :=
  (∃ size, ∀ other, sizes other → other = size) ∨ ∀ size, sizes size → size ≤ safeRowSize

section Steady

variable {cells : List (Int64 × Bytes)} {key : Int64} {row : Bytes} {sizes : Nat → Prop}

/-- A leaf that is full with one more row of a safe size is cut late enough. -/
theorem splitFits_safe (held : leafSize cells ≤ pageSize)
    (small : ∀ cell ∈ (key, row) :: cells, cell.2.length ≤ safeRowSize)
    (full : layout.room cells (key, row) = false) : SplitFits (place cells key row) := by
  have under : safeRowSize ≤ maxRowDataSize := by decide
  have shortRow : row.length ≤ maxRowDataSize :=
    Nat.le_trans (small (key, row) List.mem_cons_self) under
  have short : ∀ cell ∈ cells, cell.2.length ≤ maxRowDataSize := fun cell member =>
    Nat.le_trans (small cell (List.mem_cons_of_mem _ member)) under
  rw [splitFits_iff held short shortRow full]
  obtain ⟨before, cell, after, whole, crosses, -, -⟩ := split_parts (two_of_full shortRow full)
  refine ⟨before, cell, after, whole, crosses, ?_⟩
  -- the running total passes half at `cell`, which is small
  have member : cell ∈ (key, row) :: cells := by
    have inside : cell ∈ place cells key row := by simp [whole]
    exact (place_perm cells key row).mem_iff.mp inside
  have total : costs (place cells key row) = cellCost (key, row) + costs cells := by
    rw [← costs_cons]
    exact ((place_perm cells key row).map cellCost).sum_nat
  have cellSmall := small cell member
  have rowSmall := small (key, row) List.mem_cons_self
  have room : leafRoom = 4085 := by decide
  have bound : safeRowSize = 1350 := rfl
  have page : pageSize = 4096 := rfl
  have above := crosses.above
  rw [leafSize_costs] at held
  rw [cellCost_eq] at above total
  dsimp only at rowSmall total
  omega

/-- A full leaf of rows of steady sizes splits into two leaves that fit. -/
theorem splitFits_steady (steady : Steady sizes) (held : leafSize cells ≤ pageSize)
    (sized : ∀ cell ∈ (key, row) :: cells, sizes cell.2.length)
    (short : row.length ≤ maxRowDataSize) (full : layout.room cells (key, row) = false) :
    SplitFits (place cells key row) := by
  rcases steady with ⟨size, same⟩ | small
  · exact splitFits_uniform (fun cell member => same _ (sized cell member)) held
      (nonempty_of_full short full)
  · exact splitFits_safe held (fun cell member => small _ (sized cell member)) full

end Steady

/-! ### The bound is exact -/

theorem room_eq (cells : List (Int64 × Bytes)) (key : Int64) (row : Bytes) :
    layout.room cells (key, row) =
      decide (leafSize cells + slotSize + keySize + row.length ≤ pageSize) := rfl

/-- A row of zeros. -/
def zeros (size : Nat) : Bytes := List.replicate size 0

@[simp] theorem zeros_length (size : Nat) : (zeros size).length = size := List.length_replicate

/-- Three rows that fill a leaf to its last byte. -/
def brimful : List (Int64 × Bytes) := [(1, zeros 1350), (3, zeros 1350), (4, zeros 1349)]

/-- With a row of one byte more than is safe, that goes after the first of them. -/
theorem place_brimful : place brimful 2 (zeros 1351) =
    [(1, zeros 1350), (2, zeros 1351), (3, zeros 1350), (4, zeros 1349)] := rfl

/-- The cut goes after the first row, which leaves too much for the right part. -/
theorem brimful_early : ¬ CrossesLate (place brimful 2 (zeros 1351)) := by
  have crosses : Crosses (place brimful 2 (zeros 1351)) [(1, zeros 1350)] (2, zeros 1351) := by
    refine ⟨by simp, Or.inl rfl, ?_⟩
    rw [place_brimful]
    simp [costs, cellCost_eq]
  rintro ⟨before, cell, after, whole, other, late⟩
  obtain rfl := other.unique whole crosses place_brimful
  rw [place_brimful] at late
  have room : leafRoom = 4085 := by decide
  simp [costs, cellCost_eq, room] at late

/-- Every split of a full leaf leaves both parts in pages, whatever the rows of up to `most` bytes
are, exactly if `most` is not over the safe size. -/
theorem divides_all_iff {most : Nat} (short : most ≤ maxRowDataSize) :
    (∀ (book : List Page) (page next : Nat) (cells : List (Int64 × Bytes)) (key : Int64) (row : Bytes),
      book.length ≤ maxPages → LeafIn book page cells next → next < 2 ^ 32 →
      (∀ cell ∈ (key, row) :: cells, cell.2.length ≤ most) →
      layout.room cells (key, row) = false → Divides book page cells next key row) ↔
      most ≤ safeRowSize := by
  constructor
  · intro divides
    by_contra larger
    have sizes : pageSize = 4096 ∧ slotSize = 4 ∧ keySize = 8 := by decide
    have bound : safeRowSize = 1350 := rfl
    have filled : leafSize brimful = 4096 := by
      rw [leafSize_costs]
      simp [brimful, costs, cellCost_eq]
    obtain ⟨leaf, -, leafAt⟩ := writeLeafCells_ok (filled.trans_le (by omega))
      (by decide : 0 < 2 ^ 32) Page.zero
    have leafIn : LeafIn [leaf] 0 brimful 0 := ⟨leaf, rfl, leafAt⟩
    have one : [leaf].length ≤ maxPages := (by decide : 1 ≤ maxPages)
    have full : layout.room brimful (2, zeros 1351) = false := by
      rw [room_eq, filled, zeros_length]
      exact decide_eq_false (by omega)
    have within : ∀ cell ∈ (2, zeros 1351) :: brimful, cell.2.length ≤ most := by
      intro cell member
      simp only [brimful, List.mem_cons, List.not_mem_nil, or_false] at member
      rcases member with rfl | rfl | rfl | rfl <;> simp only [zeros_length] <;> omega
    have divided := divides [leaf] 0 0 brimful 2 (zeros 1351) one leafIn (by decide) within full
    refine brimful_early ((divides_iff one leafIn (by decide) (fun cell member => ?_) ?_ full).mp
      divided)
    · exact Nat.le_trans (within cell (List.mem_cons_of_mem _ member)) short
    · exact Nat.le_trans (within _ List.mem_cons_self) short
  · intro under book page next cells key row small leaf smallNext sized full
    have limited : ∀ cell ∈ (key, row) :: cells, cell.2.length ≤ maxRowDataSize :=
      fun cell member => Nat.le_trans (sized cell member) short
    have shortRow := limited (key, row) List.mem_cons_self
    have shorts : ∀ cell ∈ cells, cell.2.length ≤ maxRowDataSize := fun cell member =>
      limited cell (List.mem_cons_of_mem _ member)
    have held := (at_of_leafIn leaf).fits
    rw [divides_iff small leaf smallNext shorts shortRow full, ← splitFits_iff held shorts shortRow full]
    exact splitFits_safe held (fun cell member => Nat.le_trans (sized cell member) under) full

/-- A row of one byte more can be too long. -/
theorem divides_all_iff_larger :
    safeRowSize + 1 ≤ maxRowDataSize ∧
      ∃ (book : List Page) (page next : Nat) (cells : List (Int64 × Bytes)) (key : Int64) (row : Bytes),
        book.length ≤ maxPages ∧ LeafIn book page cells next ∧
          (∀ cell ∈ (key, row) :: cells, cell.2.length ≤ safeRowSize + 1) ∧
          layout.room cells (key, row) = false ∧ ¬ Divides book page cells next key row := by
  have short : safeRowSize + 1 ≤ maxRowDataSize := by decide
  refine ⟨short, ?_⟩
  by_contra none
  refine Nat.not_succ_le_self _ ((divides_all_iff short).mp ?_)
  intro book page next cells key row small leaf _ sized full
  by_contra parts
  exact none ⟨book, page, next, cells, key, row, small, leaf, sized, full, parts⟩

end BTree

end MukhiDb.Model
