import MukhiDb.Foundation.FlatIndex

/-!
Contract: the chain of leaves of a B+tree and the order of what it holds.

Owns: leaves with their cells; the cells at a page and putting other leaves in the
place of one; the rows of the chain; and rows of leaves whose keys and separators
do not decrease from left to right, which stay so when a cell is placed in the
leaf at its slot, also when that leaf is split.

Does not own: the index above the leaves.
-/

namespace MukhiDb.Foundation

variable {κ α τ : Type}

/-- A leaf: its page and its cells. -/
structure Leaf (κ α : Type) where
  page : Nat
  cells : List (κ × α)
deriving DecidableEq, Repr

namespace Leaf

/-! ### Chains -/

/-- The pages of a chain. -/
def pages (chain : List (Leaf κ α)) : List Nat := chain.map Leaf.page

/-- The cells of a chain, from its first leaf to its last. -/
def rows (chain : List (Leaf κ α)) : List (κ × α) := chain.flatMap Leaf.cells

/-- The cells of the leaf at a page. -/
def cellsAt (chain : List (Leaf κ α)) (page : Nat) : List (κ × α) :=
  ((chain.find? fun leaf => leaf.page = page).map Leaf.cells).getD []

/-- Put other leaves in the place of the leaf at a page. -/
def substitute (chain : List (Leaf κ α)) (page : Nat) (leaves : List (Leaf κ α)) :
    List (Leaf κ α) :=
  chain.flatMap fun leaf => if leaf.page = page then leaves else [leaf]

theorem substitute_of_absent {chain : List (Leaf κ α)} {page : Nat}
    (absent : page ∉ pages chain) (leaves : List (Leaf κ α)) :
    substitute chain page leaves = chain := by
  induction chain with
  | nil => rfl
  | cons leaf rest inductionHypothesis =>
      obtain ⟨different, absentRest⟩ := List.ne_and_not_mem_of_not_mem_cons
        (show page ∉ leaf.page :: pages rest from absent)
      have next := inductionHypothesis absentRest
      unfold substitute at next ⊢
      rw [List.flatMap_cons, next, if_neg fun same => different same.symm]
      rfl

/-- A chain around one of its leaves. -/
theorem substitute_around {before after : List (Leaf κ α)} {leaf : Leaf κ α}
    (distinct : (pages (before ++ leaf :: after)).Nodup) (leaves : List (Leaf κ α)) :
    substitute (before ++ leaf :: after) leaf.page leaves = before ++ leaves ++ after := by
  unfold pages at distinct
  rw [List.map_append, List.map_cons, List.nodup_append] at distinct
  obtain ⟨-, tail, apart⟩ := distinct
  obtain ⟨absentAfter, -⟩ := List.nodup_cons.mp tail
  have absentBefore : leaf.page ∉ pages before := fun member =>
    apart leaf.page member leaf.page List.mem_cons_self rfl
  have keptBefore := substitute_of_absent absentBefore leaves
  have keptAfter := substitute_of_absent absentAfter leaves
  unfold substitute at *
  rw [List.flatMap_append, List.flatMap_cons, if_pos rfl, keptBefore, keptAfter,
    List.append_assoc]

/-- The cells at the page of a leaf are its own. -/
theorem cellsAt_around {before after : List (Leaf κ α)} {leaf : Leaf κ α}
    (distinct : (pages (before ++ leaf :: after)).Nodup) :
    cellsAt (before ++ leaf :: after) leaf.page = leaf.cells := by
  unfold pages at distinct
  rw [List.map_append, List.nodup_append] at distinct
  have absent : before.find? (fun other => other.page = leaf.page) = none := by
    rw [List.find?_eq_none]
    intro other earlier same
    exact distinct.2.2 other.page (List.mem_map_of_mem earlier) leaf.page List.mem_cons_self
      (by simpa using same)
  unfold cellsAt
  rw [List.find?_append, absent]
  simp

/-- A page of a chain is the page of one leaf, with leaves before and after it. -/
theorem exists_around {chain : List (Leaf κ α)} (distinct : (pages chain).Nodup) {page : Nat}
    (member : page ∈ pages chain) :
    ∃ before after, chain = before ++ ⟨page, cellsAt chain page⟩ :: after ∧
      ∀ leaves, substitute chain page leaves = before ++ leaves ++ after := by
  obtain ⟨⟨page', cells⟩, inside, rfl⟩ := List.mem_map.mp member
  obtain ⟨before, after, rfl⟩ := List.append_of_mem inside
  have found := cellsAt_around distinct
  dsimp only at found
  exact ⟨before, after, by rw [found], substitute_around distinct⟩

/-! ### Rows of leaves in order -/

/-- Keys and separators from left to right. -/
def inorder : (first : Leaf κ α) → (entries : List (κ × Leaf κ α)) → List κ
  | first, [] => first.cells.map Prod.fst
  | first, entry :: rest => first.cells.map Prod.fst ++ entry.1 :: inorder entry.2 rest

theorem rows_sublist_inorder (first : Leaf κ α) (entries : List (κ × Leaf κ α)) :
    ((rows (Row.mk first entries).children).map Prod.fst).Sublist (inorder first entries) := by
  induction entries generalizing first with
  | nil => simp [rows, inorder, Row.children]
  | cons entry rest inductionHypothesis =>
      have next := inductionHypothesis entry.2
      unfold rows Row.children at next ⊢
      rw [inorder, List.map_cons, List.flatMap_cons, List.map_append]
      exact (List.Sublist.refl _).append (next.trans (List.sublist_cons_self _ _))

theorem keys_sublist_inorder (first : Leaf κ α) (entries : List (κ × Leaf κ α)) :
    (entries.map Prod.fst).Sublist (inorder first entries) := by
  induction entries generalizing first with
  | nil => exact List.nil_sublist _
  | cons entry rest inductionHypothesis =>
      rw [inorder, List.map_cons]
      exact ((inductionHypothesis entry.2).cons_cons entry.1).trans
        (List.sublist_append_right _ _)

/-- Two leaves and a separator that together hold what one leaf holds. -/
structure Split (leaf left : Leaf κ α) (separator : κ) (right : Leaf κ α) : Prop where
  cells : leaf.cells = left.cells ++ right.cells
  head : ∃ row rest, right.cells = (separator, row) :: rest

theorem Split.mem_right {leaf left right : Leaf κ α} {separator : κ}
    (split : Split leaf left separator right) : separator ∈ right.cells.map Prod.fst := by
  obtain ⟨row, rest, head⟩ := split.head
  rw [head]
  exact List.mem_cons_self

theorem Split.keys {leaf left right : Leaf κ α} {separator : κ}
    (split : Split leaf left separator right) :
    leaf.cells.map Prod.fst = left.cells.map Prod.fst ++ right.cells.map Prod.fst := by
  rw [split.cells, List.map_append]

theorem Split.of_append {page count : Nat} {left later cells : List (κ × α)} {separator : κ}
    {first : α} (whole : cells = left ++ (separator, first) :: later) :
    Split ⟨page, cells⟩ ⟨page, left⟩ separator ⟨count, (separator, first) :: later⟩ :=
  ⟨whole, first, later, rfl⟩

section Ordered

variable [LinearOrder κ]

/-- Leaves that share the cells of one leaf and a new cell add that cell to a chain. -/
theorem rows_around {before after leaves : List (Leaf κ α)} {page : Nat} {cells : List (κ × α)}
    {key : κ} {row : α} (shared : rows leaves = place cells key row) :
    (rows (before ++ leaves ++ after)).Perm
      ((key, row) :: rows (before ++ ⟨page, cells⟩ :: after)) := by
  classical
  have placed := place_perm cells key row
  rw [← shared] at placed
  unfold rows at placed ⊢
  rw [List.flatMap_append, List.flatMap_append, List.flatMap_append, List.flatMap_cons]
  rw [List.perm_iff_count] at placed ⊢
  intro cell
  have counted := placed cell
  simp only [List.count_append, List.count_cons] at counted ⊢
  omega

/-- Keys and separators do not decrease from left to right. -/
def Ordered (first : Leaf κ α) (entries : List (κ × Leaf κ α)) : Prop :=
  (inorder first entries).Pairwise (· ≤ ·)

theorem ordered_cons {first : Leaf κ α} {entry : κ × Leaf κ α}
    {rest : List (κ × Leaf κ α)} : Ordered first (entry :: rest) ↔
      (first.cells.map Prod.fst).Pairwise (· ≤ ·) ∧ Ordered entry.2 rest ∧
        (∀ key ∈ first.cells.map Prod.fst, key ≤ entry.1) ∧
          ∀ key ∈ inorder entry.2 rest, entry.1 ≤ key := by
  unfold Ordered
  rw [inorder, List.pairwise_append, List.pairwise_cons]
  constructor
  · rintro ⟨own, ⟨above, later⟩, apart⟩
    exact ⟨own, later, fun key member => apart key member entry.1 List.mem_cons_self, above⟩
  · rintro ⟨own, later, below, above⟩
    refine ⟨own, ⟨above, later⟩, fun key member other inside => ?_⟩
    rcases List.mem_cons.mp inside with rfl | inside
    · exact below key member
    · exact (below key member).trans (above other inside)

/-- What the leaf at the slot of a key becomes when a cell with that key is placed. -/
def placed (first : Leaf κ α) (entries : List (κ × Leaf κ α)) (key : κ) (row : α) :
    List (κ × α) :=
  place (pick first entries key).cells key row

theorem mem_place_keys {cells : List (κ × α)} {key other : κ} {row : α}
    (member : other ∈ (place cells key row).map Prod.fst) :
    other = key ∨ other ∈ cells.map Prod.fst := by
  simpa using ((place_perm cells key row).map Prod.fst).subset member

theorem mem_inorder_replace {first : Leaf κ α} {entries : List (κ × Leaf κ α)} {key : κ} {row : α}
    {leaf : Leaf κ α} (cells : leaf.cells = placed first entries key row) {other : κ}
    (member : other ∈ inorder (replace first entries key leaf).first
      (replace first entries key leaf).entries) :
    other = key ∨ other ∈ inorder first entries := by
  induction entries generalizing first with
  | nil =>
      rw [replace, inorder, cells] at member
      exact mem_place_keys member
  | cons entry rest inductionHypothesis =>
      rw [replace] at member
      rw [placed, pick] at cells
      rw [inorder]
      split at member
      · next below =>
          rw [if_pos below] at cells
          rw [inorder, List.mem_append, List.mem_cons] at member
          rcases member with own | rfl | later
          · exact Or.inr (List.mem_append_left _ own)
          · exact Or.inr (List.mem_append_right _ List.mem_cons_self)
          · exact (inductionHypothesis cells later).imp_right fun inside =>
              List.mem_append_right _ (List.mem_cons_of_mem _ inside)
      · next above =>
          rw [if_neg above] at cells
          rw [inorder, cells, List.mem_append] at member
          rcases member with own | later
          · exact (mem_place_keys own).imp_right fun inside => List.mem_append_left _ inside
          · exact Or.inr (List.mem_append_right _ later)

/-- Placing a cell in the leaf at its slot keeps the order. -/
theorem ordered_replace {first : Leaf κ α} {entries : List (κ × Leaf κ α)}
    (ordered : Ordered first entries) {key : κ} {row : α} {leaf : Leaf κ α}
    (cells : leaf.cells = placed first entries key row) :
    Ordered (replace first entries key leaf).first (replace first entries key leaf).entries := by
  induction entries generalizing first with
  | nil =>
      unfold Ordered
      rw [replace, inorder, cells]
      exact place_sorted ordered key row
  | cons entry rest inductionHypothesis =>
      obtain ⟨own, later, below, above⟩ := ordered_cons.mp ordered
      rw [replace]
      rw [placed, pick] at cells
      split
      · next before =>
          rw [if_pos before] at cells
          refine ordered_cons.mpr ⟨own, inductionHypothesis later cells, below, fun other inside => ?_⟩
          rcases mem_inorder_replace cells inside with rfl | old
          · exact before.le
          · exact above other old
      · next after =>
          rw [if_neg after] at cells
          refine ordered_cons.mpr ⟨?_, later, fun other inside => ?_, above⟩
          · rw [cells]
            exact place_sorted own key row
          · rw [cells] at inside
            rcases mem_place_keys inside with rfl | old
            · exact not_lt.mp after
            · exact below other old

/-- The separator is in its place between the two leaves. -/
theorem Split.sorted {leaf left right : Leaf κ α} {separator : κ}
    (split : Split leaf left separator right)
    (sorted : (leaf.cells.map Prod.fst).Pairwise (· ≤ ·)) :
    (left.cells.map Prod.fst).Pairwise (· ≤ ·) ∧ (right.cells.map Prod.fst).Pairwise (· ≤ ·) ∧
      (∀ key ∈ left.cells.map Prod.fst, key ≤ separator) ∧
        ∀ key ∈ right.cells.map Prod.fst, separator ≤ key := by
  rw [split.keys, List.pairwise_append] at sorted
  obtain ⟨leftSorted, rightSorted, apart⟩ := sorted
  refine ⟨leftSorted, rightSorted, fun key member => apart key member _ split.mem_right, ?_⟩
  obtain ⟨row, rest, head⟩ := split.head
  rw [head, List.map_cons, List.pairwise_cons] at rightSorted
  rw [head]
  intro key member
  rcases List.mem_cons.mp member with rfl | later
  · exact le_refl _
  · exact rightSorted.1 key later

theorem mem_inorder_replaceTwo {first leaf left right : Leaf κ α} {separator : κ}
    (split : Split leaf left separator right) {entries : List (κ × Leaf κ α)} {key other : κ}
    (member : other ∈ inorder (replaceTwo first entries key left separator right).first
      (replaceTwo first entries key left separator right).entries) :
    other ∈ inorder (replace first entries key leaf).first
      (replace first entries key leaf).entries := by
  have parts : ∀ other, other ∈ left.cells.map Prod.fst ∨ other = separator ∨
      other ∈ right.cells.map Prod.fst → other ∈ leaf.cells.map Prod.fst := by
    rintro other (inLeft | rfl | inRight)
    · exact split.keys ▸ List.mem_append_left _ inLeft
    · exact split.keys ▸ List.mem_append_right _ split.mem_right
    · exact split.keys ▸ List.mem_append_right _ inRight
  induction entries generalizing first with
  | nil =>
      rw [replaceTwo, inorder, inorder, List.mem_append, List.mem_cons] at member
      exact parts other member
  | cons entry rest inductionHypothesis =>
      rw [replaceTwo] at member
      rw [replace]
      split at member
      · next below =>
          rw [if_pos below]
          rw [inorder, List.mem_append, List.mem_cons] at member ⊢
          exact member.imp_right (Or.imp_right inductionHypothesis)
      · next above =>
          rw [if_neg above]
          rw [inorder, inorder, List.mem_append, List.mem_cons, List.mem_append] at member
          rw [inorder, List.mem_append]
          rcases member with inLeft | same | inRight | later
          · exact Or.inl (parts other (Or.inl inLeft))
          · exact Or.inl (parts other (Or.inr (Or.inl same)))
          · exact Or.inl (parts other (Or.inr (Or.inr inRight)))
          · exact Or.inr later

/-- Splitting the leaf at the slot keeps the order. -/
theorem ordered_replaceTwo {first leaf left right : Leaf κ α} {separator : κ}
    (split : Split leaf left separator right) {entries : List (κ × Leaf κ α)} {key : κ}
    (ordered : Ordered (replace first entries key leaf).first
      (replace first entries key leaf).entries) :
    Ordered (replaceTwo first entries key left separator right).first
      (replaceTwo first entries key left separator right).entries := by
  induction entries generalizing first with
  | nil =>
      obtain ⟨leftSorted, rightSorted, below, above⟩ := split.sorted ordered
      exact ordered_cons.mpr ⟨leftSorted, rightSorted, below, above⟩
  | cons entry rest inductionHypothesis =>
      rw [replace] at ordered
      rw [replaceTwo]
      split at ordered
      · next before =>
          obtain ⟨own, later, below, above⟩ := ordered_cons.mp ordered
          rw [if_pos before]
          exact ordered_cons.mpr ⟨own, inductionHypothesis later, below,
            fun other inside => above other (mem_inorder_replaceTwo split inside)⟩
      · next after =>
          obtain ⟨own, later, below, above⟩ := ordered_cons.mp ordered
          obtain ⟨leftSorted, rightSorted, leftBelow, rightAbove⟩ := split.sorted own
          have rightBelow : ∀ key ∈ right.cells.map Prod.fst, key ≤ entry.1 :=
            fun other inside => below other (split.keys ▸ List.mem_append_right _ inside)
          have separatorBelow : separator ≤ entry.1 := rightBelow separator split.mem_right
          rw [if_neg after]
          refine ordered_cons.mpr ⟨leftSorted, ordered_cons.mpr ⟨rightSorted, later, rightBelow,
            above⟩, leftBelow, fun other inside => ?_⟩
          rw [inorder, List.mem_append, List.mem_cons] at inside
          rcases inside with inRight | rfl | later
          · exact rightAbove other inRight
          · exact separatorBelow
          · exact separatorBelow.trans (above other later)

end Ordered

end Leaf

end MukhiDb.Foundation
