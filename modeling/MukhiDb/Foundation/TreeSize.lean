import MukhiDb.Foundation.BPlusTree

/-!
Contract: how many pages a B+tree takes.

Owns: that a tree has fewer branches than leaves; how many pages an insertion uses up; and
that an insertion that a page limit stops found a tree with leaves for half of the pages.

Does not own: how many cells fit in a leaf.
-/

namespace MukhiDb.Foundation

variable {κ α : Type}

namespace Index

variable {height : Nat}

/-- The branches of subtrees, in number. -/
def branchCount (parts : List (Index κ height)) : Nat := (parts.flatMap branches).length

/-- The leaves of subtrees, in number. -/
def leafCount (parts : List (Index κ height)) : Nat := (parts.flatMap leaves).length

@[simp] theorem branchCount_nil : branchCount ([] : List (Index κ height)) = 0 := rfl

@[simp] theorem branchCount_cons (part : Index κ height) (rest : List (Index κ height)) :
    branchCount (part :: rest) = part.branches.length + branchCount rest := by
  simp [branchCount]

@[simp] theorem branchCount_append (front back : List (Index κ height)) :
    branchCount (front ++ back) = branchCount front + branchCount back := by
  simp [branchCount]

@[simp] theorem leafCount_nil : leafCount ([] : List (Index κ height)) = 0 := rfl

@[simp] theorem leafCount_cons (part : Index κ height) (rest : List (Index κ height)) :
    leafCount (part :: rest) = part.leaves.length + leafCount rest := by
  simp [leafCount]

@[simp] theorem leafCount_append (front back : List (Index κ height)) :
    leafCount (front ++ back) = leafCount front + leafCount back := by
  simp [leafCount]

theorem branchCount_perm {parts others : List (Index κ height)} (perm : parts.Perm others) :
    branchCount parts = branchCount others :=
  (perm.flatMap_right branches).length_eq

/-- The branches of subtrees are their roots and the branches below. -/
theorem branchCount_parts (parts : List (Index κ (height + 1))) :
    branchCount parts = parts.length + branchCount (parts.flatMap below) := by
  have perm := (branches_parts parts).length_eq
  rwa [List.length_append, List.length_map] at perm

/-- Subtrees with fewer branches than leaves each, side by side. -/
theorem branchCount_le {parts : List (Index κ height)}
    (each : ∀ part ∈ parts, part.branches.length < part.leaves.length) :
    branchCount parts + parts.length ≤ leafCount parts := by
  induction parts with
  | nil => exact Nat.le_refl _
  | cons part rest inductionHypothesis =>
      have first := each part List.mem_cons_self
      have later := inductionHypothesis fun other member => each other (List.mem_cons_of_mem _ member)
      simp only [branchCount_cons, leafCount_cons, List.length_cons]
      omega

/-- A tree whose branches have two children at least has fewer branches than leaves. -/
theorem Sized.branches_lt {limit : Nat} {index : Index κ height} (sized : index.Sized limit) :
    index.branches.length < index.leaves.length := by
  induction height with
  | zero => exact Nat.zero_lt_one
  | succ height inductionHypothesis =>
      obtain ⟨page, row, rfl⟩ := index.exists_branch
      obtain ⟨some, -, children⟩ := sized_branch.mp sized
      have bound := branchCount_le fun child member => inductionHypothesis (children child member)
      have size : row.children.length = row.entries.length + 1 := by simp [Row.children]
      rw [branches_branch, leaves_branch, List.length_cons]
      unfold branchCount leafCount at bound
      omega

/-! ### Propagation -/

/-- A branch takes in a child: the pages that it uses. -/
theorem Spread.size {promoted : Promoted κ (height + 1)} {page count : Nat}
    {given lost : List (Index κ height)} (spread : Spread promoted page count given lost) :
    promoted.parts.length + count = promoted.count + 1 ∧
      branchCount promoted.parts + branchCount lost = promoted.parts.length + branchCount given := by
  have pages := congrArg List.length spread.pages
  have grown := spread.grown
  have children := branchCount_perm spread.children
  rw [List.length_map, List.length_cons, List.length_range'] at pages
  rw [branchCount_append] at children
  rw [branchCount_parts]
  omega

section Ordered

variable [LinearOrder κ]

/-- Propagation that ends uses one page for each new branch. -/
theorem promote_size (most limit : Nat) (index : Index κ height) (key separator : κ)
    (new count : Nat)
    (ends : (index.promote most limit key separator new count).promotion ≠ .full) :
    branchCount (index.promote most limit key separator new count).parts + count =
      index.branches.length + (index.promote most limit key separator new count).count := by
  induction height with
  | zero =>
      obtain ⟨page, rfl⟩ := index.exists_leaf
      simp [promote, Promoted.parts]
  | succ height inductionHypothesis =>
      obtain ⟨page, row, rfl⟩ := index.exists_branch
      obtain ⟨before, after, lost, old, spread, full⟩ :=
        promote_spread most limit page row key separator new count rfl
      have inner := inductionHypothesis (pick row.first row.entries key) fun stopped => ends (full stopped)
      obtain ⟨used, branches⟩ := spread.size
      have size := congrArg branchCount old
      rw [spread.complete ends] at branches
      rw [branches_branch, List.length_cons]
      simp only [branchCount_append, branchCount_cons, branchCount_nil] at branches size
      unfold branchCount at size inner branches ⊢
      omega

section Sized

variable {most : Nat} (enough : 2 ≤ most) {index : Index κ height} (sized : index.Sized most)

include enough sized

/-- Propagation that ends uses fewer pages than there are leaves, beyond the branches. -/
theorem promote_count_ends (limit : Nat) (key separator : κ) (new count : Nat)
    (ends : (index.promote most limit key separator new count).promotion ≠ .full) :
    (index.promote most limit key separator new count).count + index.branches.length ≤
      count + index.leaves.length := by
  have size := promote_size most limit index key separator new count ends
  obtain ⟨lost, leaves, complete⟩ := promote_leaves most limit index key separator new count
  have whole := leaves.length_eq
  have bound := branchCount_le fun part member =>
    (promote_sized enough limit sized key separator new count part member).branches_lt
  have some : 1 ≤ (index.promote most limit key separator new count).parts.length := by
    simp [Promoted.parts]
  rw [complete ends, List.append_nil, List.length_cons] at whole
  unfold leafCount at bound
  omega

/-- The same when a page limit stops it. -/
theorem promote_count (limit : Nat) (key separator : κ) (new count : Nat) :
    (index.promote most limit key separator new count).count + index.branches.length ≤
      count + index.leaves.length := by
  induction height with
  | zero => exact promote_count_ends enough sized limit key separator new count (by simp [promote])
  | succ height inductionHypothesis =>
      by_cases ends : (index.promote most limit key separator new count).promotion = .full
      · obtain ⟨page, row, rfl⟩ := index.exists_branch
        obtain ⟨some, -, children⟩ := sized_branch.mp sized
        have inner := inductionHypothesis (children _ (pick_mem row.first row.entries key))
        obtain ⟨before, after, lost, old, spread, -⟩ :=
          promote_spread most limit page row key separator new count rfl
        obtain ⟨used, -⟩ := spread.size
        have others := branchCount_le fun child (member : child ∈ before ++ after) =>
          (children child (by
            rw [old]
            exact List.mem_append.mpr ((List.mem_append.mp member).imp_right
              (List.mem_cons_of_mem _)))).branches_lt
        have one : (promote most limit (branch page row) key separator new count).parts.length = 1 := by
          simp [Promoted.parts, ends]
        have size := congrArg List.length old
        have branchSize := congrArg branchCount old
        have leafSize := congrArg leafCount old
        have length : row.children.length = row.entries.length + 1 := by simp [Row.children]
        simp only [branchCount_append, branchCount_cons, leafCount_append, leafCount_cons,
          List.length_append, List.length_cons] at others size branchSize leafSize
        rw [branches_branch, leaves_branch, List.length_cons]
        unfold branchCount at others branchSize
        unfold leafCount at others leafSize
        omega
      · exact promote_count_ends enough sized limit key separator new count ends

end Sized

/-- Propagation that is stopped found the pages used up. -/
theorem promote_full (most limit : Nat) (index : Index κ height) (key separator : κ)
    (new count : Nat)
    (stopped : (index.promote most limit key separator new count).promotion = .full) :
    limit ≤ (index.promote most limit key separator new count).count := by
  induction height with
  | zero => cases stopped
  | succ height inductionHypothesis =>
      obtain ⟨page, row, rfl⟩ := index.exists_branch
      have inner := inductionHypothesis (pick row.first row.entries key)
      rw [promote_branch] at stopped ⊢
      dsimp only at stopped ⊢
      generalize (pick row.first row.entries key).promote most limit key separator new count = child at *
      cases promoted : child.promotion with
      | done =>
          rw [promoted] at stopped
          cases stopped
      | full =>
          simp only
          exact inner promoted
      | up separator right =>
          rw [promoted] at stopped
          simp only at stopped ⊢
          rcases addChild_cases most limit child.count page
              (replace row.first row.entries key child.index) separator right with
            ⟨-, run⟩ | ⟨-, left, middle, later, -, -, ⟨-, run⟩ | ⟨used, run⟩⟩
          · rw [run] at stopped
            cases stopped
          · rw [run] at stopped
            cases stopped
          · rw [run]
            exact used

end Ordered

end Index

/-! ### Trees -/

namespace BPlusTree

/-- Every page from `floor` on is a page of the tree, every leaf of the chain is reached by the
index, and no leaf is empty unless it is the only one. -/
structure Compact (floor : Nat) (tree : BPlusTree κ α) (count : Nat) : Prop where
  used : count = floor + tree.pages.length
  reached : tree.index.leaves.length = tree.chain.length
  filled : tree.chain.length = 1 ∨ ∀ leaf ∈ tree.chain, leaf.cells ≠ []

theorem compact_single (page : Nat) : Compact page (single page : BPlusTree κ α) (page + 1) where
  used := rfl
  reached := rfl
  filled := Or.inl rfl

/-- Leaves that are not empty are no more than the cells. -/
theorem length_le_rows {chain : List (Leaf κ α)} (filled : ∀ leaf ∈ chain, leaf.cells ≠ []) :
    chain.length ≤ (Leaf.rows chain).length := by
  induction chain with
  | nil => exact Nat.le_refl _
  | cons leaf rest inductionHypothesis =>
      have some := List.length_pos_of_ne_nil (filled leaf List.mem_cons_self)
      have later := inductionHypothesis fun other member => filled other (List.mem_cons_of_mem _ member)
      simp only [Leaf.rows, List.flatMap_cons, List.length_append, List.length_cons] at later ⊢
      omega

theorem pages_length (tree : BPlusTree κ α) :
    tree.pages.length = tree.index.branches.length + tree.chain.length := by
  simp [pages, Leaf.pages]

variable {layout : Layout κ α} {floor count : Nat} {tree : BPlusTree κ α}

/-- A tree takes fewer pages than two for each leaf. -/
theorem Compact.count_lt (compact : Compact floor tree count) (linked : Linked layout floor tree count) :
    count < floor + 2 * tree.chain.length := by
  have used := compact.used
  have reached := compact.reached
  have fewer := linked.sized.branches_lt
  rw [pages_length] at used
  omega

/-- The number of rows bounds the pages of a tree. -/
theorem Compact.count_le_rows (compact : Compact floor tree count)
    (linked : Linked layout floor tree count) :
    count < floor + 2 * max 1 tree.rows.length := by
  have bound := compact.count_lt linked
  have leaves : tree.chain.length ≤ max 1 tree.rows.length := by
    rcases compact.filled with one | filled
    · omega
    · have := length_le_rows filled
      unfold rows
      omega
  omega

/-- A new root over what became of an index. -/
theorem raise_compact {chain : List (Leaf κ α)} {height : Nat} {promoted : Index.Promoted κ height}
    (complete : (raise layout chain promoted).complete = true)
    (used : promoted.count = floor + Index.branchCount promoted.parts + chain.length)
    (reached : Index.leafCount promoted.parts = chain.length)
    (filled : ∀ leaf ∈ chain, leaf.cells ≠ []) :
    Compact floor (raise layout chain promoted).tree (raise layout chain promoted).count := by
  rcases promoted with ⟨index, promotion, last⟩
  unfold raise at complete ⊢
  cases promotion with
  | done =>
      simp [Index.Promoted.parts] at used reached
      exact ⟨by rw [pages_length]; simp only; omega, reached, Or.inr filled⟩
  | full => cases complete
  | up separator right =>
      dsimp only at complete ⊢
      split at complete
      · next room =>
          simp [Index.Promoted.parts] at used reached
          rw [if_pos room]
          refine ⟨?_, ?_, Or.inr filled⟩
          · rw [pages_length]
            simp [Row.children]
            omega
          · simpa [Row.children] using reached
      · cases complete

/-- The halves of a split leaf. -/
theorem halves_filled {left : List (κ × α)} (some : 0 < left.length) (page other : Nat) (separator : κ)
    (first : α) (later : List (κ × α)) :
    ∀ leaf ∈ ([⟨page, left⟩, ⟨other, (separator, first) :: later⟩] : List (Leaf κ α)),
      leaf.cells ≠ [] := by
  intro leaf member
  rcases List.mem_cons.mp member with rfl | last
  · exact List.ne_nil_of_length_pos some
  · obtain rfl := List.mem_singleton.mp last
    exact List.cons_ne_nil _ _

section Ordered

variable [LinearOrder κ]

/-- No leaf is empty after a cell was placed in one, or after one was split into two that are
not. -/
theorem filled_retarget (key : κ) {leaves : List (Leaf κ α)} (linked : Linked layout floor tree count)
    (filled : tree.chain.length = 1 ∨ ∀ leaf ∈ tree.chain, leaf.cells ≠ [])
    (new : ∀ leaf ∈ leaves, leaf.cells ≠ []) :
    ∀ leaf ∈ tree.retarget key leaves, leaf.cells ≠ [] := by
  obtain ⟨before, after, around, other⟩ := linked.around key
  rw [other]
  intro leaf member
  simp only [List.mem_append] at member
  rcases member with (front | inside) | back
  · rcases filled with one | filled
    · rw [around] at one
      simp only [List.length_append, List.length_cons] at one
      rw [List.eq_nil_of_length_eq_zero (by omega : before.length = 0)] at front
      cases front
    · exact filled leaf (by rw [around]; exact List.mem_append_left _ front)
  · exact new leaf inside
  · rcases filled with one | filled
    · rw [around] at one
      simp only [List.length_append, List.length_cons] at one
      rw [List.eq_nil_of_length_eq_zero (by omega : after.length = 0)] at back
      cases back
    · exact filled leaf (by
        rw [around]
        exact List.mem_append_right _ (List.mem_cons_of_mem _ back))

/-- The leaves that take the place of one, in number. -/
theorem retarget_length (key : κ) (linked : Linked layout floor tree count) (leaf : Leaf κ α)
    (rest : List (Leaf κ α)) :
    (tree.retarget key (leaf :: rest)).length = tree.chain.length + rest.length := by
  obtain ⟨before, after, around, other⟩ := linked.around key
  rw [other, around]
  simp only [List.length_append, List.length_cons]
  omega

/-- The rows when leaves that share one more cell take the place of one. -/
theorem retarget_rows {key : κ} {row : α} (linked : Linked layout floor tree count)
    {leaves : List (Leaf κ α)} (cells : Leaf.rows leaves = place (tree.target key) key row) :
    (Leaf.rows (tree.retarget key leaves)).length = tree.rows.length + 1 := by
  obtain ⟨before, after, around, other⟩ := linked.around key
  have size := congrArg List.length cells
  rw [place_length] at size
  unfold rows
  rw [other, around]
  simp only [Leaf.rows, List.flatMap_append, List.flatMap_cons, List.length_append] at size ⊢
  omega

section Insert

variable (splits : layout.Splits) (linked : Linked layout floor tree count)
  (compact : Compact floor tree count) {key : κ} {row : α}
  (some : layout.room (tree.target key) (key, row) = false →
    0 < layout.cut (place (tree.target key) key row))

include splits linked compact some

/-- An insertion that is complete keeps a tree compact. -/
theorem insert_compact (complete : (insert layout tree count key row).complete = true) :
    Compact floor (insert layout tree count key row).tree (insert layout tree count key row).count := by
  have used := compact.used
  have reached := compact.reached
  rw [pages_length] at used
  rcases insert_cases splits tree count key row with
    ⟨-, run⟩ | ⟨-, -, run⟩ | ⟨noRoom, -, left, separator, first, later, cells, half, run⟩
  · have length := retarget_length key linked
      ⟨tree.index.route key, place (tree.target key) key row⟩ []
    rw [run]
    refine ⟨?_, ?_, Or.inr (filled_retarget key linked compact.filled ?_)⟩
    · rw [pages_length, length]
      exact used
    · rw [length]
      exact reached
    · intro leaf member
      obtain rfl := List.mem_singleton.mp member
      exact List.ne_nil_of_length_pos (by rw [place_length]; exact Nat.succ_pos _)
  · rw [run] at complete
    cases complete
  · have length := retarget_length key linked ⟨tree.index.route key, left⟩
      [⟨count, (separator, first) :: later⟩]
    have filled := filled_retarget key linked compact.filled
      (halves_filled (by rw [half]; exact some noRoom) (tree.index.route key) count separator first later)
    rw [run] at complete ⊢
    have ends := notFull_of_complete complete
    have size := tree.index.promote_size layout.most layout.limit key separator count (count + 1) ends
    obtain ⟨lost, leaves, whole⟩ := tree.index.promote_leaves layout.most layout.limit key separator
      count (count + 1)
    have leafSize := leaves.length_eq
    rw [whole ends, List.append_nil, List.length_cons] at leafSize
    refine raise_compact complete ?_ ?_ filled
    · rw [length, List.length_singleton]
      omega
    · rw [length, List.length_singleton]
      unfold Index.leafCount
      omega

/-- An insertion that a page limit stops found rows for half of the pages. -/
theorem insert_stopped (stopped : (insert layout tree count key row).complete = false) :
    layout.limit < floor + 2 * (tree.rows.length + 1) := by
  have used := compact.used
  have reached := compact.reached
  have early := compact.count_le_rows linked
  rw [pages_length] at used
  rcases insert_cases splits tree count key row with
    ⟨-, run⟩ | ⟨-, limit, run⟩ | ⟨noRoom, -, left, separator, first, later, cells, half, run⟩
  · rw [run] at stopped
    cases stopped
  · omega
  · have length := retarget_length key linked ⟨tree.index.route key, left⟩
      [⟨count, (separator, first) :: later⟩]
    have rows := retarget_rows linked
      (show Leaf.rows [⟨tree.index.route key, left⟩, ⟨count, (separator, first) :: later⟩] =
        place (tree.target key) key row by simp [Leaf.rows, cells])
    have leaves := length_le_rows (filled_retarget key linked compact.filled
      (halves_filled (by rw [half]; exact some noRoom) (tree.index.route key) count separator first later))
    have bound := Index.promote_count splits.enough linked.sized layout.limit key separator count
      (count + 1)
    have full := tree.index.promote_full layout.most layout.limit key separator count (count + 1)
    rw [run] at stopped
    generalize tree.index.promote layout.most layout.limit key separator count (count + 1) =
      promoted at *
    have limit : layout.limit ≤ promoted.count := by
      rcases promoted with ⟨index, promotion, last⟩
      cases promotion with
      | done => cases stopped
      | full => exact full rfl
      | up separator right =>
          unfold raise at stopped
          dsimp only at stopped
          split at stopped
          · cases stopped
          · next none => exact Nat.le_of_not_lt none
    simp only [List.length_singleton] at length
    omega

end Insert

end Ordered

end BPlusTree

end MukhiDb.Foundation
