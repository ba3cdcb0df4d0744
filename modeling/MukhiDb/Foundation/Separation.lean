import MukhiDb.Foundation.OrderedTree

/-!
Contract: what the separators of an index say about the keys below it.

Owns: parted rows, in which every key left of a separator is below it and every key
right of it is not; separated indexes, in which that holds of every branch; the
passage from the flat index to every branch; and the fact that an arranged tree
with distinct keys and leaves that start with their separator is separated.

Does not own: insertion.
-/

namespace MukhiDb.Foundation

variable {κ α τ υ : Type}

/-! ### Rows of rows, and rows of leaves -/

theorem Row.keys_sublist_flatten (read : υ → Row κ τ) (first : υ) (entries : List (κ × υ)) :
    (entries.map Prod.fst).Sublist (flatten read first entries).keys := by
  induction entries generalizing first with
  | nil => exact List.nil_sublist _
  | cons entry rest inductionHypothesis =>
      rw [flatten, keys_join, List.map_cons]
      exact ((inductionHypothesis entry.2).cons_cons entry.1).trans
        (List.sublist_append_right _ _)

theorem Row.child_keys_sublist {read : υ → Row κ τ} {first : υ} {entries : List (κ × υ)}
    {child : υ} (member : child ∈ (Row.mk first entries).children) :
    (read child).keys.Sublist (flatten read first entries).keys := by
  induction entries generalizing first with
  | nil =>
      obtain rfl := List.mem_singleton.mp member
      exact List.Sublist.refl _
  | cons entry rest inductionHypothesis =>
      rw [flatten, keys_join]
      rcases List.mem_cons.mp member with rfl | inside
      · exact List.sublist_append_left _ _
      · exact (inductionHypothesis inside).trans
          ((List.sublist_cons_self _ _).trans (List.sublist_append_right _ _))

namespace Leaf

theorem inorder_join (left : Row κ (Leaf κ α)) (separator : κ) (right : Row κ (Leaf κ α)) :
    inorder (left.join separator right).first (left.join separator right).entries =
      inorder left.first left.entries ++ separator :: inorder right.first right.entries := by
  obtain ⟨first, entries⟩ := left
  unfold Row.join
  dsimp only
  induction entries generalizing first with
  | nil => rfl
  | cons entry rest inductionHypothesis =>
      rw [List.cons_append, inorder, inorder, inductionHypothesis, List.append_assoc]
      rfl

theorem mem_inorder_of_child {row : Row κ (Leaf κ α)} {leaf : Leaf κ α} {key : κ}
    (member : leaf ∈ row.children) (held : key ∈ leaf.cells.map Prod.fst) :
    key ∈ inorder row.first row.entries := by
  refine (rows_sublist_inorder row.first row.entries).subset ?_
  rw [rows, List.map_flatMap]
  exact List.mem_flatMap.mpr ⟨leaf, member, held⟩

end Leaf

section Ordered

variable [LinearOrder κ]

/-! ### Parted rows -/

/-- Every separator is above the keys of the children left of it and not above the keys
of the children right of it. -/
def Row.Parted (keysOf : τ → List κ) (row : Row κ τ) : Prop :=
  ∀ (left : Row κ τ) (separator : κ) (right : Row κ τ), row = left.join separator right →
    (∀ child ∈ left.children, ∀ key ∈ keysOf child, key < separator) ∧
      ∀ child ∈ right.children, ∀ key ∈ keysOf child, separator ≤ key

theorem Row.Parted.join {keysOf : τ → List κ} {left right : Row κ τ} {separator : κ}
    (parted : (left.join separator right).Parted keysOf) :
    left.Parted keysOf ∧ right.Parted keysOf := by
  constructor
  · rintro before middle after rfl
    obtain ⟨below, above⟩ := parted before middle (after.join separator right)
      (Row.join_assoc _ _ _ _ _)
    refine ⟨below, fun child member => above child ?_⟩
    rw [Row.children_join]
    exact List.mem_append_left _ member
  · rintro before middle after rfl
    obtain ⟨below, above⟩ := parted (left.join separator before) middle after
      (Row.join_assoc _ _ _ _ _).symm
    refine ⟨fun child member => below child ?_, above⟩
    rw [Row.children_join]
    exact List.mem_append_right _ member

/-- In a parted row of rows, every row is parted. -/
theorem Row.Parted.child {keysOf : τ → List κ} {read : υ → Row κ τ} {first : υ}
    {entries : List (κ × υ)} (parted : (flatten read first entries).Parted keysOf) {child : υ}
    (member : child ∈ (Row.mk first entries).children) : (read child).Parted keysOf := by
  induction entries generalizing first with
  | nil =>
      obtain rfl := List.mem_singleton.mp member
      exact parted
  | cons entry rest inductionHypothesis =>
      obtain ⟨own, later⟩ := Row.Parted.join parted
      rcases List.mem_cons.mp member with rfl | inside
      · exact own
      · exact inductionHypothesis later inside

/-! ### Separated indexes -/

namespace Index

variable {height : Nat}

/-- The separators of every branch increase strictly and part the keys of the leaves
below it. -/
def Separated (keysAt : Nat → List κ) : {height : Nat} → Index κ height → Prop
  | 0, _ => True
  | _ + 1, ⟨_, row⟩ =>
      row.keys.Pairwise (· < ·) ∧ row.Parted (fun child => child.leaves.flatMap keysAt) ∧
        ∀ child ∈ row.children, child.Separated keysAt

/-- A parted flat index with strict separators is separated at every branch. -/
theorem separated_of_flat {keysAt : Nat → List κ} {index : Index κ height}
    (strict : index.flat.keys.Pairwise (· < ·)) (parted : index.flat.Parted keysAt) :
    index.Separated keysAt := by
  induction height with
  | zero => trivial
  | succ height inductionHypothesis =>
      obtain ⟨page, ⟨first, entries⟩, rfl⟩ := index.exists_branch
      rw [flat_branch] at strict parted
      refine ⟨strict.sublist (Row.keys_sublist_flatten flat first entries), ?_, ?_⟩
      · intro left separator right whole
        have joined : Row.flatten flat first entries =
            (Row.flatten flat left.first left.entries).join separator
              (Row.flatten flat right.first right.entries) := by
          obtain ⟨rfl, rfl⟩ := Row.mk.inj whole
          exact Row.flatten_append flat left.first left.entries (separator, right.first) right.entries
        have leavesOf : ∀ row : Row κ (Index κ height),
            (Row.flatten flat row.first row.entries).children = row.children.flatMap leaves :=
          fun row => flat_children (branch page row)
        obtain ⟨below, above⟩ := parted _ _ _ joined
        rw [leavesOf] at below above
        refine ⟨fun child member key inside => ?_, fun child member key inside => ?_⟩
        · obtain ⟨leaf, under, held⟩ := List.mem_flatMap.mp inside
          exact below leaf (List.mem_flatMap.mpr ⟨child, member, under⟩) key held
        · obtain ⟨leaf, under, held⟩ := List.mem_flatMap.mp inside
          exact above leaf (List.mem_flatMap.mpr ⟨child, member, under⟩) key held
      · intro child member
        exact inductionHypothesis (strict.sublist (Row.child_keys_sublist member))
          (parted.child member)

end Index

/-! ### Separated trees -/

namespace Leaf

/-- Leaves in order with distinct keys that start with their separator are parted. -/
theorem parted_of_ordered {row : Row κ (Leaf κ α)} (ordered : Ordered row.first row.entries)
    (headed : Headed row.entries)
    (distinct : ((rows row.children).map Prod.fst).Nodup) :
    row.Parted fun leaf => leaf.cells.map Prod.fst := by
  rintro left separator right rfl
  unfold Ordered at ordered
  rw [inorder_join, List.pairwise_append, List.pairwise_cons] at ordered
  obtain ⟨-, ⟨above, -⟩, below⟩ := ordered
  refine ⟨fun leaf member key held => ?_, fun leaf member key held =>
    above key (mem_inorder_of_child member held)⟩
  have before := mem_inorder_of_child member held
  refine lt_of_le_of_ne (below key before separator List.mem_cons_self) ?_
  rintro rfl
  -- the separator is a key of the leaf right after it, so it is in no leaf before it
  have starts : right.first.StartsWith key :=
    headed (key, right.first) (List.mem_append_right _ List.mem_cons_self)
  rw [Row.children_join, rows, List.flatMap_append, List.map_append, List.nodup_append] at distinct
  refine distinct.2.2 key ?_ key ?_ rfl
  · rw [List.map_flatMap]
    exact List.mem_flatMap.mpr ⟨leaf, member, held⟩
  · rw [List.map_flatMap]
    exact List.mem_flatMap.mpr ⟨right.first, List.mem_cons_self, List.mem_of_head? starts⟩

end Leaf

namespace BPlusTree

variable {layout : Layout κ α} {floor count : Nat} {tree : BPlusTree κ α}
  {row : Row κ (Leaf κ α)}

/-- The keys of the leaf at a page. -/
def keysAt (tree : BPlusTree κ α) (page : Nat) : List κ :=
  (Leaf.cellsAt tree.chain page).map Prod.fst

theorem Arranged.leaves (arranged : Arranged tree row) :
    tree.index.leaves = Leaf.pages tree.chain := by
  rw [← Index.flat_children, ← arranged.flat, Row.children_map, arranged.chain]
  rfl

/-- With distinct keys, the separators of every branch part the keys below it. -/
theorem Arranged.separated (arranged : Arranged tree row) (linked : Linked layout floor tree count)
    (headed : Leaf.Headed row.entries) (distinct : (tree.rows.map Prod.fst).Nodup) :
    tree.index.Separated tree.keysAt := by
  have distinctRow : ((Leaf.rows row.children).map Prod.fst).Nodup := by
    rw [arranged.chain]
    exact distinct
  have pagesDistinct : (Leaf.pages tree.chain).Nodup := (List.nodup_append.mp linked.distinct).2.1
  have keys : ∀ leaf ∈ row.children, tree.keysAt leaf.page = leaf.cells.map Prod.fst := by
    intro leaf member
    rw [arranged.chain] at member
    obtain ⟨before, after, around⟩ := List.append_of_mem member
    unfold keysAt
    rw [around] at pagesDistinct ⊢
    rw [Leaf.cellsAt_around pagesDistinct]
  apply Index.separated_of_flat
  · rw [← arranged.flat, Row.keys_map]
    exact headed.strict arranged.ordered distinctRow
  · rw [← arranged.flat]
    rintro left separator right whole
    -- a join of pages comes from a join of leaves
    obtain ⟨first, entries⟩ := row
    obtain ⟨leftFirst, leftEntries⟩ := left
    obtain ⟨rightFirst, rightEntries⟩ := right
    obtain ⟨rfl, entriesEq⟩ := Row.mk.inj whole
    obtain ⟨leftPart, rest, rfl, rfl, restEq⟩ := List.map_eq_append_iff.mp entriesEq
    obtain ⟨middle, rightPart, rfl, middleEq, rfl⟩ := List.map_eq_cons_iff.mp restEq
    obtain ⟨rfl, rfl⟩ := Prod.mk.inj middleEq
    obtain ⟨below, above⟩ := Leaf.parted_of_ordered arranged.ordered headed distinctRow
      ⟨first, leftPart⟩ middle.1 ⟨middle.2, rightPart⟩ rfl
    have split : (Row.mk first (leftPart ++ middle :: rightPart)).children =
        (Row.mk first leftPart).children ++ (Row.mk middle.2 rightPart).children :=
      Row.children_join ⟨first, leftPart⟩ middle.1 ⟨middle.2, rightPart⟩
    rw [split] at keys
    refine ⟨fun page member key held => ?_, fun page member key held => ?_⟩
    · have mapped : page ∈ ((Row.mk first leftPart).map Leaf.page).children := member
      rw [Row.children_map] at mapped
      obtain ⟨leaf, inside, rfl⟩ := List.mem_map.mp mapped
      rw [keys leaf (List.mem_append_left _ inside)] at held
      exact below leaf inside key held
    · have mapped : page ∈ ((Row.mk middle.2 rightPart).map Leaf.page).children := member
      rw [Row.children_map] at mapped
      obtain ⟨leaf, inside, rfl⟩ := List.mem_map.mp mapped
      rw [keys leaf (List.mem_append_right _ inside)] at held
      exact above leaf inside key held

end BPlusTree

end Ordered

end MukhiDb.Foundation
