import Mathlib.Logic.Relation
import MukhiDb.BTree.Insertion

/-!
Contract: the pages that the pointers of a tree lead to.

Owns: what a page points to, a child of an internal node or the next leaf; the fact that
the pointers of pages that hold a tree stay in the tree; and writing a page outside of a
tree.

Does not own: how trees grow.
-/

namespace MukhiDb.Model.BTree

open MukhiDb.Foundation

/-- A page points to another: an internal node to its children, a leaf to the next leaf if
there is one. -/
inductive PointsTo (page : Page) (target : Nat) : Prop where
  | child (count index : Nat) (kind : page.byte 0 ≠ nodeTypeLeaf)
      (counted : internalNumKeys page = .ok count) (inside : index ≤ count)
      (found : childAt page count index = .ok target)
  | nextLeaf (kind : page.byte 0 = nodeTypeLeaf) (found : leafNextLeaf page = .ok target)
      (more : target ≠ 0)

theorem PointsTo.of_node {page : Page} {row : Foundation.Row Int64 Nat} {target : Nat}
    (points : PointsTo page target) (node : NodeAt page row) : target ∈ row.children := by
  cases points with
  | child count index kind counted inside found =>
      rw [nodeKeys_ok node] at counted
      obtain rfl := Except.ok.inj counted
      have child := childAt_ok node index
      rw [Row.pairs_length, found] at child
      rw [Except.ok.inj child]
      exact Row.pairs_child row.first row.entries index
  | nextLeaf kind found more => exact absurd kind node.notLeaf

theorem PointsTo.of_leaf {page : Page} {cells : List (Int64 × Bytes)} {next target : Nat}
    (points : PointsTo page target) (leaf : LeafAt page cells next) : target = next ∧ next ≠ 0 := by
  cases points with
  | child count index kind counted inside found => exact absurd leaf.kind kind
  | nextLeaf kind found more =>
      rw [leafNextLeaf_ok leaf] at found
      obtain rfl := Except.ok.inj found
      exact ⟨rfl, more⟩

section Held

variable {book : List Page} {floor : Nat} {tree : Tree}

/-- The next leaf of a leaf of a chain is in the chain. -/
theorem Chained.next {chain : List (Leaf Int64 Bytes)} (chained : Chained book chain 0) {page : Nat}
    (member : page ∈ Leaf.pages chain) :
    ∃ cells next, LeafIn book page cells next ∧ (next = 0 ∨ next ∈ Leaf.pages chain) := by
  obtain ⟨leaf, inside, rfl⟩ := List.mem_map.mp member
  obtain ⟨before, after, rfl⟩ := List.append_of_mem inside
  refine ⟨leaf.cells, nextOf after 0, (chained_append.mp chained).2.1, ?_⟩
  cases after with
  | nil => exact Or.inl rfl
  | cons next rest =>
      exact Or.inr (List.mem_map.mpr ⟨next, by simp, rfl⟩)

/-- What a page of a tree points to is a page of the tree. -/
theorem Held.pointsTo (held : Held floor book tree) {page target : Nat} (member : page ∈ tree.pages)
    (points : PointsTo (binding.at_ book page) target) : target ∈ tree.pages := by
  rcases List.mem_append.mp member with isBranch | isLeaf
  · obtain ⟨row, node, children⟩ := held.nodes.children isBranch
    rcases children target (points.of_node (at_of_nodeIn node)) with branch | leaf
    · exact List.mem_append_left _ branch
    · exact List.mem_append_right _ (held.linked.reached.subset leaf)
  · obtain ⟨cells, next, leaf, known⟩ := held.chained.next isLeaf
    obtain ⟨rfl, more⟩ := points.of_leaf (at_of_leafIn leaf)
    exact List.mem_append_right _ (known.resolve_left more)

/-- Pointers lead from the root to pages of the tree only. -/
theorem Held.leadsTo (held : Held floor book tree) {page : Nat}
    (leads : Relation.ReflTransGen (fun page target => PointsTo (binding.at_ book page) target)
      tree.root page) : page ∈ tree.pages := by
  induction leads with
  | refl => exact root_mem held.linked
  | tail _ points inductionHypothesis => exact held.pointsTo inductionHypothesis points

/-- A page outside of a tree can be written. -/
theorem Held.set (held : Held floor book tree) {page : Nat} (outside : page ∉ tree.pages)
    (contents : Page) : Held floor (book.set page contents) tree := by
  have same (other : Nat) (member : other ∈ tree.pages) :
      (book.set page contents)[other]? = book[other]? := by
    apply List.getElem?_set_ne
    rintro rfl
    exact outside member
  exact
    { small := by rw [List.length_set]; exact held.small
      linked := by rw [List.length_set]; exact held.linked
      nodes := by
        apply held.nodes.mono
        rintro other member row ⟨node, found, holds⟩
        exact ⟨node, (same other (List.mem_append_left _ member)).trans found, holds⟩
      chained := held.chained.congr fun other member => same other (List.mem_append_right _ member) }

end Held

end MukhiDb.Model.BTree
