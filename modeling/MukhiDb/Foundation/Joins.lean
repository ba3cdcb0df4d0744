import Mathlib.Algebra.Order.Ring.Nat
import Mathlib.Data.List.Perm.Basic
import Mathlib.Data.List.ProdSigma
import Mathlib.Tactic.Common

/-!
Contract: joins of two lists.

Owns: the pairs that agree, in the order of a nested loop; when two joins of the same
lists are the same; and the fact that exchanging the sides gives the same pairs,
exchanged, in another order.

Does not own: what rows are, or when two of them agree.
-/

namespace MukhiDb.Foundation

variable {α β γ : Type}

/-- The pairs that agree, with the left element in the outer loop. -/
def joined (agree : α → β → Bool) (left : List α) (right : List β) : List (α × β) :=
  (left ×ˢ right).filter fun pair => agree pair.1 pair.2

variable {agree other : α → β → Bool} {left : List α} {right : List β}

theorem mem_joined {pair : α × β} :
    pair ∈ joined agree left right ↔
      pair.1 ∈ left ∧ pair.2 ∈ right ∧ agree pair.1 pair.2 = true := by
  unfold joined
  obtain ⟨l, r⟩ := pair
  rw [List.mem_filter, List.mem_product, and_assoc]

theorem joined_cons (head : α) (rest : List α) :
    joined agree (head :: rest) right =
      (right.filter (agree head)).map (Prod.mk head) ++ joined agree rest right := by
  unfold joined
  rw [List.product_cons, List.filter_append, List.filter_map]
  rfl

theorem joined_congr (same : ∀ l ∈ left, ∀ r ∈ right, agree l r = other l r) :
    joined agree left right = joined other left right := by
  unfold joined
  apply List.filter_congr
  rintro ⟨l, r⟩ member
  obtain ⟨leftMember, rightMember⟩ := List.mem_product.mp member
  exact same l leftMember r rightMember

/-- What agrees in one join agrees in the other, if their images are the same. -/
theorem agree_of_map_joined {image : α × β → γ}
    (injective : ∀ first ∈ left ×ˢ right, ∀ second ∈ left ×ˢ right,
      image first = image second → first = second)
    (same : (joined agree left right).map image = (joined other left right).map image)
    {l : α} {r : β} (leftMember : l ∈ left) (rightMember : r ∈ right)
    (agrees : agree l r = true) : other l r = true := by
  have member : image (l, r) ∈ (joined other left right).map image := by
    rw [← same]
    exact List.mem_map_of_mem (mem_joined.mpr ⟨leftMember, rightMember, agrees⟩)
  obtain ⟨pair, found, equal⟩ := List.mem_map.mp member
  obtain ⟨pairLeft, pairRight, agrees⟩ := mem_joined.mp found
  have whole := injective pair (List.mem_product.mpr ⟨pairLeft, pairRight⟩) (l, r)
    (List.mem_product.mpr ⟨leftMember, rightMember⟩) equal
  rw [whole] at agrees
  exact agrees

/-- Two joins of the same lists have the same images under an injection exactly if the
same pairs agree. -/
theorem map_joined_eq_iff {image : α × β → γ}
    (injective : ∀ first ∈ left ×ˢ right, ∀ second ∈ left ×ˢ right,
      image first = image second → first = second) :
    (joined agree left right).map image = (joined other left right).map image ↔
      ∀ l ∈ left, ∀ r ∈ right, agree l r = other l r := by
  constructor
  · intro same l leftMember r rightMember
    rw [Bool.eq_iff_iff]
    exact ⟨agree_of_map_joined injective same leftMember rightMember,
      agree_of_map_joined injective same.symm leftMember rightMember⟩
  · intro same
    rw [joined_congr same]

theorem product_swap_perm (left : List α) (right : List β) :
    ((left ×ˢ right).map Prod.swap).Perm (right ×ˢ left) := by
  induction left with
  | nil =>
      rw [List.product_nil]
      exact List.Perm.refl []
  | cons head rest inductionHypothesis =>
      rw [List.product_cons, List.map_append, List.map_map]
      refine (List.Perm.append_left _ inductionHypothesis).trans ?_
      exact List.map_append_flatMap_perm right (fun r => (r, head)) fun r => rest.map (Prod.mk r)

/-- Exchanging the sides of a join gives the same pairs, exchanged. -/
theorem joined_swap_perm (agree : α → β → Bool) (left : List α) (right : List β) :
    ((joined agree left right).map Prod.swap).Perm (joined (fun r l => agree l r) right left) := by
  unfold joined
  have swapped := (product_swap_perm left right).filter fun pair => agree pair.2 pair.1
  rw [List.filter_map] at swapped
  exact swapped

end MukhiDb.Foundation
