import MukhiDb.Foundation.Index

/-!
Contract: the index of a B+tree as one row of leaves.

Owns: the row of all leaves with one separator between neighbours; routing in it;
alignment, which says that every promoted separator has the slot that the key took
on its way down; and the fact that aligned propagation puts the new leaf right
after the one that the key is routed to.

Does not own: leaf contents.
-/

namespace MukhiDb.Foundation

variable {κ τ υ : Type}

/-! ### Rows of rows -/

theorem Row.flatten_append (read : υ → Row κ τ) (first : υ) (before : List (κ × υ))
    (middle : κ × υ) (later : List (κ × υ)) :
    flatten read first (before ++ middle :: later) =
      (flatten read first before).join middle.1 (flatten read middle.2 later) := by
  induction before generalizing first with
  | nil => rfl
  | cons entry rest inductionHypothesis =>
      rw [List.cons_append, flatten, flatten, inductionHypothesis, join_assoc]

section Ordered

variable [LinearOrder κ]

/-- The child at the slot of a key. -/
def Row.at (row : Row κ τ) (key : κ) : τ := pick row.first row.entries key

/-- Put a new child after the one at the slot of a key. -/
def Row.insertAfter (row : Row κ τ) (key separator : κ) (new : τ) : Row κ τ :=
  replaceTwo row.first row.entries key (row.at key) separator new

/-- Separators from left to right do not decrease. -/
def Row.Sorted (row : Row κ τ) : Prop := row.keys.Pairwise (· ≤ ·)

theorem Row.sorted_join {left right : Row κ τ} {key : κ} (sorted : (left.join key right).Sorted) :
    left.Sorted ∧ right.Sorted ∧ (∀ other ∈ left.keys, other ≤ key) ∧
      ∀ other ∈ right.keys, key ≤ other := by
  unfold Row.Sorted at *
  rw [keys_join, List.pairwise_append, List.pairwise_cons] at sorted
  obtain ⟨leftSorted, ⟨above, rightSorted⟩, apart⟩ := sorted
  exact ⟨leftSorted, rightSorted, fun other member => apart other member key List.mem_cons_self,
    above⟩

/-- A key past a separator belongs to the right row. -/
theorem Row.at_join_of_lt {left right : Row κ τ} {separator key : κ} (below : separator < key)
    (leftBelow : ∀ other ∈ left.keys, other ≤ separator) :
    (left.join separator right).at key = right.at key := by
  obtain ⟨first, entries⟩ := left
  unfold Row.at join
  dsimp only
  induction entries generalizing first with
  | nil => exact if_pos below
  | cons entry rest inductionHypothesis =>
      have entryBelow : entry.1 < key :=
        (leftBelow entry.1 List.mem_cons_self).trans_lt below
      rw [List.cons_append, pick, if_pos entryBelow]
      exact inductionHypothesis entry.2 fun other member =>
        leftBelow other (List.mem_cons_of_mem _ member)

/-- A key up to a separator belongs to the left row. -/
theorem Row.at_join_of_le {left right : Row κ τ} {separator key : κ} (above : ¬ separator < key) :
    (left.join separator right).at key = left.at key := by
  obtain ⟨first, entries⟩ := left
  unfold Row.at join
  dsimp only
  induction entries generalizing first with
  | nil => exact if_neg above
  | cons entry rest inductionHypothesis =>
      rw [List.cons_append, pick, pick]
      split
      · exact inductionHypothesis entry.2
      · rfl

theorem replaceTwo_join_of_lt {left right : Row κ τ} {separator key : κ}
    (below : separator < key) (leftBelow : ∀ other ∈ left.keys, other ≤ separator)
    (child : τ) (middle : κ) (new : τ) :
    replaceTwo (left.join separator right).first (left.join separator right).entries key child
        middle new =
      left.join separator (replaceTwo right.first right.entries key child middle new) := by
  obtain ⟨first, entries⟩ := left
  unfold Row.join
  dsimp only
  induction entries generalizing first with
  | nil =>
      rw [List.nil_append, replaceTwo, if_pos below]
      rfl
  | cons entry rest inductionHypothesis =>
      have entryBelow : entry.1 < key :=
        (leftBelow entry.1 List.mem_cons_self).trans_lt below
      have next := inductionHypothesis entry.2 fun other member =>
        leftBelow other (List.mem_cons_of_mem _ member)
      rw [List.cons_append, replaceTwo, if_pos entryBelow, next]
      rfl

theorem replaceTwo_join_of_le {left right : Row κ τ} {separator key : κ}
    (above : ¬ separator < key) (child : τ) (middle : κ) (new : τ) :
    replaceTwo (left.join separator right).first (left.join separator right).entries key child
        middle new =
      (replaceTwo left.first left.entries key child middle new).join separator right := by
  obtain ⟨first, entries⟩ := left
  unfold Row.join
  dsimp only
  induction entries generalizing first with
  | nil =>
      rw [List.nil_append]
      exact if_neg above
  | cons entry rest inductionHypothesis =>
      rw [List.cons_append, replaceTwo, replaceTwo]
      split
      · rw [inductionHypothesis entry.2]
        rfl
      · rfl

theorem Row.insertAfter_join_of_lt {left right : Row κ τ} {separator key : κ}
    (below : separator < key) (leftBelow : ∀ other ∈ left.keys, other ≤ separator)
    (middle : κ) (new : τ) :
    (left.join separator right).insertAfter key middle new =
      left.join separator (right.insertAfter key middle new) := by
  unfold Row.insertAfter
  rw [Row.at_join_of_lt below leftBelow, replaceTwo_join_of_lt below leftBelow]

theorem Row.insertAfter_join_of_le {left right : Row κ τ} {separator key : κ}
    (above : ¬ separator < key) (middle : κ) (new : τ) :
    (left.join separator right).insertAfter key middle new =
      (left.insertAfter key middle new).join separator right := by
  unfold Row.insertAfter
  rw [Row.at_join_of_le above, replaceTwo_join_of_le above]

/-- Flatten a row of rows, with another row in place of the picked child's. -/
def Row.flattenWith (read : υ → Row κ τ) :
    (first : υ) → (entries : List (κ × υ)) → (key : κ) → (with_ : Row κ τ) → Row κ τ
  | _, [], _, with_ => with_
  | first, entry :: rest, key, with_ =>
      if entry.1 < key then (read first).join entry.1 (flattenWith read entry.2 rest key with_)
      else with_.join entry.1 (flatten read entry.2 rest)

theorem Row.flatten_pick (read : υ → Row κ τ) (first : υ) (entries : List (κ × υ)) (key : κ) :
    flattenWith read first entries key (read (pick first entries key)) =
      flatten read first entries := by
  induction entries generalizing first with
  | nil => rfl
  | cons entry rest inductionHypothesis =>
      rw [flattenWith, pick, flatten]
      split
      · rw [inductionHypothesis]
      · rfl

theorem Row.flatten_replace (read : υ → Row κ τ) (first : υ) (entries : List (κ × υ)) (key : κ)
    (child : υ) :
    flatten read (replace first entries key child).first (replace first entries key child).entries =
      flattenWith read first entries key (read child) := by
  induction entries generalizing first with
  | nil => rfl
  | cons entry rest inductionHypothesis =>
      rw [flattenWith, replace]
      split
      · dsimp only
        rw [flatten, inductionHypothesis]
      · rfl

theorem Row.flatten_replaceTwo (read : υ → Row κ τ) (first : υ) (entries : List (κ × υ)) (key : κ)
    (child : υ) (separator : κ) (right : υ) :
    flatten read (replaceTwo first entries key child separator right).first
        (replaceTwo first entries key child separator right).entries =
      flattenWith read first entries key ((read child).join separator (read right)) := by
  induction entries generalizing first with
  | nil => rfl
  | cons entry rest inductionHypothesis =>
      rw [flattenWith, replaceTwo]
      split
      · dsimp only
        rw [flatten, inductionHypothesis]
      · dsimp only
        rw [flatten, flatten, join_assoc]

/-- The child at the slot of a key, in a row of rows. -/
theorem Row.at_flatten {read : υ → Row κ τ} {first : υ} {entries : List (κ × υ)} {key : κ}
    (sorted : (flatten read first entries).Sorted) :
    (flatten read first entries).at key = (read (pick first entries key)).at key := by
  induction entries generalizing first with
  | nil => rfl
  | cons entry rest inductionHypothesis =>
      obtain ⟨-, sortedRest, leftBelow, -⟩ := sorted_join sorted
      rw [flatten, pick]
      split
      · next below =>
          rw [at_join_of_lt below leftBelow]
          exact inductionHypothesis sortedRest
      · next above => exact at_join_of_le above

/-- A new child after the one at the slot of a key, in a row of rows. -/
theorem Row.insertAfter_flatten {read : υ → Row κ τ} {first : υ} {entries : List (κ × υ)} {key : κ}
    (sorted : (flatten read first entries).Sorted) (separator : κ) (new : τ) :
    (flatten read first entries).insertAfter key separator new =
      flattenWith read first entries key
        ((read (pick first entries key)).insertAfter key separator new) := by
  induction entries generalizing first with
  | nil => rfl
  | cons entry rest inductionHypothesis =>
      obtain ⟨-, sortedRest, leftBelow, -⟩ := sorted_join sorted
      rw [flatten, flattenWith, pick]
      split
      · next below =>
          rw [insertAfter_join_of_lt below leftBelow, inductionHypothesis sortedRest]
      · next above => exact insertAfter_join_of_le above separator new

/-- The picked child's row is part of the flat row. -/
theorem Row.flattenWith_sublist (read : υ → Row κ τ) (first : υ) (entries : List (κ × υ)) (key : κ)
    (with_ : Row κ τ) : with_.keys.Sublist (flattenWith read first entries key with_).keys := by
  induction entries generalizing first with
  | nil => exact List.Sublist.refl _
  | cons entry rest inductionHypothesis =>
      rw [flattenWith]
      split
      · rw [keys_join]
        exact (inductionHypothesis entry.2).trans
          ((List.sublist_cons_self _ _).trans (List.sublist_append_right _ _))
      · rw [keys_join]
        exact List.sublist_append_left _ _

/-- In a strictly sorted flat row, a separator of the picked child has the slot of the key. -/
theorem Row.slot_of_strict {read : υ → Row κ τ} {first : υ} {entries : List (κ × υ)} {key : κ}
    {with_ : Row κ τ} (strict : (flattenWith read first entries key with_).keys.Pairwise (· < ·))
    {separator : κ} (member : separator ∈ with_.keys) :
    slot entries separator = slot entries key := by
  induction entries generalizing first with
  | nil => rfl
  | cons entry rest inductionHypothesis =>
      rw [flattenWith] at strict
      rw [slot, slot]
      by_cases below : entry.1 < key
      · rw [if_pos below, keys_join, List.pairwise_append, List.pairwise_cons] at strict
        obtain ⟨-, ⟨above, strictRest⟩, -⟩ := strict
        have inside := (flattenWith_sublist read entry.2 rest key with_).subset member
        rw [if_pos below, if_pos (above separator inside), inductionHypothesis strictRest]
      · rw [if_neg below, keys_join, List.pairwise_append] at strict
        have before := strict.2.2 separator member entry.1 List.mem_cons_self
        rw [if_neg below, if_neg (not_lt.mpr before.le)]

end Ordered

/-! ### Flat indexes -/

namespace Index

variable {height : Nat}

/-- The row of all leaf pages. -/
def flat : {height : Nat} → Index κ height → Row κ Nat
  | 0, leaf => ⟨leaf, []⟩
  | _ + 1, ⟨_, row⟩ => Row.flatten flat row.first row.entries

@[simp] theorem flat_leaf (number : Nat) : (leaf number : Index κ 0).flat = ⟨number, []⟩ := rfl

@[simp] theorem flat_branch (number : Nat) (row : Row κ (Index κ height)) :
    (branch number row).flat = Row.flatten flat row.first row.entries := rfl

theorem flat_children (index : Index κ height) : index.flat.children = index.leaves := by
  induction height with
  | zero => rfl
  | succ height inductionHypothesis =>
      obtain ⟨page, ⟨first, entries⟩, rfl⟩ := index.exists_branch
      rw [flat_branch, leaves_branch]
      dsimp only
      induction entries generalizing first with
      | nil => simpa [Row.flatten, Row.children] using inductionHypothesis first
      | cons entry rest restHypothesis =>
          rw [Row.flatten, Row.children_join, restHypothesis, inductionHypothesis]
          rfl

/-- The flat row that stands where the old subtree's stood. -/
def Promoted.flat (promoted : Promoted κ height) : Row κ Nat :=
  match promoted.promotion with
  | .up separator right => promoted.index.flat.join separator right.flat
  | .done | .full => promoted.index.flat

section Ordered

variable [LinearOrder κ]

/-- Every promoted separator has the slot that the key took on its way down. -/
def Aligned (most limit : Nat) : {height : Nat} → Index κ height → (key separator : κ) →
    (new count : Nat) → Prop
  | 0, _, _, _, _, _ => True
  | _ + 1, ⟨_, row⟩, key, separator, new, count =>
      (pick row.first row.entries key).Aligned most limit key separator new count ∧
        ∀ promoted right,
          ((pick row.first row.entries key).promote most limit key separator new count).promotion =
            .up promoted right → slot row.entries promoted = slot row.entries key

theorem aligned_branch {most limit page : Nat} {row : Row κ (Index κ height)} {key separator : κ}
    {new count : Nat} : (branch page row).Aligned most limit key separator new count ↔
      (pick row.first row.entries key).Aligned most limit key separator new count ∧
        ∀ promoted right,
          ((pick row.first row.entries key).promote most limit key separator new count).promotion =
            .up promoted right → slot row.entries promoted = slot row.entries key := Iff.rfl

instance decidableAligned (most limit : Nat) : {height : Nat} → (index : Index κ height) →
    (key separator : κ) → (new count : Nat) →
    Decidable (index.Aligned most limit key separator new count)
  | 0, _, _, _, _, _ => isTrue trivial
  | _ + 1, ⟨page, row⟩, key, separator, new, count =>
      have := decidableAligned most limit (pick row.first row.entries key) key separator new count
      match up : ((pick row.first row.entries key).promote most limit key separator new
          count).promotion with
      | .up promoted _ =>
          decidable_of_iff
            ((pick row.first row.entries key).Aligned most limit key separator new count ∧
              slot row.entries promoted = slot row.entries key)
            ⟨fun both => ⟨both.1, fun other right same => by
                obtain ⟨rfl, -⟩ := Promotion.up.inj (up.symm.trans same)
                exact both.2⟩,
              fun aligned => ⟨aligned.1, aligned.2 _ _ up⟩⟩
      | .done | .full =>
          decidable_of_iff
            ((pick row.first row.entries key).Aligned most limit key separator new count)
            ⟨fun below => ⟨below, fun _ _ same => by cases up.symm.trans same⟩, And.left⟩

theorem sorted_pick {row : Row κ (Index κ height)} {page : Nat}
    (sorted : (branch page row).flat.Sorted) (key : κ) :
    (pick row.first row.entries key).flat.Sorted := by
  have part := Row.flattenWith_sublist flat row.first row.entries key
    (pick row.first row.entries key).flat
  rw [Row.flatten_pick] at part
  exact List.Pairwise.sublist part sorted

/-- The leaf that a key is routed to is the one at its slot in the flat row. -/
theorem route_eq_flat {index : Index κ height} (sorted : index.flat.Sorted) (key : κ) :
    index.route key = index.flat.at key := by
  induction height with
  | zero => rfl
  | succ height inductionHypothesis =>
      obtain ⟨page, row, rfl⟩ := index.exists_branch
      rw [flat_branch, Row.at_flatten sorted]
      exact inductionHypothesis (sorted_pick sorted key)

/-- However a branch takes in a child, the flat row is that of the whole new row. -/
theorem addChild_flat {most limit count page : Nat} {row : Row κ (Index κ height)} {separator : κ}
    {right : Index κ height}
    (notFull : (addChild most limit count page row separator right).promotion ≠ .full) :
    (addChild most limit count page row separator right).flat =
      Row.flatten flat row.first (place row.entries separator right) := by
  rcases addChild_cases most limit count page row separator right with
    ⟨-, run⟩ | ⟨-, before, middle, later, split, -, ⟨-, run⟩ | ⟨-, run⟩⟩
  · rw [run]
    rfl
  · rw [run, split, Row.flatten_append]
    rfl
  · rw [run] at notFull
    exact absurd rfl notFull

/-- Aligned propagation puts the new leaf right after the one that the key is routed to. -/
theorem promote_flat {most limit : Nat} {index : Index κ height} (sorted : index.flat.Sorted)
    {key separator : κ} {new count : Nat}
    (aligned : index.Aligned most limit key separator new count)
    (notFull : (index.promote most limit key separator new count).promotion ≠ .full) :
    (index.promote most limit key separator new count).flat =
      index.flat.insertAfter key separator new := by
  induction height with
  | zero => rfl
  | succ height inductionHypothesis =>
      obtain ⟨page, row, rfl⟩ := index.exists_branch
      obtain ⟨alignedBelow, slots⟩ := aligned_branch.mp aligned
      have below := inductionHypothesis (sorted_pick sorted key) alignedBelow
      rw [flat_branch, Row.insertAfter_flatten sorted]
      rw [promote_branch] at notFull ⊢
      dsimp only at notFull ⊢
      generalize (pick row.first row.entries key).promote most limit key separator new count =
        child at *
      cases promoted : child.promotion with
      | done =>
          rw [← below (by rw [promoted]; simp), Promoted.flat, Promoted.flat, promoted]
          exact Row.flatten_replace flat row.first row.entries key child.index
      | full =>
          rw [promoted] at notFull
          exact absurd rfl notFull
      | up middle right =>
          rw [promoted] at notFull
          have placed := place_replace (slots middle right promoted) row.first child.index right
          rw [← below (by rw [promoted]; simp)]
          refine (addChild_flat notFull).trans ?_
          have replaced := Row.flatten_replaceTwo flat row.first row.entries key child.index middle
            right
          rw [← placed] at replaced
          refine replaced.trans ?_
          rw [Promoted.flat, promoted]

/-- When the new leaf leaves the flat row strictly sorted, propagation is aligned. -/
theorem aligned_of_strict {most limit : Nat} {index : Index κ height} (sorted : index.flat.Sorted)
    {key separator : κ} {new count : Nat}
    (strict : (index.flat.insertAfter key separator new).keys.Pairwise (· < ·)) :
    index.Aligned most limit key separator new count := by
  induction height with
  | zero => trivial
  | succ height inductionHypothesis =>
      obtain ⟨page, row, rfl⟩ := index.exists_branch
      rw [flat_branch, Row.insertAfter_flatten sorted] at strict
      have sortedBelow := sorted_pick sorted key
      have strictBelow := List.Pairwise.sublist (Row.flattenWith_sublist flat row.first row.entries
        key ((pick row.first row.entries key).flat.insertAfter key separator new)) strict
      have alignedBelow := inductionHypothesis sortedBelow strictBelow
      refine aligned_branch.mpr ⟨alignedBelow, fun promoted right up => ?_⟩
      have flatBelow := promote_flat sortedBelow alignedBelow (by rw [up]; simp)
      rw [← flatBelow] at strict
      refine Row.slot_of_strict strict ?_
      rw [Promoted.flat, up]
      simp

end Ordered

end Index

end MukhiDb.Foundation
