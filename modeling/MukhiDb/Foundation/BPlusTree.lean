import Mathlib.Algebra.Order.Ring.Nat
import Mathlib.Data.List.Perm.Subperm
import MukhiDb.Foundation.LeafChain

/-!
Contract: insertion into a B+tree over numbered pages.

Owns: trees, which are an index over a chain of leaves; insertion, which fills a
leaf or splits it and propagates the new leaf, and which a page limit can stop half
way; the linking invariant, which insertion keeps also when it is stopped; and the
fact that no row is lost or duplicated.

Does not own: the order of the rows, and how pages are stored.
-/

namespace MukhiDb.Foundation

/-- The sizes of a tree: the most separators in a branch, the number of pages that
can be in use, whether a leaf has room for one more cell, and how many cells of a
full leaf stay on the left. -/
structure Layout (κ α : Type) where
  most : Nat
  limit : Nat
  room : List (κ × α) → κ × α → Bool
  cut : List (κ × α) → Nat

/-- Branches can be split, and a split moves at least one cell. -/
structure Layout.Splits {κ α : Type} (layout : Layout κ α) : Prop where
  enough : 2 ≤ layout.most
  moves : ∀ cells, cells ≠ [] → layout.cut cells < cells.length

/-- An index over a chain of leaves. -/
structure BPlusTree (κ α : Type) where
  height : Nat
  index : Index κ height
  chain : List (Leaf κ α)

namespace BPlusTree

variable {κ α : Type}

/-- A tree of one empty leaf. -/
def single (page : Nat) : BPlusTree κ α := ⟨0, Index.leaf page, [⟨page, []⟩]⟩

/-- The page of the root. -/
def root (tree : BPlusTree κ α) : Nat := tree.index.page

/-- The cells from the first leaf to the last. -/
def rows (tree : BPlusTree κ α) : List (κ × α) := Leaf.rows tree.chain

/-- The pages of the branches and of the leaves. -/
def pages (tree : BPlusTree κ α) : List Nat := tree.index.branches ++ Leaf.pages tree.chain

/-- What an insertion leaves: a tree, the number of pages in use, and whether the
insertion was complete. -/
structure Grown (κ α : Type) where
  tree : BPlusTree κ α
  count : Nat
  complete : Bool

/-- Put a new root over the parts of a promoted index if it needs one. -/
def raise (layout : Layout κ α) (chain : List (Leaf κ α)) {height : Nat}
    (promoted : Index.Promoted κ height) : Grown κ α :=
  match promoted.promotion with
  | .done => ⟨⟨height, promoted.index, chain⟩, promoted.count, true⟩
  | .full => ⟨⟨height, promoted.index, chain⟩, promoted.count, false⟩
  | .up separator right =>
      if promoted.count < layout.limit then
        ⟨⟨height + 1, Index.branch promoted.count ⟨promoted.index, [(separator, right)]⟩, chain⟩,
          promoted.count + 1, true⟩
      else ⟨⟨height, promoted.index, chain⟩, promoted.count, false⟩

section Ordered

variable [LinearOrder κ]

/-- The cells of the leaf that a key is routed to. -/
def target (tree : BPlusTree κ α) (key : κ) : List (κ × α) :=
  Leaf.cellsAt tree.chain (tree.index.route key)

/-- The tree with other leaves in the place of the one that a key is routed to. -/
def retarget (tree : BPlusTree κ α) (key : κ) (leaves : List (Leaf κ α)) : List (Leaf κ α) :=
  Leaf.substitute tree.chain (tree.index.route key) leaves

/-- Insert a cell with `count` pages in use. -/
def insert (layout : Layout κ α) (tree : BPlusTree κ α) (count : Nat) (key : κ) (row : α) :
    Grown κ α :=
  let page := tree.index.route key
  let cells := place (tree.target key) key row
  if layout.room (tree.target key) (key, row) then
    ⟨{ tree with chain := tree.retarget key [⟨page, cells⟩] }, count, true⟩
  else if layout.limit ≤ count then ⟨tree, count, false⟩
  else
    match cells.drop (layout.cut cells) with
    | [] => ⟨tree, count, false⟩
    | (separator, _) :: _ =>
        raise layout
          (tree.retarget key
            [⟨page, cells.take (layout.cut cells)⟩, ⟨count, cells.drop (layout.cut cells)⟩])
          (tree.index.promote layout.most layout.limit key separator count (count + 1))

/-- The three ways an insertion goes. -/
theorem insert_cases {layout : Layout κ α} (splits : layout.Splits) (tree : BPlusTree κ α)
    (count : Nat) (key : κ) (row : α) :
    (layout.room (tree.target key) (key, row) = true ∧ insert layout tree count key row =
      ⟨{ tree with
        chain := tree.retarget key [⟨tree.index.route key, place (tree.target key) key row⟩] },
        count, true⟩) ∨
    (layout.room (tree.target key) (key, row) = false ∧ layout.limit ≤ count ∧
      insert layout tree count key row = ⟨tree, count, false⟩) ∨
    (layout.room (tree.target key) (key, row) = false ∧ count < layout.limit ∧
      ∃ left separator first later,
        place (tree.target key) key row = left ++ (separator, first) :: later ∧
        left.length = layout.cut (place (tree.target key) key row) ∧
        insert layout tree count key row =
          raise layout
            (tree.retarget key
              [⟨tree.index.route key, left⟩, ⟨count, (separator, first) :: later⟩])
            (tree.index.promote layout.most layout.limit key separator count (count + 1))) := by
  generalize all : place (tree.target key) key row = cells
  have some : cells ≠ [] := by
    intro none
    have length := place_length (tree.target key) key row
    rw [all, none] at length
    simp at length
  by_cases room : layout.room (tree.target key) (key, row) = true
  · refine Or.inl ⟨room, ?_⟩
    unfold insert
    rw [all]
    exact if_pos room
  · have noRoom : layout.room (tree.target key) (key, row) = false := by simpa using room
    by_cases full : layout.limit ≤ count
    · refine Or.inr (Or.inl ⟨noRoom, full, ?_⟩)
      unfold insert
      rw [if_neg room, if_pos full]
    · have inside := splits.moves cells some
      have dropped := List.drop_eq_getElem_cons inside
      have whole := List.take_append_drop (layout.cut cells) cells
      refine Or.inr (Or.inr ⟨noRoom, Nat.lt_of_not_le full, cells.take (layout.cut cells),
        cells[layout.cut cells].1, cells[layout.cut cells].2, cells.drop (layout.cut cells + 1),
        ?_, ?_, ?_⟩)
      · rw [← dropped, whole]
      · rw [List.length_take]
        omega
      · unfold insert
        rw [all, if_neg room, if_neg full, dropped]

end Ordered

/-! ### Linking -/

/-- Branches and leaves are different pages from `floor` on that are in use, the index
reaches leaves of the chain only, and it starts where the chain starts. -/
structure Linked (layout : Layout κ α) (floor : Nat) (tree : BPlusTree κ α) (count : Nat) :
    Prop where
  distinct : tree.pages.Nodup
  within : ∀ page ∈ tree.pages, floor ≤ page ∧ page < count
  later : ∀ page ∈ (Leaf.pages tree.chain).tail, floor < page
  reached : tree.index.leaves.Subperm (Leaf.pages tree.chain)
  head : (Leaf.pages tree.chain).head? = some tree.index.leftmost
  sized : tree.index.Sized layout.most

theorem linked_single {layout : Layout κ α} {page count : Nat} (below : page < count) :
    Linked layout page (single page) count where
  distinct := List.pairwise_singleton _ page
  within := fun _ member => (List.mem_singleton.mp member) ▸ ⟨Nat.le_refl page, below⟩
  later := fun _ member => absurd member List.not_mem_nil
  reached := List.Subperm.refl _
  head := rfl
  sized := trivial

section Raise

variable {layout : Layout κ α} {floor : Nat} {chain : List (Leaf κ α)} {height : Nat}

theorem raise_rows (promoted : Index.Promoted κ height) :
    (raise layout chain promoted).tree.rows = Leaf.rows chain := by
  unfold raise
  cases promoted.promotion with
  | done => rfl
  | full => rfl
  | up separator right =>
      dsimp only
      split <;> rfl

/-- A full promotion never completes. -/
theorem notFull_of_complete {chain : List (Leaf κ α)} {height : Nat}
    {promoted : Index.Promoted κ height}
    (complete : (raise layout chain promoted).complete = true) : promoted.promotion ≠ .full := by
  intro full
  unfold raise at complete
  rw [full] at complete
  contradiction

/-- A new root over linked parts is linked. -/
theorem raise_linked (splits : layout.Splits) {promoted : Index.Promoted κ height}
    (distinct : (promoted.parts.flatMap Index.branches ++ Leaf.pages chain).Nodup)
    (within : ∀ page ∈ promoted.parts.flatMap Index.branches ++ Leaf.pages chain,
      floor ≤ page ∧ page < promoted.count)
    (later : ∀ page ∈ (Leaf.pages chain).tail, floor < page)
    (reached : (promoted.parts.flatMap Index.leaves).Subperm (Leaf.pages chain))
    (head : (Leaf.pages chain).head? = some promoted.index.leftmost)
    (sized : ∀ part ∈ promoted.parts, part.Sized layout.most) :
    Linked layout floor (raise layout chain promoted).tree
      (raise layout chain promoted).count := by
  obtain ⟨index, promotion, count⟩ := promoted
  have above := within _ (List.mem_append_right _ (List.mem_of_head? head))
  -- without a new root, the tree keeps the left part alone
  have alone : Linked layout floor ⟨height, index, chain⟩ count := by
    have part : (Index.branches index ++ Leaf.pages chain).Sublist
        (((⟨index, promotion, count⟩ : Index.Promoted κ height).parts).flatMap Index.branches ++
          Leaf.pages chain) :=
      (List.sublist_append_left _ _).append (List.Sublist.refl _)
    exact
      { distinct := distinct.sublist part
        within := fun page member => within page (part.subset member)
        later := later
        reached := (List.sublist_append_left _ _).subperm.trans reached
        head := head
        sized := sized index List.mem_cons_self }
  cases promotion with
  | done => exact alone
  | full => exact alone
  | up separator right =>
      unfold raise
      dsimp only
      split
      · have branches : (Index.branch count ⟨index, [(separator, right)]⟩).branches =
            count :: [index, right].flatMap Index.branches := rfl
        have parts : (⟨index, .up separator right, count⟩ : Index.Promoted κ height).parts =
            [index, right] := rfl
        rw [parts] at distinct within reached sized
        refine { distinct := ?_, within := ?_, later, reached := reached, head := head, sized := ?_ }
        · unfold pages
          rw [branches]
          exact List.nodup_cons.mpr
            ⟨fun member => Nat.lt_irrefl count (within count member).2, distinct⟩
        · unfold pages
          rw [branches]
          intro page member
          rcases List.mem_cons.mp member with rfl | old
          · exact ⟨Nat.le_of_lt (Nat.lt_of_le_of_lt above.1 above.2), Nat.lt_succ_self _⟩
          · exact ⟨(within page old).1, Nat.lt_succ_of_lt (within page old).2⟩
        · have enough := splits.enough
          refine Index.sized_branch.mpr ⟨Nat.le_refl 1, ?_, sized⟩
          change 1 ≤ layout.most
          omega
      · exact alone

end Raise

section Linked

variable {layout : Layout κ α} {floor : Nat} {tree : BPlusTree κ α} {count : Nat}

/-- A tree whose leaves hold other cells is still linked. -/
theorem Linked.refill (linked : Linked layout floor tree count) {chain : List (Leaf κ α)}
    (same : Leaf.pages chain = Leaf.pages tree.chain) :
    Linked layout floor { tree with chain } count where
  distinct := by unfold pages; rw [same]; exact linked.distinct
  within := by unfold pages; rw [same]; exact linked.within
  later := by rw [same]; exact linked.later
  reached := by rw [same]; exact linked.reached
  head := by rw [same]; exact linked.head
  sized := linked.sized

/-- New pages are apart from those of a tree. -/
theorem Linked.fresh (linked : Linked layout floor tree count) (more : Nat) :
    (tree.pages ++ List.range' count more).Nodup ∧
      ∀ page ∈ tree.pages ++ List.range' count more, floor ≤ page ∧ page < count + more := by
  have above := linked.within _ (List.mem_append_right _ (List.mem_of_head? linked.head))
  constructor
  · refine List.nodup_append.mpr ⟨linked.distinct, List.nodup_range', ?_⟩
    rintro page old _ new rfl
    have := (linked.within page old).2
    rw [List.mem_range'_1] at new
    omega
  · intro page member
    rcases List.mem_append.mp member with old | new
    · have := linked.within page old
      omega
    · rw [List.mem_range'_1] at new
      omega

end Linked

section Ordered

variable [LinearOrder κ] {layout : Layout κ α} {floor : Nat} {tree : BPlusTree κ α} {count : Nat}

/-- The chain around the leaf that a key is routed to. -/
theorem Linked.around (linked : Linked layout floor tree count) (key : κ) :
    ∃ before after, tree.chain = before ++ ⟨tree.index.route key, tree.target key⟩ :: after ∧
      ∀ leaves, tree.retarget key leaves = before ++ leaves ++ after :=
  Leaf.exists_around (List.nodup_append.mp linked.distinct).2.1
    (linked.reached.subset (tree.index.route_mem key))

/-- Insertion adds the row, or a page limit stops it before anything was changed. -/
theorem insert_rows (splits : layout.Splits) (linked : Linked layout floor tree count) (key : κ)
    (row : α) :
    (insert layout tree count key row).tree.rows.Perm ((key, row) :: tree.rows) ∨
      insert layout tree count key row = ⟨tree, count, false⟩ := by
  obtain ⟨before, after, around, other⟩ := linked.around key
  -- the changed leaves hold the old cells and the new one
  have added : ∀ leaves : List (Leaf κ α),
      Leaf.rows leaves = place (tree.target key) key row →
      (Leaf.rows (tree.retarget key leaves)).Perm ((key, row) :: tree.rows) := by
    intro leaves cells
    rw [other]
    unfold rows
    rw [around]
    exact Leaf.rows_around cells
  rcases insert_cases splits tree count key row with
    ⟨-, run⟩ | ⟨-, -, run⟩ | ⟨-, -, left, separator, first, later, cells, -, run⟩
  · rw [run]
    exact Or.inl (added _ (by simp [Leaf.rows]))
  · exact Or.inr run
  · rw [run, raise_rows]
    exact Or.inl (added _ (by simp [Leaf.rows, cells]))

/-- An insertion that a page limit stops keeps the root. -/
theorem insert_root (splits : layout.Splits) (tree : BPlusTree κ α) (count : Nat) (key : κ) (row : α)
    (stopped : (insert layout tree count key row).complete = false) :
    (insert layout tree count key row).tree.root = tree.root := by
  rcases insert_cases splits tree count key row with
    ⟨-, run⟩ | ⟨-, -, run⟩ | ⟨-, -, left, separator, first, later, -, -, run⟩
  · rw [run]
    rfl
  · rw [run]
  · have page := tree.index.promote_page layout.most layout.limit key separator count (count + 1)
    rw [run] at stopped ⊢
    unfold raise at stopped ⊢
    generalize tree.index.promote layout.most layout.limit key separator count (count + 1) =
      promoted at page stopped ⊢
    rcases promoted with ⟨index, promotion, used⟩
    cases promotion with
    | done => exact page
    | full => exact page
    | up separator right =>
        dsimp only at stopped ⊢
        split at stopped
        · cases stopped
        · next full =>
            rw [if_neg full]
            exact page

/-- The pages of the chain when leaves stand for the one that a key is routed to. -/
theorem Linked.retarget_pages (linked : Linked layout floor tree count) (key : κ) :
    ∃ before after, Leaf.pages tree.chain = before ++ tree.index.route key :: after ∧
      ∀ leaves, Leaf.pages (tree.retarget key leaves) = before ++ Leaf.pages leaves ++ after := by
  obtain ⟨before, after, around, other⟩ := linked.around key
  refine ⟨Leaf.pages before, Leaf.pages after, ?_, fun leaves => ?_⟩
  · rw [around]
    simp [Leaf.pages]
  · rw [other]
    simp [Leaf.pages]

/-- In a list with a new page in it, the new page or an old one stands at each later place. -/
theorem mem_tail_insert {before after : List Nat} {page new number : Nat}
    (member : number ∈ (before ++ page :: new :: after).tail) :
    number = new ∨ number ∈ (before ++ page :: after).tail := by
  cases before with
  | nil => exact List.mem_cons.mp member
  | cons head rest =>
      simp only [List.cons_append, List.tail_cons, List.mem_append, List.mem_cons] at member ⊢
      tauto

/-- The pages in use after a split of a leaf was propagated: the old ones, the new leaf and the
new branches. -/
theorem promote_pages (most limit : Nat) (tree : BPlusTree κ α) (key separator : κ) {count : Nat}
    {chain : List (Leaf κ α)} (split : (Leaf.pages chain).Perm (count :: Leaf.pages tree.chain)) :
    count ≤ (tree.index.promote most limit key separator count (count + 1)).count ∧
      ∃ lost,
        (((tree.index.promote most limit key separator count (count + 1)).parts.flatMap
            Index.branches ++ Leaf.pages chain) ++ lost).Perm
          (tree.pages ++ List.range' count
            ((tree.index.promote most limit key separator count (count + 1)).count - count)) := by
  obtain ⟨grown, lost, branches⟩ := tree.index.promote_branches most limit key separator count
    (count + 1)
  generalize tree.index.promote most limit key separator count (count + 1) = promoted at *
  have used : List.range' count (promoted.count - count) =
      count :: List.range' (count + 1) (promoted.count - (count + 1)) := by
    rw [← List.range'_succ]
    congr 1
    omega
  refine ⟨Nat.le_of_succ_le grown, lost, ?_⟩
  rw [used]
  unfold pages
  rw [List.perm_iff_count] at branches split ⊢
  intro page
  have one := branches page
  have two := split page
  simp only [List.count_append, List.count_cons] at one two ⊢
  omega

/-- A leaf of a linked tree is split, and a new root may follow. -/
theorem Linked.split (splits : layout.Splits) (linked : Linked layout floor tree count)
    (key separator : κ) (left right : List (κ × α)) :
    Linked layout floor
      (raise layout (tree.retarget key [⟨tree.index.route key, left⟩, ⟨count, right⟩])
        (tree.index.promote layout.most layout.limit key separator count (count + 1))).tree
      (raise layout (tree.retarget key [⟨tree.index.route key, left⟩, ⟨count, right⟩])
        (tree.index.promote layout.most layout.limit key separator count (count + 1))).count := by
  obtain ⟨before, after, chainPages, retargeted⟩ := linked.retarget_pages key
  have newPages : Leaf.pages (tree.retarget key
      [⟨tree.index.route key, left⟩, ⟨count, right⟩]) =
      before ++ tree.index.route key :: count :: after := by
    rw [retargeted]
    simp [Leaf.pages]
  have chainGrown : (Leaf.pages (tree.retarget key
      [⟨tree.index.route key, left⟩, ⟨count, right⟩])).Perm (count :: Leaf.pages tree.chain) := by
    rw [newPages, chainPages, List.perm_iff_count]
    intro page
    simp only [List.count_append, List.count_cons]
    omega
  obtain ⟨grown, lost, whole⟩ := promote_pages layout.most layout.limit tree key separator chainGrown
  obtain ⟨lostLeaves, leaves, -⟩ := tree.index.promote_leaves layout.most layout.limit key
    separator count (count + 1)
  have leftmost := tree.index.promote_leftmost layout.most layout.limit key separator count
    (count + 1)
  have sized := Index.promote_sized splits.enough layout.limit linked.sized key separator count
    (count + 1)
  generalize tree.index.promote layout.most layout.limit key separator count (count + 1) =
    promoted at *
  generalize tree.retarget key [⟨tree.index.route key, left⟩, ⟨count, right⟩] = chain at *
  obtain ⟨distinct, within⟩ := linked.fresh (promoted.count - count)
  refine raise_linked splits ?_ ?_ ?_ ?_ ?_ sized
  · exact (whole.nodup_iff.mpr distinct).sublist (List.sublist_append_left _ _)
  · intro page member
    have inside := within page (whole.subset (List.mem_append_left lost member))
    omega
  · intro page member
    rw [newPages] at member
    rcases mem_tail_insert member with rfl | old
    · have above := linked.within _ (List.mem_append_right _ (List.mem_of_head? linked.head))
      omega
    · rw [← chainPages] at old
      exact linked.later page old
  · have kept : (promoted.parts.flatMap Index.leaves).Subperm (count :: tree.index.leaves) :=
      (List.sublist_append_left _ lostLeaves).subperm.trans leaves.subperm
    have reached := (List.subperm_cons count).mpr linked.reached
    exact (kept.trans reached).trans chainGrown.symm.subperm
  · rw [leftmost, ← linked.head, newPages, chainPages]
    cases before with
    | nil => rfl
    | cons page rest => rfl

/-- Insertion keeps a tree linked, also when a page limit stops it half way. -/
theorem insert_linked (splits : layout.Splits) (linked : Linked layout floor tree count) (key : κ)
    (row : α) :
    Linked layout floor (insert layout tree count key row).tree
      (insert layout tree count key row).count := by
  rcases insert_cases splits tree count key row with
    ⟨-, run⟩ | ⟨-, -, run⟩ | ⟨-, -, left, separator, first, later, cells, -, run⟩
  · rw [run]
    apply linked.refill
    obtain ⟨before, after, chainPages, retargeted⟩ := linked.retarget_pages key
    rw [retargeted, chainPages]
    simp [Leaf.pages]
  · rw [run]
    exact linked
  · rw [run]
    exact linked.split splits key separator left _

/-! ### Runs of insertions -/

/-- Insert cells one after another until a page limit stops one. -/
def insertAll (layout : Layout κ α) : Grown κ α → (cells : List (κ × α)) → Grown κ α
  | grown, [] => grown
  | grown, (key, row) :: rest =>
      if grown.complete then
        insertAll layout (insert layout grown.tree grown.count key row) rest
      else grown

theorem insertAll_complete {grown : Grown κ α} {cells : List (κ × α)}
    (complete : (insertAll layout grown cells).complete = true) : grown.complete = true := by
  cases cells with
  | nil => exact complete
  | cons cell rest =>
      by_contra stopped
      rw [insertAll, if_neg stopped] at complete
      exact stopped complete

theorem insertAll_cons {grown : Grown κ α} {key : κ} {row : α} {rest : List (κ × α)}
    (complete : (insertAll layout grown ((key, row) :: rest)).complete = true) :
    insertAll layout grown ((key, row) :: rest) =
      insertAll layout (insert layout grown.tree grown.count key row) rest := by
  rw [insertAll, if_pos (insertAll_complete complete)]

/-- A run of insertions that is complete added every cell once. -/
theorem insertAll_rows (splits : layout.Splits) {grown : Grown κ α} {cells : List (κ × α)}
    (linked : Linked layout floor grown.tree grown.count)
    (complete : (insertAll layout grown cells).complete = true) :
    (insertAll layout grown cells).tree.rows.Perm (cells ++ grown.tree.rows) := by
  induction cells generalizing grown with
  | nil => exact List.Perm.refl _
  | cons cell rest inductionHypothesis =>
      obtain ⟨key, row⟩ := cell
      have run := insertAll_cons complete
      rw [run] at complete ⊢
      have next := inductionHypothesis (insert_linked splits linked key row) complete
      rcases insert_rows splits linked key row with added | stopped
      · exact (next.trans (added.append_left rest)).trans List.perm_middle
      · have finished := insertAll_complete complete
        rw [stopped] at finished
        contradiction

end Ordered

end BPlusTree

end MukhiDb.Foundation
