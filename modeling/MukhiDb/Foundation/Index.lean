import MukhiDb.Foundation.Rows

/-!
Contract: the index of a B+tree over numbered pages, apart from what the leaves hold.

Owns: trees of fixed height with a row of children in each branch; the leaf that
a key is routed to and the path to it; the propagation of a new leaf up that path,
where a full branch gives its right half to a new page and a page limit can stop
it half way; and what propagation does to the leaves, the branches, the leftmost
leaf and the sizes.

Does not own: leaf contents, and the order of keys.
-/

namespace MukhiDb.Foundation

/-- A branch: its page and the row of its children. -/
structure Branch (κ τ : Type) where
  page : Nat
  row : Row κ τ

/-- A tree whose leaves are all at depth `height`. A leaf is its page. -/
def Index (κ : Type) : (height : Nat) → Type
  | 0 => Nat
  | height + 1 => Branch κ (Index κ height)

namespace Index

variable {κ : Type} {height : Nat}

/-- A leaf. -/
def leaf (page : Nat) : Index κ 0 := page

/-- A branch. -/
def branch (page : Nat) (row : Row κ (Index κ height)) : Index κ (height + 1) := ⟨page, row⟩

theorem exists_leaf (index : Index κ 0) : ∃ page, index = leaf page := ⟨index, rfl⟩

theorem exists_branch (index : Index κ (height + 1)) : ∃ page row, index = branch page row :=
  ⟨index.page, index.row, rfl⟩

/-- The page of the root. -/
def page : {height : Nat} → Index κ height → Nat
  | 0, leaf => leaf
  | _ + 1, ⟨page, _⟩ => page

/-- The leaf pages from left to right. -/
def leaves : {height : Nat} → Index κ height → List Nat
  | 0, leaf => [leaf]
  | _ + 1, ⟨_, row⟩ => row.children.flatMap fun child => child.leaves

/-- The branch pages. -/
def branches : {height : Nat} → Index κ height → List Nat
  | 0, _ => []
  | _ + 1, ⟨page, row⟩ => page :: row.children.flatMap fun child => child.branches

/-- The leftmost leaf page. -/
def leftmost : {height : Nat} → Index κ height → Nat
  | 0, leaf => leaf
  | _ + 1, ⟨_, row⟩ => row.first.leftmost

/-- Every branch has between one and `limit` separators. -/
def Sized (limit : Nat) : {height : Nat} → Index κ height → Prop
  | 0, _ => True
  | _ + 1, ⟨_, row⟩ =>
      1 ≤ row.entries.length ∧ row.entries.length ≤ limit ∧
        ∀ child ∈ row.children, child.Sized limit

/-- The row of the children's pages. -/
def pages (row : Row κ (Index κ height)) : Row κ Nat :=
  ⟨row.first.page, row.entries.map fun entry => (entry.1, entry.2.page)⟩

/-- Every branch page holds the row of its children's pages. -/
def Nodes (holds : Nat → Row κ Nat → Prop) : {height : Nat} → Index κ height → Prop
  | 0, _ => True
  | _ + 1, ⟨page, row⟩ => holds page (pages row) ∧ ∀ child ∈ row.children, child.Nodes holds

/-- The children of a branch. -/
def below : Index κ (height + 1) → List (Index κ height)
  | ⟨_, row⟩ => row.children

section Branch

variable (number : Nat) (row : Row κ (Index κ height))

@[simp] theorem page_leaf : (leaf number : Index κ 0).page = number := rfl

@[simp] theorem leaves_leaf : (leaf number : Index κ 0).leaves = [number] := rfl

@[simp] theorem branches_leaf : (leaf number : Index κ 0).branches = [] := rfl

@[simp] theorem leftmost_leaf : (leaf number : Index κ 0).leftmost = number := rfl

@[simp] theorem page_branch : (branch number row).page = number := rfl

@[simp] theorem below_branch : (branch number row).below = row.children := rfl

@[simp] theorem leaves_branch :
    (branch number row).leaves = row.children.flatMap leaves := rfl

@[simp] theorem branches_branch :
    (branch number row).branches = number :: row.children.flatMap branches := rfl

@[simp] theorem leftmost_branch : (branch number row).leftmost = row.first.leftmost := rfl

variable {number} {row}

theorem sized_branch {limit : Nat} : (branch number row).Sized limit ↔
    1 ≤ row.entries.length ∧ row.entries.length ≤ limit ∧
      ∀ child ∈ row.children, child.Sized limit := Iff.rfl

theorem nodes_branch {holds : Nat → Row κ Nat → Prop} : (branch number row).Nodes holds ↔
    holds number (pages row) ∧ ∀ child ∈ row.children, child.Nodes holds := Iff.rfl

end Branch

/-- What a branch page holds may change as long as it still holds its row. -/
theorem Nodes.mono {holds holds' : Nat → Row κ Nat → Prop} {index : Index κ height}
    (nodes : index.Nodes holds)
    (kept : ∀ page ∈ index.branches, ∀ row, holds page row → holds' page row) :
    index.Nodes holds' := by
  induction height with
  | zero => trivial
  | succ height inductionHypothesis =>
      obtain ⟨page, row, rfl⟩ := index.exists_branch
      obtain ⟨own, children⟩ := nodes
      refine ⟨kept page List.mem_cons_self _ own, fun child member => ?_⟩
      refine inductionHypothesis (children child member) fun page inside => kept page ?_
      exact List.mem_cons_of_mem _ (List.mem_flatMap.mpr ⟨child, member, inside⟩)

/-- The root is a branch or a leaf. -/
theorem page_mem (index : Index κ height) : index.page ∈ index.branches ∨ index.page ∈ index.leaves := by
  cases height with
  | zero => exact Or.inr (List.mem_singleton.mpr rfl)
  | succ height =>
      obtain ⟨page, row, rfl⟩ := index.exists_branch
      exact Or.inl List.mem_cons_self

/-- The children of a branch are branches and leaves. -/
theorem Nodes.children {holds : Nat → Row κ Nat → Prop} {index : Index κ height}
    (nodes : index.Nodes holds) {page : Nat} (member : page ∈ index.branches) :
    ∃ row, holds page row ∧ ∀ child ∈ row.children, child ∈ index.branches ∨ child ∈ index.leaves := by
  induction height with
  | zero => exact absurd member List.not_mem_nil
  | succ height inductionHypothesis =>
      obtain ⟨number, row, rfl⟩ := index.exists_branch
      obtain ⟨own, inner⟩ := nodes
      have lift {child : Index κ height} (inside : child ∈ row.children) {other : Nat}
          (there : other ∈ child.branches ∨ other ∈ child.leaves) :
          other ∈ (branch number row).branches ∨ other ∈ (branch number row).leaves :=
        there.imp (fun isBranch => List.mem_cons_of_mem _ (List.mem_flatMap.mpr ⟨child, inside, isBranch⟩))
          fun isLeaf => List.mem_flatMap.mpr ⟨child, inside, isLeaf⟩
      rcases List.mem_cons.mp member with rfl | deeper
      · refine ⟨pages row, own, fun other there => ?_⟩
        rw [show (pages row).children = row.children.map Index.page from Row.children_map _ row] at there
        obtain ⟨child, inside, rfl⟩ := List.mem_map.mp there
        exact lift inside child.page_mem
      · obtain ⟨child, inside, isBranch⟩ := List.mem_flatMap.mp deeper
        obtain ⟨contents, held, known⟩ := inductionHypothesis (inner child inside) isBranch
        exact ⟨contents, held, fun other there => lift inside (known other there)⟩

section Ordered

variable [LinearOrder κ]

/-- The leaf page that a key is routed to. -/
def route : {height : Nat} → Index κ height → (key : κ) → Nat
  | 0, leaf, _ => leaf
  | _ + 1, ⟨_, row⟩, key => (pick row.first row.entries key).route key

/-- The branches on the way to that leaf, each with the slot that was taken. -/
def path : {height : Nat} → Index κ height → (key : κ) → List (Nat × Nat)
  | 0, _, _ => []
  | _ + 1, ⟨page, row⟩, key =>
      (page, slot row.entries key) :: (pick row.first row.entries key).path key

theorem path_branch (page : Nat) (row : Row κ (Index κ height)) (key : κ) :
    (branch page row).path key =
      (page, slot row.entries key) :: (pick row.first row.entries key).path key := rfl

theorem route_mem (index : Index κ height) (key : κ) : index.route key ∈ index.leaves := by
  induction height with
  | zero => exact List.mem_singleton.mpr rfl
  | succ height inductionHypothesis =>
      obtain ⟨page, row, rfl⟩ := index.exists_branch
      exact List.mem_flatMap.mpr ⟨_, pick_mem row.first row.entries key, inductionHypothesis _⟩

end Ordered

/-! ### Propagation -/

/-- What reaches the parent of a subtree that took in a new leaf. -/
inductive Promotion (κ τ : Type) where
  | done
  | up (separator : κ) (right : τ)
  | full

/-- A subtree that took in a new leaf, what reaches its parent, and the first page
that is still unused. -/
structure Promoted (κ : Type) (height : Nat) where
  index : Index κ height
  promotion : Promotion κ (Index κ height)
  count : Nat

/-- The subtrees that stand where the old one stood. -/
def Promoted.parts (promoted : Promoted κ height) : List (Index κ height) :=
  promoted.index :: match promoted.promotion with
    | .up _ right => [right]
    | .done | .full => []

theorem leaves_parts (parts : List (Index κ (height + 1))) :
    parts.flatMap leaves = (parts.flatMap below).flatMap leaves := by
  rw [List.flatMap_assoc]
  rfl

theorem branches_parts (parts : List (Index κ (height + 1))) :
    (parts.flatMap branches).Perm
      (parts.map Index.page ++ (parts.flatMap below).flatMap branches) := by
  induction parts with
  | nil => exact List.Perm.refl _
  | cons part rest inductionHypothesis =>
      obtain ⟨page, row, rfl⟩ := part.exists_branch
      simp only [List.flatMap_cons, branches_branch, below_branch, List.map_cons, page_branch,
        List.flatMap_append, List.cons_append]
      refine List.Perm.cons _ ?_
      refine (inductionHypothesis.append_left _).trans ?_
      rw [← List.append_assoc, ← List.append_assoc]
      exact List.perm_append_comm.append_right _

section Ordered

variable [LinearOrder κ]

/-- Take a new child into a branch. A branch with `most` separators keeps the left
half and gives the right half to a new page; with `limit` pages in use it only
keeps the left half. -/
def addChild (most limit count page : Nat) (row : Row κ (Index κ height)) (separator : κ)
    (right : Index κ height) : Promoted κ (height + 1) :=
  let entries := place row.entries separator right
  if row.entries.length < most then ⟨branch page ⟨row.first, entries⟩, .done, count⟩
  else
    match entries.drop ((most + 1) / 2) with
    | [] => ⟨branch page ⟨row.first, entries⟩, .full, count⟩
    | middle :: later =>
        let left := branch page ⟨row.first, entries.take ((most + 1) / 2)⟩
        if count < limit then
          ⟨left, .up middle.1 (branch count ⟨middle.2, later⟩), count + 1⟩
        else ⟨left, .full, count⟩

/-- Take a new leaf in to the right of the leaf that a key is routed to. -/
def promote (most limit : Nat) : {height : Nat} → Index κ height → (key separator : κ) →
    (new count : Nat) → Promoted κ height
  | 0, index, _, separator, new, count => ⟨index, .up separator (leaf new), count⟩
  | _ + 1, ⟨page, row⟩, key, separator, new, count =>
      let child := (pick row.first row.entries key).promote most limit key separator new count
      let row := replace row.first row.entries key child.index
      match child.promotion with
      | .done => ⟨branch page row, .done, child.count⟩
      | .full => ⟨branch page row, .full, child.count⟩
      | .up separator right => addChild most limit child.count page row separator right

/-- The three ways a branch takes in a child. -/
theorem addChild_cases (most limit count page : Nat)
    (row : Row κ (Index κ height)) (separator : κ) (right : Index κ height) :
    (row.entries.length < most ∧ addChild most limit count page row separator right =
      ⟨branch page ⟨row.first, place row.entries separator right⟩, .done, count⟩) ∨
    (most ≤ row.entries.length ∧ ∃ before middle later,
      place row.entries separator right = before ++ middle :: later ∧
      before.length = (most + 1) / 2 ∧
      ((count < limit ∧ addChild most limit count page row separator right =
          ⟨branch page ⟨row.first, before⟩, .up middle.1 (branch count ⟨middle.2, later⟩),
            count + 1⟩) ∨
        (limit ≤ count ∧ addChild most limit count page row separator right =
          ⟨branch page ⟨row.first, before⟩, .full, count⟩))) := by
  by_cases room : row.entries.length < most
  · exact Or.inl ⟨room, if_pos room⟩
  · refine Or.inr ⟨Nat.le_of_not_lt room, ?_⟩
    have size := place_length row.entries separator right
    have inside : (most + 1) / 2 < (place row.entries separator right).length := by omega
    have dropped := List.drop_eq_getElem_cons inside
    have split := List.take_append_drop ((most + 1) / 2) (place row.entries separator right)
    rw [dropped] at split
    refine ⟨_, _, _, split.symm, by rw [List.length_take]; omega, ?_⟩
    unfold addChild
    rw [if_neg room]
    dsimp only
    rw [dropped]
    by_cases free : count < limit
    · exact Or.inl ⟨free, if_pos free⟩
    · exact Or.inr ⟨Nat.le_of_not_lt free, if_neg free⟩

/-! ### What propagation keeps -/

/-- How the pages and children of a branch are spread after it took part in a
propagation: `given` are the children it had to keep, `lost` those a page limit
cut off, and the branch pages are the old one and the newly used ones. -/
structure Spread (promoted : Promoted κ (height + 1)) (page count : Nat)
    (given lost : List (Index κ height)) : Prop where
  children : (promoted.parts.flatMap below ++ lost).Perm given
  complete : promoted.promotion ≠ .full → lost = []
  pages : promoted.parts.map Index.page = page :: List.range' count (promoted.count - count)
  grown : count ≤ promoted.count

theorem addChild_spread (most limit count page : Nat) (row : Row κ (Index κ height))
    (separator : κ) (right : Index κ height) :
    ∃ lost, Spread (addChild most limit count page row separator right) page count
      (right :: row.children) lost := by
  have placed : (Row.mk row.first (place row.entries separator right)).children.Perm
      (right :: row.children) := by
    have entries := (place_perm row.entries separator right).map Prod.snd
    exact (entries.cons row.first).trans (List.Perm.swap _ _ _)
  rcases addChild_cases most limit count page row separator right with
    ⟨-, run⟩ | ⟨-, before, middle, later, split, -, ⟨-, run⟩ | ⟨-, run⟩⟩
  · rw [run]
    refine ⟨[], ?_, fun _ => rfl, ?_, Nat.le_refl _⟩
    · simpa [Promoted.parts] using placed
    · simp [Promoted.parts]
  · rw [run]
    rw [split] at placed
    refine ⟨[], ?_, fun _ => rfl, ?_, Nat.le_succ _⟩
    · simpa [Promoted.parts] using placed
    · simp [Promoted.parts]
  · rw [run]
    rw [split] at placed
    refine ⟨middle.2 :: later.map Prod.snd, ?_, fun notFull => absurd rfl notFull, ?_,
      Nat.le_refl _⟩
    · simpa [Promoted.parts] using placed
    · simp [Promoted.parts]

theorem promote_branch (most limit page : Nat) (row : Row κ (Index κ height))
    (key separator : κ) (new count : Nat) :
    promote most limit (branch page row) key separator new count =
      (let child := (pick row.first row.entries key).promote most limit key separator new count
      let row := replace row.first row.entries key child.index
      match child.promotion with
      | .done => ⟨branch page row, .done, child.count⟩
      | .full => ⟨branch page row, .full, child.count⟩
      | .up separator right => addChild most limit child.count page row separator right) := rfl

/-- A branch passes on what its picked child became. -/
theorem promote_spread (most limit page : Nat) (row : Row κ (Index κ height)) (key separator : κ)
    (new count : Nat) {child : Promoted κ height}
    (became : (pick row.first row.entries key).promote most limit key separator new count = child) :
    ∃ before after lost, row.children = before ++ pick row.first row.entries key :: after ∧
      Spread (promote most limit (branch page row) key separator new count) page child.count
        (child.parts ++ (before ++ after)) lost ∧
      (child.promotion = .full →
        (promote most limit (branch page row) key separator new count).promotion = .full) := by
  obtain ⟨before, after, old, new_⟩ := replace_children row.first row.entries key
  have children := new_ child.index
  rw [promote_branch, became]
  dsimp only
  cases promoted : child.promotion with
  | done =>
      refine ⟨before, after, [], old, ⟨?_, fun _ => rfl, ?_, Nat.le_refl _⟩, fun full => ?_⟩
      · simp [Promoted.parts, promoted, children]
      · simp [Promoted.parts]
      · cases full
  | full =>
      refine ⟨before, after, [], old, ⟨?_, fun _ => rfl, ?_, Nat.le_refl _⟩, fun _ => rfl⟩
      · simp [Promoted.parts, promoted, children]
      · simp [Promoted.parts]
  | up separator right =>
      obtain ⟨lost, spread⟩ := addChild_spread most limit child.count page
        (replace row.first row.entries key child.index) separator right
      refine ⟨before, after, lost, old, { spread with children := ?_ }, fun full => ?_⟩
      · refine spread.children.trans ?_
        rw [children, Promoted.parts, promoted]
        exact (List.perm_middle.cons right).trans (List.Perm.swap _ _ _)
      · cases full

/-- Propagation adds the new leaf and keeps the others; a page limit can cut leaves off. -/
theorem promote_leaves (most limit : Nat) (index : Index κ height) (key separator : κ)
    (new count : Nat) :
    ∃ lost, ((index.promote most limit key separator new count).parts.flatMap leaves ++ lost).Perm
        (new :: index.leaves) ∧
      ((index.promote most limit key separator new count).promotion ≠ .full → lost = []) := by
  induction height with
  | zero =>
      refine ⟨[], ?_, fun _ => rfl⟩
      obtain ⟨page, rfl⟩ := index.exists_leaf
      exact List.Perm.swap _ _ _
  | succ height inductionHypothesis =>
      obtain ⟨page, row, rfl⟩ := index.exists_branch
      obtain ⟨lostBelow, leavesBelow, completeBelow⟩ :=
        inductionHypothesis (pick row.first row.entries key)
      obtain ⟨before, after, lost, old, spread, full⟩ :=
        promote_spread most limit page row key separator new count rfl
      refine ⟨lost.flatMap leaves ++ lostBelow, ?_, fun notFull => ?_⟩
      · have children := spread.children.flatMap_right leaves
        rw [List.flatMap_append, List.flatMap_append] at children
        rw [leaves_branch, old, leaves_parts]
        rw [List.perm_iff_count] at children leavesBelow ⊢
        intro leaf
        have one := children leaf
        have two := leavesBelow leaf
        simp only [List.flatMap_append, List.flatMap_cons, List.count_append,
          List.count_cons] at one two ⊢
        omega
      · rw [spread.complete notFull, completeBelow fun stopped => notFull (full stopped)]
        rfl

/-- Propagation uses exactly the next unused pages for new branches. -/
theorem promote_branches (most limit : Nat) (index : Index κ height) (key separator : κ)
    (new count : Nat) :
    count ≤ (index.promote most limit key separator new count).count ∧
    ∃ lost,
      ((index.promote most limit key separator new count).parts.flatMap branches ++ lost).Perm
        (index.branches ++ List.range' count
          ((index.promote most limit key separator new count).count - count)) := by
  induction height with
  | zero => 
      obtain ⟨page, rfl⟩ := index.exists_leaf
      refine ⟨Nat.le_refl _, [], ?_⟩
      simp [promote, Promoted.parts]
  | succ height inductionHypothesis =>
      obtain ⟨page, row, rfl⟩ := index.exists_branch
      obtain ⟨grownBelow, lostBelow, branchesBelow⟩ :=
        inductionHypothesis (pick row.first row.entries key)
      obtain ⟨before, after, lost, old, spread, full⟩ :=
        promote_spread most limit page row key separator new count rfl
      refine ⟨Nat.le_trans grownBelow spread.grown, lost.flatMap branches ++ lostBelow, ?_⟩
      have children := spread.children.flatMap_right branches
      rw [List.flatMap_append, List.flatMap_append] at children
      have parts := branches_parts
        (promote most limit (branch page row) key separator new count).parts
      rw [spread.pages] at parts
      generalize promote most limit (branch page row) key separator new count = promoted at *
      generalize (pick row.first row.entries key).promote most limit key separator new count =
        child at *
      have used : List.range' count (promoted.count - count) =
          List.range' count (child.count - count) ++
            List.range' child.count (promoted.count - child.count) := by
        have sum : promoted.count - count =
            (child.count - count) + (promoted.count - child.count) := by
          have := spread.grown
          omega
        have next : child.count = count + (child.count - count) := by omega
        rw [sum, ← List.range'_append_1, ← next]
      rw [branches_branch, old, used]
      rw [List.perm_iff_count] at children branchesBelow parts ⊢
      intro number
      have one := children number
      have two := branchesBelow number
      have three := parts number
      simp only [List.flatMap_append, List.flatMap_cons, List.count_append, List.count_cons,
        List.cons_append] at one two three ⊢
      omega

theorem addChild_leftmost (most limit count page : Nat) (row : Row κ (Index κ height))
    (separator : κ) (right : Index κ height) :
    (addChild most limit count page row separator right).index.leftmost = row.first.leftmost := by
  rcases addChild_cases most limit count page row separator right with
    ⟨-, run⟩ | ⟨-, before, middle, later, -, -, ⟨-, run⟩ | ⟨-, run⟩⟩
  all_goals rw [run]; rfl

theorem replace_leftmost {row : Row κ (Index κ height)} {key : κ} {child : Index κ height}
    (same : child.leftmost = (pick row.first row.entries key).leftmost) :
    (replace row.first row.entries key child).first.leftmost = row.first.leftmost := by
  obtain ⟨first, entries⟩ := row
  cases entries with
  | nil => exact same
  | cons entry rest =>
      by_cases below : entry.1 < key
      · rw [replace, if_pos below]
      · rw [replace, if_neg below]
        rw [pick, if_neg below] at same
        exact same

/-- Propagation keeps the leftmost leaf. -/
theorem promote_leftmost (most limit : Nat) (index : Index κ height) (key separator : κ)
    (new count : Nat) :
    (index.promote most limit key separator new count).index.leftmost = index.leftmost := by
  induction height with
  | zero => rfl
  | succ height inductionHypothesis =>
      obtain ⟨page, row, rfl⟩ := index.exists_branch
      have first := replace_leftmost (inductionHypothesis (pick row.first row.entries key))
      rw [promote_branch, leftmost_branch]
      dsimp only
      generalize (pick row.first row.entries key).promote most limit key separator new count =
        child at *
      cases child.promotion with
      | done => exact first
      | full => exact first
      | up separator right => exact (addChild_leftmost _ _ _ _ _ _ _).trans first

/-- Propagation keeps the page of the root. -/
theorem promote_page (most limit : Nat) (index : Index κ height) (key separator : κ)
    (new count : Nat) :
    (index.promote most limit key separator new count).index.page = index.page := by
  cases height with
  | zero => rfl
  | succ height =>
      obtain ⟨page, row, rfl⟩ := index.exists_branch
      obtain ⟨before, after, lost, -, spread, -⟩ :=
        promote_spread most limit page row key separator new count rfl
      exact (List.cons.inj spread.pages).1

theorem addChild_entries {most : Nat} (enough : 2 ≤ most) {row : Row κ (Index κ height)}
    (some : 1 ≤ row.entries.length) (fits : row.entries.length ≤ most) (limit count page : Nat)
    (separator : κ) (right : Index κ height) :
    ∀ part ∈ (addChild most limit count page row separator right).parts,
      ∃ page row, part = branch page row ∧ 1 ≤ row.entries.length ∧ row.entries.length ≤ most := by
  have size := place_length row.entries separator right
  rcases addChild_cases most limit count page row separator right with
    ⟨room, run⟩ | ⟨full, left, middle, later, split, half, ⟨-, run⟩ | ⟨-, run⟩⟩
  · rw [run]
    intro part member
    obtain rfl := List.mem_singleton.mp member
    exact ⟨_, _, rfl, by dsimp only; omega, by dsimp only; omega⟩
  · rw [split, List.length_append, List.length_cons] at size
    rw [run]
    intro part member
    rcases List.mem_pair.mp member with rfl | rfl
    · exact ⟨_, _, rfl, by dsimp only; omega, by dsimp only; omega⟩
    · exact ⟨_, _, rfl, by dsimp only; omega, by dsimp only; omega⟩
  · rw [run]
    intro part member
    obtain rfl := List.mem_singleton.mp member
    exact ⟨_, _, rfl, by dsimp only; omega, by dsimp only; omega⟩

/-- Propagation keeps the sizes. -/
theorem promote_sized {most : Nat} (enough : 2 ≤ most) (limit : Nat) {index : Index κ height}
    (sized : index.Sized most) (key separator : κ) (new count : Nat) :
    ∀ part ∈ (index.promote most limit key separator new count).parts, part.Sized most := by
  induction height with
  | zero => exact fun part _ => trivial
  | succ height inductionHypothesis =>
      obtain ⟨page, row, rfl⟩ := index.exists_branch
      obtain ⟨some, fits, children⟩ := sized_branch.mp sized
      have small := inductionHypothesis (children _ (pick_mem row.first row.entries key))
      obtain ⟨before, after, lost, old, spread, -⟩ :=
        promote_spread most limit page row key separator new count rfl
      -- children come from the picked child's parts and from the other children
      have childSized : ∀ child ∈ (promote most limit (branch page row) key separator new
          count).parts.flatMap below, child.Sized most := by
        intro child member
        have given := spread.children.subset (List.mem_append_left lost member)
        rcases List.mem_append.mp given with part | other
        · exact small child part
        · refine children child ?_
          rw [old]
          rcases List.mem_append.mp other with left | right
          · exact List.mem_append_left _ left
          · exact List.mem_append_right _ (List.mem_cons_of_mem _ right)
      have lengths : ∀ part ∈ (promote most limit (branch page row) key separator new count).parts,
          ∃ page row, part = branch page row ∧ 1 ≤ row.entries.length ∧
            row.entries.length ≤ most := by
        have kept := replace_length row.first row.entries key
          ((pick row.first row.entries key).promote most limit key separator new count).index
        rw [promote_branch]
        dsimp only
        generalize (pick row.first row.entries key).promote most limit key separator new count =
          child at *
        cases child.promotion with
        | done =>
            intro part member
            obtain rfl := List.mem_singleton.mp member
            exact ⟨_, _, rfl, by omega, by omega⟩
        | full =>
            intro part member
            obtain rfl := List.mem_singleton.mp member
            exact ⟨_, _, rfl, by omega, by omega⟩
        | up separator right =>
            exact addChild_entries enough (by omega) (by omega) limit child.count page separator right
      intro part member
      obtain ⟨page', row', rfl, atLeast, atMost⟩ := lengths part member
      refine sized_branch.mpr ⟨atLeast, atMost, fun child inside => childSized child ?_⟩
      exact List.mem_flatMap.mpr ⟨_, member, inside⟩

end Ordered

end Index

end MukhiDb.Foundation
