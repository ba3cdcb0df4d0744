import MukhiDb.BTree.InternalPage
import MukhiDb.Foundation.BPlusTree

/-!
Contract: a B+tree held by the pages of a book.

Owns: the sizes of this tree; the relation between the pages and an abstract tree
that they hold; what one node does with a key; the descent to a leaf; and the scan
of the leaf chain.

Does not own: insertion, and pagers.
-/

namespace MukhiDb.Model

open MukhiDb.Foundation

/-- Books of pages, with the page limit of a pager. -/
def binding : Binding Page := ⟨maxPages, Pager.pageLimitMessage, Page.zero⟩

namespace BTree

/-- Trees of cells under signed keys. -/
abbrev Tree : Type := BPlusTree Int64 Bytes

/-- The sizes that the source uses. -/
def layout : Layout Int64 Bytes where
  most := internalMaxKeys
  limit := maxPages
  room := fun cells cell => decide (leafSize cells + slotSize + keySize + cell.2.length ≤ pageSize)
  cut := splitPoint

/-- A page of a book holds a row of children. -/
def NodeIn (book : List Page) (page : Nat) (row : Foundation.Row Int64 Nat) : Prop :=
  ∃ contents, book[page]? = some contents ∧ NodeAt contents row

/-- A page of a book is a leaf. -/
def LeafIn (book : List Page) (page : Nat) (cells : List (Int64 × Bytes)) (next : Nat) : Prop :=
  ∃ contents, book[page]? = some contents ∧ LeafAt contents cells next

/-- The page of the first leaf, `stop` if there is none. -/
def nextOf (chain : List (Leaf Int64 Bytes)) (stop : Nat) : Nat :=
  (chain.head?.map Leaf.page).getD stop

/-- The pages of a chain hold its leaves, each linked to the next and the last to `stop`. -/
def Chained (book : List Page) : (chain : List (Leaf Int64 Bytes)) → (stop : Nat) → Prop
  | [], _ => True
  | leaf :: rest, stop => LeafIn book leaf.page leaf.cells (nextOf rest stop) ∧ Chained book rest stop

/-- The pages of a book hold a tree from page `floor` on. -/
structure Held (floor : Nat) (book : List Page) (tree : Tree) : Prop where
  small : book.length ≤ maxPages
  linked : tree.Linked layout floor book.length
  nodes : tree.index.Nodes (NodeIn book)
  chained : Chained book tree.chain 0

/-! ### One node -/

section Node

variable {page : Page} {row : Foundation.Row Int64 Nat}

theorem nodeKeys_ok (node : NodeAt page row) : internalNumKeys page = .ok row.entries.length := by
  rw [internalNumKeys_ok node, Row.pairs_length]

theorem nodeSearch_ok (node : NodeAt page row) (key : Int64) :
    searchFrom (internalKey page) key row.entries.length 0 = .ok (slot row.entries key) := by
  have searched := searchInternal_ok node key
  rwa [Row.pairs_length, slot_map (Row.pairs_keys row.first row.entries)] at searched

theorem nodeChild_ok (node : NodeAt page row) (key : Int64) :
    childAt page row.entries.length (slot row.entries key) =
      .ok (pick row.first row.entries key) := by
  have child := childAt_ok node (slot row.entries key)
  rwa [Row.pairs_length, pairs_slot] at child

theorem nodeFirst_ok (node : NodeAt page row) :
    childAt page row.entries.length 0 = .ok row.first := by
  have child := childAt_ok node 0
  rwa [Row.pairs_length, Row.pairs_first] at child

end Node

/-! ### Chains -/

section Chains

variable {book other : List Page} {stop : Nat}

theorem nextOf_append (before after : List (Leaf Int64 Bytes)) (stop : Nat) :
    nextOf (before ++ after) stop = nextOf before (nextOf after stop) := by
  cases before with
  | nil => rfl
  | cons leaf rest => rfl

theorem chained_append {before after : List (Leaf Int64 Bytes)} :
    Chained book (before ++ after) stop ↔
      Chained book before (nextOf after stop) ∧ Chained book after stop := by
  induction before with
  | nil => exact ⟨fun chained => ⟨trivial, chained⟩, fun both => both.2⟩
  | cons leaf rest inductionHypothesis =>
      rw [List.cons_append, Chained, Chained, inductionHypothesis, nextOf_append, and_assoc]

theorem Chained.leaf {chain : List (Leaf Int64 Bytes)} (chained : Chained book chain stop)
    {page : Nat} (member : page ∈ Leaf.pages chain) : ∃ cells next, LeafIn book page cells next := by
  obtain ⟨leaf, inside, rfl⟩ := List.mem_map.mp member
  obtain ⟨before, after, rfl⟩ := List.append_of_mem inside
  exact ⟨_, _, (chained_append.mp chained).2.1⟩

/-- A chain depends on its own pages only. -/
theorem Chained.congr {chain : List (Leaf Int64 Bytes)} (chained : Chained book chain stop)
    (same : ∀ page ∈ Leaf.pages chain, other[page]? = book[page]?) : Chained other chain stop := by
  induction chain with
  | nil => trivial
  | cons leaf rest inductionHypothesis =>
      obtain ⟨⟨contents, found, held⟩, later⟩ := chained
      refine ⟨⟨contents, ?_, held⟩, inductionHypothesis later fun page member => ?_⟩
      · rw [same leaf.page List.mem_cons_self, found]
      · exact same page (List.mem_cons_of_mem _ member)

end Chains

/-! ### Lengths -/

section Lengths

variable {floor : Nat} {book : List Page} {tree : Tree}

theorem Held.inside (held : Held floor book tree) {page : Nat} (member : page ∈ tree.pages) :
    page < book.length ∧ page < binding.limit :=
  ⟨(held.linked.within page member).2,
    Nat.lt_of_lt_of_le (held.linked.within page member).2 held.small⟩

theorem height_le_branches {κ : Type} {height : Nat} (index : Index κ height) :
    height ≤ index.branches.length := by
  induction height with
  | zero => exact Nat.zero_le _
  | succ height inductionHypothesis =>
      obtain ⟨page, row, rfl⟩ := index.exists_branch
      have first := inductionHypothesis row.first
      rw [Index.branches_branch, Row.children, List.flatMap_cons, List.length_cons,
        List.length_append]
      omega

/-- A tree has fewer levels than there are pages, and no more leaves. -/
theorem Held.bounds (held : Held floor book tree) :
    tree.height < maxPages ∧ tree.chain.length ≤ maxPages := by
  have levels := height_le_branches tree.index
  have count : tree.pages.length ≤ book.length := by
    have inRange : tree.pages ⊆ List.range book.length :=
      fun page member => List.mem_range.mpr (held.linked.within page member).2
    have shorter := (List.subperm_of_subset held.linked.distinct inRange).length_le
    rwa [List.length_range] at shorter
  have small := held.small
  have nonempty : 0 < tree.chain.length := by
    have head := held.linked.head
    cases chain : tree.chain with
    | nil =>
        rw [chain] at head
        contradiction
    | cons leaf rest => exact Nat.succ_pos _
  unfold BPlusTree.pages Leaf.pages at count
  rw [List.length_append, List.length_map] at count
  omega

end Lengths

/-! ### Descending -/

section Descent

variable {book : List Page}

theorem at_of_nodeIn {page : Nat} {row : Foundation.Row Int64 Nat} (node : NodeIn book page row) :
    NodeAt (binding.at_ book page) row := by
  obtain ⟨contents, found, held⟩ := node
  rwa [binding.at_of_getElem? found]

theorem at_of_leafIn {page next : Nat} {cells : List (Int64 × Bytes)}
    (leaf : LeafIn book page cells next) : LeafAt (binding.at_ book page) cells next := by
  obtain ⟨contents, found, held⟩ := leaf
  rwa [binding.at_of_getElem? found]

theorem run_getPage {page : Nat} (below : page < binding.limit) :
    (getPage page).run binding.store book = (.ok (binding.at_ book page), book) :=
  Binding.run_fetch below book

/-- What a branch does with a key. -/
theorem branch_ok {height page : Nat} {row : Foundation.Row Int64 (Index Int64 height)}
    (node : NodeAt (binding.at_ book page) (Index.pages row)) (key : Int64) :
    internalNumKeys (binding.at_ book page) = .ok row.entries.length ∧
      searchFrom (internalKey (binding.at_ book page)) key row.entries.length 0 =
        .ok (slot row.entries key) ∧
      childAt (binding.at_ book page) row.entries.length (slot row.entries key) =
        .ok (pick row.first row.entries key).page := by
  have keys : (Index.pages row).entries.map Prod.fst = row.entries.map Prod.fst :=
    Row.keys_map Index.page row
  have size : (Index.pages row).entries.length = row.entries.length := List.length_map _
  have same : pick (Index.pages row).first (Index.pages row).entries key =
      (pick row.first row.entries key).page := pick_map Index.page row.first row.entries key
  have count := nodeKeys_ok node
  have search := nodeSearch_ok node key
  have child := nodeChild_ok node key
  rw [slot_map keys, size] at search child
  rw [size] at count
  rw [same] at child
  exact ⟨count, search, child⟩

/-- A descent ends in the leaf that the key is routed to, with the path to it. -/
theorem descend_ok {height : Nat} {index : Index Int64 height} (nodes : index.Nodes (NodeIn book))
    (below : ∀ page ∈ index.branches, page < binding.limit)
    (leaves : ∀ page ∈ index.leaves, page < binding.limit ∧
      (binding.at_ book page).byte 0 = nodeTypeLeaf)
    (key : Int64) {fuel : Nat} (enough : height < fuel) (path : List (Nat × Nat)) :
    (descend key fuel index.page path).run binding.store book =
      (.ok (index.route key, path ++ index.path key), book) := by
  induction height generalizing fuel path with
  | zero =>
      obtain ⟨fuel, rfl⟩ := Nat.exists_eq_succ_of_ne_zero (Nat.ne_of_gt enough)
      obtain ⟨inside, kind⟩ := leaves index.page (List.mem_singleton.mpr rfl)
      rw [descend, Program.run_bind_ok (run_getPage inside)]
      dsimp only
      rw [if_pos kind, Index.path, List.append_nil]
      rfl
  | succ height inductionHypothesis =>
      obtain ⟨page, row, rfl⟩ := index.exists_branch
      obtain ⟨fuel, rfl⟩ := Nat.exists_eq_succ_of_ne_zero (Nat.ne_of_gt (Nat.zero_lt_of_lt enough))
      obtain ⟨own, children⟩ := Index.nodes_branch.mp nodes
      have node := at_of_nodeIn own
      obtain ⟨count, search, child⟩ := branch_ok node key
      have inside := below page List.mem_cons_self
      have picked := pick_mem row.first row.entries key
      have next := inductionHypothesis (children _ picked)
        (fun other member => below other
          (List.mem_cons_of_mem _ (List.mem_flatMap.mpr ⟨_, picked, member⟩)))
        (fun other member => leaves other (List.mem_flatMap.mpr ⟨_, picked, member⟩))
        (Nat.lt_of_succ_lt_succ enough) (path ++ [(page, slot row.entries key)])
      rw [Index.page_branch, descend, Program.run_bind_ok (run_getPage inside)]
      dsimp only
      rw [if_neg node.notLeaf, Program.run_bind_ok (run_getPage inside), Program.run_lift_ok count,
        Program.run_lift_ok search, Program.run_lift_ok child, next, List.append_assoc]
      rfl

/-- A leftmost descent ends in the leftmost leaf. -/
theorem descendLeft_ok {height : Nat} {index : Index Int64 height}
    (nodes : index.Nodes (NodeIn book)) (below : ∀ page ∈ index.branches, page < binding.limit)
    (leaves : ∀ page ∈ index.leaves, page < binding.limit ∧
      (binding.at_ book page).byte 0 = nodeTypeLeaf)
    {fuel : Nat} (enough : height < fuel) :
    (descendLeft fuel index.page).run binding.store book = (.ok index.leftmost, book) := by
  induction height generalizing fuel with
  | zero =>
      obtain ⟨fuel, rfl⟩ := Nat.exists_eq_succ_of_ne_zero (Nat.ne_of_gt enough)
      obtain ⟨inside, kind⟩ := leaves index.page (List.mem_singleton.mpr rfl)
      rw [descendLeft, Program.run_bind_ok (run_getPage inside), if_pos kind]
      rfl
  | succ height inductionHypothesis =>
      obtain ⟨page, row, rfl⟩ := index.exists_branch
      obtain ⟨fuel, rfl⟩ := Nat.exists_eq_succ_of_ne_zero (Nat.ne_of_gt (Nat.zero_lt_of_lt enough))
      obtain ⟨own, children⟩ := Index.nodes_branch.mp nodes
      have node := at_of_nodeIn own
      have inside := below page List.mem_cons_self
      rw [Index.page_branch, descendLeft, Program.run_bind_ok (run_getPage inside),
        if_neg node.notLeaf, Program.run_lift_ok (nodeKeys_ok node),
        Program.run_lift_ok (nodeFirst_ok node)]
      exact inductionHypothesis (children _ List.mem_cons_self)
        (fun other member => below other
          (List.mem_cons_of_mem _ (List.mem_flatMap.mpr ⟨_, List.mem_cons_self, member⟩)))
        (fun other member => leaves other
          (List.mem_flatMap.mpr ⟨_, List.mem_cons_self, member⟩))
        (Nat.lt_of_succ_lt_succ enough)

end Descent

/-! ### Scanning -/

section Scan

variable {book : List Page} {floor : Nat} {tree : Tree}

theorem Held.branches (held : Held floor book tree) :
    ∀ page ∈ tree.index.branches, page < binding.limit :=
  fun _ member => (held.inside (List.mem_append_left _ member)).2

theorem Held.leaves (held : Held floor book tree) :
    ∀ page ∈ tree.index.leaves, page < binding.limit ∧
      (binding.at_ book page).byte 0 = nodeTypeLeaf := by
  intro page member
  have inChain := held.linked.reached.subset member
  obtain ⟨cells, next, leaf⟩ := held.chained.leaf inChain
  exact ⟨(held.inside (List.mem_append_right _ inChain)).2, (at_of_leafIn leaf).kind⟩

/-- A walk along the chain collects the rows of its leaves. -/
theorem scanChain_ok {leaf : Leaf Int64 Bytes} {rest : List (Leaf Int64 Bytes)}
    (chained : Chained book (leaf :: rest) 0)
    (below : ∀ page ∈ Leaf.pages (leaf :: rest), page < binding.limit)
    (linked : ∀ page ∈ Leaf.pages rest, page ≠ 0) {fuel : Nat} (enough : rest.length < fuel) :
    (scanChain fuel leaf.page).run binding.store book =
      (.ok ((Leaf.rows (leaf :: rest)).map Prod.snd), book) := by
  induction rest generalizing leaf fuel with
  | nil =>
      obtain ⟨fuel, rfl⟩ := Nat.exists_eq_succ_of_ne_zero (Nat.ne_of_gt enough)
      have held := at_of_leafIn chained.1
      have inside := below leaf.page List.mem_cons_self
      rw [scanChain, Program.run_bind_ok (run_getPage inside),
        Program.run_lift_ok (leafNumCells_ok held), Program.run_lift_ok (collectRows_ok held),
        Program.run_lift_ok (leafNextLeaf_ok held), if_pos (show nextOf [] 0 = 0 from rfl)]
      simp [Leaf.rows]
  | cons next rest inductionHypothesis =>
      obtain ⟨fuel, rfl⟩ := Nat.exists_eq_succ_of_ne_zero (Nat.ne_of_gt (Nat.zero_lt_of_lt enough))
      have held := at_of_leafIn chained.1
      have inside := below leaf.page List.mem_cons_self
      have more : nextOf (next :: rest) 0 ≠ 0 := linked next.page List.mem_cons_self
      have tail := inductionHypothesis chained.2
        (fun page member => below page (List.mem_cons_of_mem _ member))
        (fun page member => linked page (List.mem_cons_of_mem _ member))
        (Nat.lt_of_succ_lt_succ enough)
      rw [scanChain, Program.run_bind_ok (run_getPage inside),
        Program.run_lift_ok (leafNumCells_ok held), Program.run_lift_ok (collectRows_ok held),
        Program.run_lift_ok (leafNextLeaf_ok held), if_neg more]
      refine (Program.run_bind_ok tail).trans ?_
      simp [Leaf.rows]

/-- A scan returns the rows of the tree from the first leaf to the last. -/
theorem scanAll_ok (held : Held floor book tree) :
    (scanAll tree.root).run binding.store book = (.ok (tree.rows.map Prod.snd), book) := by
  obtain ⟨levels, leaves⟩ := held.bounds
  have head := held.linked.head
  have later := held.linked.later
  have pages : ∀ page ∈ Leaf.pages tree.chain, page < binding.limit :=
    fun page member => (held.inside (List.mem_append_right _ member)).2
  have chained := held.chained
  have first := descendLeft_ok held.nodes held.branches held.leaves
    (Nat.lt_succ_of_lt levels)
  unfold scanAll BPlusTree.root BPlusTree.rows
  rw [Program.run_bind_ok first]
  cases chain : tree.chain with
  | nil =>
      rw [chain] at head
      contradiction
  | cons leaf rest =>
      rw [chain] at head later pages chained leaves
      have same : leaf.page = tree.index.leftmost := Option.some.inj head
      rw [← same]
      exact scanChain_ok chained pages
        (fun page member => Nat.ne_of_gt (Nat.lt_of_le_of_lt (Nat.zero_le floor)
          (later page member))) (Nat.lt_succ_of_lt (Nat.lt_of_succ_le leaves))

end Scan

end BTree

end MukhiDb.Model
