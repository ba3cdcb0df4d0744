import Mathlib.Data.List.Nodup
import MukhiDb.BTree.TreePages

/-!
Contract: `btree::insert` on the pages of a book.

Owns: what writing one branch does to a book; the propagation of a split up the
path, which is the promotion of the abstract index; the split of a leaf; and the
refinement: insertion into pages that hold a tree leaves pages that hold the tree
of the abstract insertion, also when the page limit stops it half way.

Does not own: the order of the rows, and pagers.
-/

namespace MukhiDb.Model

open MukhiDb.Foundation

namespace BTree

/-! ### Writing one page -/

section Pages

variable {book : List Page} {page : Nat} {row : Foundation.Row Int64 Nat}

theorem run_modifyPage (small : book.length ≤ maxPages) (inside : page < book.length)
    {edit : Page → Except Fault Page} {contents : Page}
    (edited : edit (binding.at_ book page) = .ok contents) :
    (modifyPage page edit).run binding.store book = (.ok (), book.set page contents) :=
  Binding.run_update (Nat.lt_of_lt_of_le inside small) inside edited

theorem run_allocatePage (room : book.length < maxPages) :
    allocatePage.run binding.store book = (.ok book.length, book ++ [Page.zero]) :=
  Binding.run_extend room

theorem run_allocatePage_full (full : maxPages ≤ book.length) :
    allocatePage.run binding.store book =
      (.error (.error (Pager.pageLimitMessage book.length)), book) :=
  Binding.run_extend_full full

theorem NodeIn.inside (node : NodeIn book page row) : page < book.length := by
  obtain ⟨contents, found, -⟩ := node
  exact (List.getElem?_eq_some_iff.mp found).1

theorem LeafIn.inside {cells : List (Int64 × Bytes)} {next : Nat}
    (leaf : LeafIn book page cells next) : page < book.length := by
  obtain ⟨contents, found, -⟩ := leaf
  exact (List.getElem?_eq_some_iff.mp found).1

theorem nodeIn_set {contents : Page} (inside : page < book.length) (node : NodeAt contents row) :
    NodeIn (book.set page contents) page row :=
  ⟨contents, List.getElem?_set_self inside, node⟩

/-- A branch with room takes in a separator and the child after it. -/
theorem insertIntoInternal_ok (small : book.length ≤ maxPages) (node : NodeIn book page row)
    (room : row.entries.length < internalMaxKeys) (key : Int64) {right : Nat}
    (smallChild : right < 2 ^ 32) :
    ∃ contents, (insertIntoInternal page key right).run binding.store book =
        (.ok (), book.set page contents) ∧
      NodeAt contents ⟨row.first, place row.entries key right⟩ := by
  have fewer : (Row.pairs row.first row.entries).1.length < internalMaxKeys := by
    rw [Row.pairs_length]
    exact room
  obtain ⟨contents, run, held⟩ := addEntry_ok (at_of_nodeIn node) fewer smallChild key
  rw [combineEntries_eq] at held
  exact ⟨contents, run_modifyPage small node.inside run, held⟩

theorem NodeAt.small {contents : Page} (node : NodeAt contents row) :
    ∀ child ∈ row.children, child < 2 ^ 32 := by
  intro child member
  have children := Row.pairs_children row.first row.entries
  rw [← children] at member
  rcases List.mem_append.mp member with inside | last
  · obtain ⟨entry, found, rfl⟩ := List.mem_map.mp inside
    obtain ⟨index, within, rfl⟩ := List.getElem_of_mem found
    exact (node.entry index _ (List.getElem?_eq_getElem within)).small
  · obtain rfl := List.mem_singleton.mp last
    have small := node.childSmall (Row.pairs row.first row.entries).1.length
    rwa [List.getElem?_eq_none (Nat.le_refl _)] at small

/-- Writing a row whose children are small leaves a branch that holds it. -/
theorem writeNode_ok (fits : row.entries.length ≤ internalMaxKeys)
    (small : ∀ child ∈ row.children, child < 2 ^ 32) (contents : Page) :
    ∃ after, writeInternal (Row.pairs row.first row.entries).1 (Row.pairs row.first row.entries).2
        contents = .ok after ∧ NodeAt after row := by
  have children := Row.pairs_children row.first row.entries
  apply writeInternal_ok
  · rw [Row.pairs_length]
    exact fits
  · intro entry member
    apply small
    rw [← children]
    exact List.mem_append_left _ (List.mem_map_of_mem member)
  · apply small
    rw [← children]
    exact List.mem_append_right _ (List.mem_singleton.mpr rfl)

/-- A full branch writes its left half and gives the right half to the next page. -/
theorem splitInternal_ok (small : book.length ≤ maxPages) (node : NodeIn book page row)
    (full : row.entries.length = internalMaxKeys) {key : Int64} {right : Nat}
    (smallChild : right < 2 ^ 32) {before later : List (Int64 × Nat)} {middle : Int64 × Nat}
    (split : place row.entries key right = before ++ middle :: later)
    (half : before.length = (internalMaxKeys + 1) / 2) :
    ∃ left other, NodeAt left ⟨row.first, before⟩ ∧ NodeAt other ⟨middle.2, later⟩ ∧
      (splitInternal page key right).run binding.store book =
        if book.length < maxPages then
          (.ok (middle.1, book.length), book.set page left ++ [other])
        else (.error (.error (Pager.pageLimitMessage book.length)), book.set page left) := by
  have held := at_of_nodeIn node
  have sizes := sizes
  have count := place_length row.entries key right
  rw [split, List.length_append, List.length_cons] at count
  have children : ∀ child ∈ row.first :: (before ++ middle :: later).map Prod.snd,
      child < 2 ^ 32 := by
    intro child member
    rw [← split] at member
    rcases List.mem_cons.mp member with rfl | inside
    · exact held.small _ List.mem_cons_self
    · obtain ⟨entry, found, rfl⟩ := List.mem_map.mp inside
      rcases List.mem_cons.mp ((place_perm row.entries key right).subset found) with rfl | old
      · exact smallChild
      · exact held.small _ (List.mem_cons_of_mem _ (List.mem_map_of_mem old))
  obtain ⟨left, writeLeft, leftNode⟩ := @writeNode_ok ⟨row.first, before⟩
    (by change before.length ≤ _; omega)
    (fun child member => children child (by
      rcases List.mem_cons.mp member with rfl | inside
      · exact List.mem_cons_self
      · rw [List.map_append]
        exact List.mem_cons_of_mem _ (List.mem_append_left _ inside)))
    (binding.at_ book page)
  obtain ⟨other, writeOther, otherNode⟩ := @writeNode_ok ⟨middle.2, later⟩
    (by change later.length ≤ _; omega)
    (fun child member => children child (by
      rw [List.map_append]
      exact List.mem_cons_of_mem _ (List.mem_append_right _ member)))
    Page.zero
  refine ⟨left, other, leftNode, otherNode, ?_⟩
  -- the entries of the full node with the new one among them
  have entries := collectEntries_ok held
  rw [Row.pairs_length, full] at entries
  have combined := combineEntries_eq row.first row.entries key right
  rw [split, Row.pairs_append] at combined
  have cut : ((Row.pairs row.first before).1 ++ (middle.1, (Row.pairs row.first before).2) ::
      (Row.pairs middle.2 later).1).drop ((internalMaxKeys + 1) / 2) =
        (middle.1, (Row.pairs row.first before).2) :: (Row.pairs middle.2 later).1 := by
    rw [← half, ← Row.pairs_length row.first before, List.drop_left]
  have kept : ((Row.pairs row.first before).1 ++ (middle.1, (Row.pairs row.first before).2) ::
      (Row.pairs middle.2 later).1).take ((internalMaxKeys + 1) / 2) =
        (Row.pairs row.first before).1 := by
    rw [← half, ← Row.pairs_length row.first before, List.take_left]
  unfold splitInternal
  rw [Program.run_bind_ok (run_getPage (Nat.lt_of_lt_of_le node.inside small)),
    Program.run_lift_ok (internalRightChild_ok held), Program.run_lift_ok entries, combined]
  dsimp only
  rw [cut, kept]
  dsimp only
  rw [Program.run_bind_ok (run_modifyPage small node.inside writeLeft)]
  have same : (book.set page left).length = book.length := List.length_set
  by_cases room : book.length < maxPages
  · rw [if_pos room, Program.run_bind_ok (run_allocatePage (same ▸ room)), same]
    have grown : (book.set page left ++ [Page.zero]).length = book.length + 1 := by
      rw [List.length_append, same, List.length_singleton]
    have fresh : binding.at_ (book.set page left ++ [Page.zero]) book.length = Page.zero :=
      binding.at_of_getElem? (by rw [← same, List.getElem?_concat_length])
    rw [Program.run_bind_ok (run_modifyPage (by omega) (by omega) (by rw [fresh]; exact writeOther)),
      Program.run_pure, List.set_append_right _ _ (by omega), same, Nat.sub_self,
      List.set_cons_zero]
  · rw [if_neg room, Program.run_bind_error (run_allocatePage_full (by omega)), same]

end Pages

/-! ### What a split leaves alone -/

section Halves

variable {book : List Page} {page number : Nat} (low high : Page)

theorem halves_length : (book.set page low ++ [high]).length = book.length + 1 := by
  rw [List.length_append, List.length_set, List.length_singleton]

theorem halves_kept (below : number < book.length) (different : number ≠ page) :
    (book.set page low ++ [high])[number]? = book[number]? := by
  rw [List.getElem?_append_left (by rw [List.length_set]; exact below),
    List.getElem?_set_ne (Ne.symm different)]

theorem halves_low (inside : page < book.length) :
    (book.set page low ++ [high])[page]? = some low := by
  rw [List.getElem?_append_left (by rw [List.length_set]; exact inside),
    List.getElem?_set_self inside]

theorem halves_high : (book.set page low ++ [high])[book.length]? = some high := by
  have last := @List.getElem?_concat_length _ (book.set page low) high
  rwa [List.length_set] at last

end Halves

section Kept

variable {book after : List Page} {height : Nat} {index : Index Int64 height}

/-- An index whose branch pages were not written is still there. -/
theorem nodes_kept (nodes : index.Nodes (NodeIn book))
    (kept : ∀ page ∈ index.branches, after[page]? = book[page]?) : index.Nodes (NodeIn after) := by
  apply nodes.mono
  rintro page member row ⟨contents, found, holds⟩
  exact ⟨contents, by rw [kept page member, found], holds⟩

/-- An index is still there when the book has grown. -/
theorem nodes_grown (nodes : index.Nodes (NodeIn book)) (new : List Page) :
    index.Nodes (NodeIn (book ++ new)) := by
  apply nodes.mono
  rintro page - row ⟨contents, found, holds⟩
  have below := (List.getElem?_eq_some_iff.mp found).1
  exact ⟨contents, by rw [List.getElem?_append_left below, found], holds⟩

end Kept

/-! ### Propagation -/

/-- What is left to do above a subtree, by what reached its parent. -/
def resume (rest : List (Nat × Nat)) {height : Nat} :
    Index.Promotion Int64 (Index Int64 height) → PageProgram (Option (Int64 × Nat))
  | .done => pure none
  | .up separator right => propagate rest separator right.page
  | .full => Program.stop (.error (Pager.pageLimitMessage maxPages))

/-- Pages `after` hold a promoted subtree. Among the old pages only those in
`changed` were written. -/
structure Promotes (book after : List Page) (changed : List Nat) {height : Nat}
    (promoted : Index.Promoted Int64 height) : Prop where
  length : after.length = promoted.count
  small : after.length ≤ maxPages
  nodes : ∀ part ∈ promoted.parts, part.Nodes (NodeIn after)
  kept : ∀ page < book.length, page ∉ changed → after[page]? = book[page]?
  right : ∀ separator right, promoted.promotion = .up separator right → right.page < 2 ^ 32

theorem mem_place_children {κ τ : Type} [LinearOrder κ] {row : Foundation.Row κ τ} {separator : κ}
    {right child : τ}
    (member : child ∈ (Foundation.Row.mk row.first (place row.entries separator right)).children) :
    child ∈ right :: row.children := by
  have entries := (place_perm row.entries separator right).map Prod.snd
  exact ((entries.cons row.first).trans (List.Perm.swap _ _ _)).subset member

/-- Nothing reaches the parent of this one. -/
theorem parts_stays {height count : Nat} {index : Index Int64 height}
    {promotion : Index.Promotion Int64 (Index Int64 height)}
    (noRight : ∀ median right, promotion ≠ .up median right) :
    (⟨index, promotion, count⟩ : Index.Promoted Int64 height).parts = [index] := by
  cases promotion with
  | up median right => exact absurd rfl (noRight median right)
  | done => rfl
  | full => rfl

section AddChild

variable {book after : List Page} {changed : List Nat} {height page : Nat}
  {row : Foundation.Row Int64 (Index Int64 height)} {separator : Int64} {right : Index Int64 height}

/-- A branch that no new branch stands beside. -/
theorem Promotes.stays {promotion : Index.Promotion Int64 (Index Int64 (height + 1))}
    (small : after.length ≤ maxPages) (own : NodeIn after page (Index.pages row))
    (children : ∀ child ∈ row.children, child.Nodes (NodeIn after))
    (kept : ∀ number < book.length, number ∉ changed → after[number]? = book[number]?)
    (noRight : ∀ median right, promotion ≠ .up median right) :
    Promotes book after changed ⟨Index.branch page row, promotion, after.length⟩ where
  length := rfl
  small := small
  nodes part member := by
    rw [parts_stays noRight] at member
    obtain rfl := List.mem_singleton.mp member
    exact Index.nodes_branch.mpr ⟨own, children⟩
  kept := kept
  right median right up := absurd up (noRight median right)

/-- A branch that was split in two. -/
theorem Promotes.halves {low high : Page} {lowRow highRow : Foundation.Row Int64 (Index Int64 height)}
    (more : book.length < maxPages) (inside : page < book.length)
    (lowNode : NodeAt low (Index.pages lowRow)) (highNode : NodeAt high (Index.pages highRow))
    (lowChildren : ∀ child ∈ lowRow.children, child.Nodes (NodeIn (book.set page low ++ [high])))
    (highChildren : ∀ child ∈ highRow.children, child.Nodes (NodeIn (book.set page low ++ [high])))
    (median : Int64) :
    Promotes book (book.set page low ++ [high]) [page]
      ⟨Index.branch page lowRow, .up median (Index.branch book.length highRow),
        book.length + 1⟩ where
  length := halves_length low high
  small := by
    rw [halves_length]
    exact more
  nodes part member := by
    rcases List.mem_pair.mp member with rfl | rfl
    · exact Index.nodes_branch.mpr ⟨⟨low, halves_low low high inside, lowNode⟩, lowChildren⟩
    · exact Index.nodes_branch.mpr ⟨⟨high, halves_high low high, highNode⟩, highChildren⟩
  kept number below different :=
    halves_kept low high below fun same => different (List.mem_singleton.mpr same)
  right := by
    intro separator right up
    obtain ⟨-, rfl⟩ := Index.Promotion.up.inj up
    have limit : maxPages < 2 ^ 32 := by decide
    change book.length < 2 ^ 32
    omega

/-- The children of both halves of a branch are its old ones and the new one. -/
theorem halves_children {before later : List (Int64 × Index Int64 height)}
    {middle : Int64 × Index Int64 height}
    (split : place row.entries separator right = before ++ middle :: later) :
    (∀ child ∈ (Foundation.Row.mk row.first before).children, child ∈ right :: row.children) ∧
    ∀ child ∈ (Foundation.Row.mk middle.2 later).children, child ∈ right :: row.children := by
  have known : ∀ child ∈ (Foundation.Row.mk row.first (before ++ middle :: later)).children,
      child ∈ right :: row.children := by
    rw [← split]
    exact fun child member => mem_place_children member
  rw [Row.children_mk, List.map_append] at known
  constructor
  · intro child member
    apply known
    rcases List.mem_cons.mp member with rfl | inner
    · exact List.mem_cons_self
    · exact List.mem_cons_of_mem _ (List.mem_append_left _ inner)
  · exact fun child member =>
      known child (List.mem_cons_of_mem _ (List.mem_append_right _ member))

/-- A branch page takes in a child as the abstract branch does. -/
theorem addChild_ok (small : book.length ≤ maxPages) (own : NodeIn book page (Index.pages row))
    (children : ∀ child ∈ right :: row.children, child.Nodes (NodeIn book))
    (apart : ∀ child ∈ right :: row.children, ∀ other ∈ child.branches,
      other < book.length ∧ other ≠ page)
    (fits : row.entries.length ≤ internalMaxKeys) (smallRight : right.page < 2 ^ 32) (slot : Nat)
    (rest : List (Nat × Nat)) :
    ∃ after, (propagate ((page, slot) :: rest) separator right.page).run binding.store book =
        (resume rest (Index.addChild internalMaxKeys maxPages book.length page row separator
          right).promotion).run binding.store after ∧
      Promotes book after [page]
        (Index.addChild internalMaxKeys maxPages book.length page row separator right) := by
  have inside := own.inside
  have size : (Index.pages row).entries.length = row.entries.length := List.length_map _
  have placed : place (Index.pages row).entries separator right.page =
      (place row.entries separator right).map fun entry => (entry.1, entry.2.page) :=
    place_map Index.page row.entries separator right
  have count := nodeKeys_ok (at_of_nodeIn own)
  rw [size] at count
  rw [propagate, Program.run_bind_ok (run_getPage (Nat.lt_of_lt_of_le inside small)),
    Program.run_lift_ok count]
  -- children keep their pages when only `page` and later pages are written
  have keep : ∀ {after : List Page},
      (∀ other < book.length, other ≠ page → after[other]? = book[other]?) →
      ∀ child ∈ right :: row.children, child.Nodes (NodeIn after) :=
    fun same child member => nodes_kept (children child member) fun other found =>
      same other (apart child member other found).1 (apart child member other found).2
  have setKeeps : ∀ contents : Page, ∀ other < book.length, other ≠ page →
      (book.set page contents)[other]? = book[other]? :=
    fun contents other _ different => List.getElem?_set_ne (Ne.symm different)
  have setLength : ∀ contents : Page, (book.set page contents).length = book.length :=
    fun contents => List.length_set
  have setKept : ∀ contents : Page, ∀ other < book.length, other ∉ [page] →
      (book.set page contents)[other]? = book[other]? :=
    fun contents other below different =>
      setKeeps contents other below fun same => different (List.mem_singleton.mpr same)
  rcases Index.addChild_cases internalMaxKeys maxPages book.length page row separator right with
    ⟨room, run⟩ | ⟨full, before, middle, later, split, half, halves⟩
  · obtain ⟨contents, written, node⟩ := insertIntoInternal_ok small own (by rw [size]; exact room)
      separator smallRight
    rw [placed] at node
    rw [if_pos room, Program.run_bind_ok written, run, ← setLength contents]
    exact ⟨book.set page contents, rfl, Promotes.stays (by rw [setLength]; exact small)
      (nodeIn_set inside node)
      (fun child found => keep (setKeeps contents) child (mem_place_children found))
      (setKept contents) nofun⟩
  · have splitPages : place (Index.pages row).entries separator right.page =
        (before.map fun entry => (entry.1, entry.2.page)) ++
          (middle.1, middle.2.page) :: later.map fun entry => (entry.1, entry.2.page) := by
      rw [placed, split, List.map_append, List.map_cons]
    obtain ⟨low, high, lowNode, highNode, written⟩ := splitInternal_ok small own
      (by rw [size]; omega) smallRight splitPages (by rw [List.length_map]; exact half)
    obtain ⟨lowKnown, highKnown⟩ := halves_children split
    rw [if_neg (by omega)]
    rcases halves with ⟨more, run⟩ | ⟨stop, run⟩
    · have still := @keep (book.set page low ++ [high]) fun other => halves_kept low high
      rw [if_pos more] at written
      rw [Program.run_bind_ok written, run]
      exact ⟨book.set page low ++ [high], rfl, Promotes.halves more inside lowNode highNode
        (fun child found => still child (lowKnown child found))
        (fun child found => still child (highKnown child found)) middle.1⟩
    · have last : book.length = maxPages := by omega
      rw [if_neg (by omega)] at written
      rw [Program.run_bind_error written, run, ← setLength low]
      exact ⟨book.set page low, by rw [setLength, last]; rfl, Promotes.stays (by rw [setLength]; exact small)
        (nodeIn_set inside lowNode)
        (fun child found => keep (setKeeps low) child (lowKnown child found)) (setKept low) nofun⟩

end AddChild

section Below

variable {book middle : List Page} {height page : Nat}
  {row : Foundation.Row Int64 (Index Int64 height)} {key separator : Int64} {new : Nat}
  {child : Index.Promoted Int64 height}

/-- The branches below a branch are pages of the book apart from its own. -/
theorem below_apart (distinct : (Index.branch page row).branches.Nodup)
    (inside : ∀ number ∈ (Index.branch page row).branches, number < book.length) :
    ∀ other ∈ row.children, ∀ number ∈ other.branches, number < book.length ∧ number ≠ page := by
  rw [Index.branches_branch] at distinct inside
  intro other member number found
  have whole := List.mem_flatMap.mpr ⟨other, member, found⟩
  exact ⟨inside number (List.mem_cons_of_mem _ whole),
    fun same => (List.nodup_cons.mp distinct).1 (same ▸ whole)⟩

/-- The siblings of a child share no branch with it. -/
theorem siblings_apart {before after : List (Index Int64 height)} {picked : Index Int64 height}
    (distinct : ((before ++ picked :: after).flatMap Index.branches).Nodup) :
    ∀ other ∈ before ++ after, ∀ number ∈ other.branches, number ∉ picked.branches := by
  intro other member number found shared
  rw [List.flatMap_append, List.flatMap_cons, List.nodup_append, List.nodup_append] at distinct
  obtain ⟨-, ⟨-, -, afterApart⟩, beforeApart⟩ := distinct
  rcases List.mem_append.mp member with left | right
  · exact beforeApart number (List.mem_flatMap.mpr ⟨other, left, found⟩) number
      (List.mem_append_left _ shared) rfl
  · exact afterApart number shared number (List.mem_flatMap.mpr ⟨other, right, found⟩) rfl

/-- What a child became lies in old branches of the child and in new pages. -/
theorem parts_apart (pageInside : page < book.length)
    (apart : ∀ number ∈ (pick row.first row.entries key).branches,
      number < book.length ∧ number ≠ page)
    (became : (pick row.first row.entries key).promote internalMaxKeys maxPages key separator new
      book.length = child) (length : middle.length = child.count) :
    book.length ≤ middle.length ∧
      ∀ part ∈ child.parts, ∀ number ∈ part.branches, number < middle.length ∧ number ≠ page := by
  obtain ⟨grown, lost, branches⟩ := (pick row.first row.entries key).promote_branches
    internalMaxKeys maxPages key separator new book.length
  rw [became, ← length] at grown branches
  refine ⟨grown, fun part member number found => ?_⟩
  have whole := branches.subset
    (List.mem_append_left lost (List.mem_flatMap.mpr ⟨part, member, found⟩))
  rcases List.mem_append.mp whole with old | fresh
  · obtain ⟨below, different⟩ := apart number old
    exact ⟨Nat.lt_of_lt_of_le below grown, different⟩
  · rw [List.mem_range'_1] at fresh
    omega

/-- The branch above a child that was promoted has the same pages below it. -/
theorem replaced_pages (same : child.index.page = (pick row.first row.entries key).page) :
    Index.pages (replace row.first row.entries key child.index) = Index.pages row := by
  have mapped := map_replace Index.page row.first row.entries key child.index
  rw [same, ← pick_map Index.page, replace_pick] at mapped
  exact mapped

/-- The children of a branch one of whose children was promoted: they are in the book, apart from
the page of the branch. -/
theorem replaced_children
    (children : ∀ other ∈ row.children, other.Nodes (NodeIn book))
    (distinct : (row.children.flatMap Index.branches).Nodup)
    (apart : ∀ other ∈ row.children, ∀ number ∈ other.branches,
      number < book.length ∧ number ≠ page)
    (below : Promotes book middle (pick row.first row.entries key).branches child)
    (grown : book.length ≤ middle.length)
    (partsApart : ∀ part ∈ child.parts, ∀ number ∈ part.branches,
      number < middle.length ∧ number ≠ page) :
    ∀ other ∈ (replace row.first row.entries key child.index).children,
      other.Nodes (NodeIn middle) ∧
        ∀ number ∈ other.branches, number < middle.length ∧ number ≠ page := by
  obtain ⟨before, after, around, replaced⟩ := replace_children row.first row.entries key
  change row.children = _ at around
  have siblings := siblings_apart (around ▸ distinct)
  have old : ∀ other ∈ before ++ after, other ∈ row.children := by
    intro other member
    rw [around]
    exact ((List.sublist_cons_self _ after).append_left before).subset member
  intro other member
  rw [replaced] at member
  have cases : other = child.index ∨ other ∈ before ++ after := by
    simp only [List.mem_append, List.mem_cons] at member ⊢
    tauto
  rcases cases with rfl | kept
  · exact ⟨below.nodes _ List.mem_cons_self, partsApart _ List.mem_cons_self⟩
  · have stands := apart other (old other kept)
    exact ⟨nodes_kept (children other (old other kept)) fun number found =>
        below.kept number (stands number found).1 (siblings other kept number found),
      fun number found =>
        ⟨Nat.lt_of_lt_of_le (stands number found).1 grown, (stands number found).2⟩⟩

end Below

/-- Propagation along the path of a key is the promotion of the index. -/
theorem propagate_ok {height : Nat} {index : Index Int64 height} {book : List Page}
    (small : book.length ≤ maxPages) (nodes : index.Nodes (NodeIn book))
    (distinct : index.branches.Nodup) (inside : ∀ page ∈ index.branches, page < book.length)
    (sized : index.Sized internalMaxKeys) (key separator : Int64) {new : Nat}
    (smallNew : new < 2 ^ 32) (rest : List (Nat × Nat)) :
    ∃ after, (propagate ((index.path key).reverse ++ rest) separator new).run binding.store book =
        (resume rest (index.promote internalMaxKeys maxPages key separator new
          book.length).promotion).run binding.store after ∧
      Promotes book after index.branches
        (index.promote internalMaxKeys maxPages key separator new book.length) := by
  induction height generalizing rest with
  | zero =>
      obtain ⟨page, rfl⟩ := index.exists_leaf
      refine ⟨book, rfl, ?_⟩
      exact
        { length := rfl
          small := small
          nodes := fun part _ => trivial
          kept := fun _ _ _ => rfl
          right := fun median right up => by
            obtain ⟨-, rfl⟩ := Index.Promotion.up.inj up
            exact smallNew }
  | succ height inductionHypothesis =>
      obtain ⟨page, row, rfl⟩ := index.exists_branch
      obtain ⟨own, children⟩ := Index.nodes_branch.mp nodes
      obtain ⟨-, fits, sizedBelow⟩ := Index.sized_branch.mp sized
      have picked := pick_mem row.first row.entries key
      have apart := below_apart distinct inside
      have pageInside := own.inside
      rw [Index.branches_branch] at distinct ⊢
      have distinctBelow := (List.nodup_cons.mp distinct).2
      -- the part below
      obtain ⟨middle, run, below⟩ := inductionHypothesis (children _ picked)
        ((List.nodup_flatMap.mp distinctBelow).1 _ picked)
        (fun other found => (apart _ picked other found).1) (sizedBelow _ picked)
        ((page, slot row.entries key) :: rest)
      have path : ((Index.branch page row).path key).reverse ++ rest =
          ((pick row.first row.entries key).path key).reverse ++
            (page, slot row.entries key) :: rest := by
        rw [Index.path_branch, List.reverse_cons, List.append_assoc, List.singleton_append]
      rw [path, run, Index.promote_branch]
      have samePage := (pick row.first row.entries key).promote_page internalMaxKeys maxPages key
        separator new book.length
      generalize became : (pick row.first row.entries key).promote internalMaxKeys maxPages key
        separator new book.length = child at *
      obtain ⟨grown, partsApart⟩ := parts_apart pageInside (apart _ picked) became below.length
      have stand := replaced_children children distinctBelow apart below grown partsApart
      -- the branch above it
      have notChanged : page ∉ (pick row.first row.entries key).branches :=
        fun found => (apart _ picked page found).2 rfl
      have ownKept : NodeIn middle page
          (Index.pages (replace row.first row.entries key child.index)) := by
        obtain ⟨contents, found, node⟩ := own
        rw [replaced_pages samePage]
        exact ⟨contents, by rw [below.kept page pageInside notChanged, found], node⟩
      have keptBelow : ∀ number < book.length,
          number ∉ page :: row.children.flatMap Index.branches →
          middle[number]? = book[number]? :=
        fun number within notIn => below.kept number within fun found =>
          notIn (List.mem_cons_of_mem _ (List.mem_flatMap.mpr ⟨_, picked, found⟩))
      dsimp only
      rw [← below.length]
      cases promotion : child.promotion with
      | done =>
          exact ⟨middle, rfl, Promotes.stays below.small ownKept (fun other member =>
            (stand other member).1) keptBelow nofun⟩
      | full =>
          exact ⟨middle, rfl, Promotes.stays below.small ownKept (fun other member =>
            (stand other member).1) keptBelow nofun⟩
      | up median right =>
          have rightPart : right ∈ child.parts := by
            rw [Index.Promoted.parts, promotion]
            exact List.mem_cons_of_mem _ (List.mem_singleton.mpr rfl)
          have length := replace_length row.first row.entries key child.index
          obtain ⟨last, added, above⟩ := addChild_ok below.small ownKept
            (List.forall_mem_cons.mpr ⟨below.nodes _ rightPart, fun other member =>
              (stand other member).1⟩)
            (List.forall_mem_cons.mpr ⟨partsApart _ rightPart, fun other member =>
              (stand other member).2⟩)
            (by omega) (below.right median right promotion) (slot row.entries key) rest
          refine ⟨last, added, { above with kept := fun number within notIn => ?_ }⟩
          rw [← keptBelow number within notIn]
          apply above.kept number (Nat.lt_of_lt_of_le within grown)
          intro same
          exact notIn (List.mem_singleton.mp same ▸ List.mem_cons_self)

/-! ### Splitting a leaf -/

/-- Both halves of a list of cells fit in a page. -/
structure SplitFits (cells : List (Int64 × Bytes)) : Prop where
  left : leafSize (cells.take (splitPoint cells)) ≤ pageSize
  right : leafSize (cells.drop (splitPoint cells)) ≤ pageSize

theorem splitPoint_lt {cells : List (Int64 × Bytes)} (some : cells ≠ []) :
    splitPoint cells < cells.length := by
  have positive := List.length_pos_iff.mpr some
  unfold splitPoint
  dsimp only
  split <;> split <;> omega

theorem layout_splits : layout.Splits where
  enough := by decide
  moves := fun _ some => splitPoint_lt some

section Leaves

variable {book : List Page} {page next : Nat} {cells : List (Int64 × Bytes)}

theorem insertIdx_slot (cells : List (Int64 × Bytes)) (key : Int64) (row : Bytes) :
    cells.insertIdx (slot cells key) (key, row) = place cells key row := by
  induction cells with
  | nil => rfl
  | cons cell rest inductionHypothesis =>
      rw [slot, place]
      split
      · rw [List.insertIdx_succ_cons, inductionHypothesis]
      · rfl

/-- A leaf whose halves fit gives the right one to the next page. -/
theorem splitLeaf_ok (small : book.length ≤ maxPages) (leaf : LeafIn book page cells next)
    (smallNext : next < 2 ^ 32) {key separator : Int64} {row first : Bytes}
    {left later : List (Int64 × Bytes)}
    (split : place cells key row = left ++ (separator, first) :: later)
    (cut : left.length = splitPoint (place cells key row))
    (fits : SplitFits (place cells key row)) :
    ∃ low high, LeafAt low left book.length ∧ LeafAt high ((separator, first) :: later) next ∧
      (splitLeaf page key row).run binding.store book =
        if book.length < maxPages then
          (.ok (separator, book.length), book.set page low ++ [high])
        else (.error (.error (Pager.pageLimitMessage book.length)), book) := by
  have held := at_of_leafIn leaf
  have inside := leaf.inside
  have kept : (place cells key row).take (splitPoint (place cells key row)) = left := by
    rw [← cut, split, List.take_left]
  have moved : (place cells key row).drop (splitPoint (place cells key row)) =
      (separator, first) :: later := by
    rw [← cut, split, List.drop_left]
  have fitsLeft := fits.left
  have fitsRight := fits.right
  rw [kept] at fitsLeft
  rw [moved] at fitsRight
  have limit : maxPages < 2 ^ 32 := by decide
  obtain ⟨low, writeLow, lowLeaf⟩ := @writeLeafCells_ok left book.length fitsLeft (by omega)
    (binding.at_ book page)
  obtain ⟨high, writeHigh, highLeaf⟩ := writeLeafCells_ok fitsRight smallNext Page.zero
  refine ⟨low, high, lowLeaf, highLeaf, ?_⟩
  have load := @run_getPage book page (Nat.lt_of_lt_of_le inside small)
  unfold splitLeaf
  rw [Program.run_bind_ok load, Program.run_lift_ok (collectLeafCells_ok held)]
  dsimp only
  rw [insertIdx_slot, kept, moved, Program.run_bind_ok load,
    Program.run_lift_ok (leafNextLeaf_ok held)]
  by_cases room : book.length < maxPages
  · have grown : (book ++ [Page.zero]).length = book.length + 1 := by
      rw [List.length_append, List.length_singleton]
    have old : binding.at_ (book ++ [Page.zero]) page = binding.at_ book page :=
      binding.at_of_getElem?
        (by rw [List.getElem?_append_left inside, binding.getElem?_of_lt inside])
    have same : (book.set page low).length = book.length := List.length_set
    have set : (book ++ [Page.zero]).set page low = book.set page low ++ [Page.zero] :=
      List.set_append_left _ _ inside
    have fresh : binding.at_ (book.set page low ++ [Page.zero]) book.length = Page.zero :=
      binding.at_of_getElem? (by rw [← same, List.getElem?_concat_length])
    rw [if_pos room, Program.run_bind_ok (run_allocatePage room),
      Program.run_bind_ok (run_modifyPage (by omega) (by omega) (by rw [old]; exact writeLow)), set,
      Program.run_bind_ok (run_modifyPage (by rw [List.length_append, same, List.length_singleton]; omega)
        (by rw [List.length_append, same, List.length_singleton]; omega)
        (by rw [fresh]; exact writeHigh)),
      Program.run_pure, List.set_append_right _ _ (by omega), same, Nat.sub_self,
      List.set_cons_zero]
  · rw [if_neg room, Program.run_bind_error (run_allocatePage_full (by omega))]

end Leaves

/-! ### Insertion -/

section Insert

variable {book other : List Page} {floor : Nat} {tree : Tree}

/-- A chain in which leaves stand for one leaf, on pages where only that leaf changed. -/
theorem chained_replace {before after leaves : List (Leaf Int64 Bytes)} {leaf : Leaf Int64 Bytes}
    (chained : Chained book (before ++ leaf :: after) 0)
    (same : ∀ page ∈ Leaf.pages (before ++ after), other[page]? = book[page]?)
    (first : nextOf leaves (nextOf after 0) = leaf.page)
    (new : Chained other leaves (nextOf after 0)) : Chained other (before ++ leaves ++ after) 0 := by
  obtain ⟨ahead, -, behind⟩ := chained_append.mp chained
  have pages : Leaf.pages (before ++ after) = Leaf.pages before ++ Leaf.pages after :=
    List.map_append
  rw [pages] at same
  rw [List.append_assoc]
  apply chained_append.mpr
  constructor
  · rw [nextOf_append, first]
    exact ahead.congr fun page member => same page (List.mem_append_left _ member)
  · apply chained_append.mpr
    exact ⟨new, behind.congr fun page member => same page (List.mem_append_right _ member)⟩

/-- The leaf that a key is routed to, and where it stands. -/
theorem Held.target (held : Held floor book tree) (key : Int64) :
    ∃ before after,
      tree.chain = before ++ ⟨tree.index.route key, tree.target key⟩ :: after ∧
      (∀ leaves, tree.retarget key leaves = before ++ leaves ++ after) ∧
      LeafIn book (tree.index.route key) (tree.target key) (nextOf after 0) ∧
      nextOf after 0 < 2 ^ 32 ∧
      (∀ page ∈ Leaf.pages (before ++ after), page < book.length ∧ page ≠ tree.index.route key) ∧
      tree.index.route key ∉ tree.index.branches := by
  obtain ⟨before, after, around, retarget⟩ := held.linked.around key
  have chained := held.chained
  rw [around] at chained
  have pages : Leaf.pages tree.chain =
      Leaf.pages before ++ tree.index.route key :: Leaf.pages after := by
    rw [around]
    simp [Leaf.pages]
  have distinct := held.linked.distinct
  unfold BPlusTree.pages at distinct
  rw [pages] at distinct
  obtain ⟨-, chainDistinct, apart⟩ := List.nodup_append.mp distinct
  obtain ⟨-, tailDistinct, headApart⟩ := List.nodup_append.mp chainDistinct
  have inChain : ∀ page ∈ Leaf.pages before ++ tree.index.route key :: Leaf.pages after,
      page < book.length ∧ page < maxPages := by
    rw [← pages]
    exact fun page member => held.inside (List.mem_append_right _ member)
  refine ⟨before, after, around, retarget, (chained_append.mp chained).2.1, ?_, ?_, ?_⟩
  · have limit : maxPages < 2 ^ 32 := by decide
    cases after with
    | nil => exact Nat.two_pow_pos 32
    | cons leaf rest =>
        have small := (inChain leaf.page (List.mem_append_right _
          (List.mem_cons_of_mem _ List.mem_cons_self))).2
        change leaf.page < 2 ^ 32
        omega
  · intro page member
    rw [show Leaf.pages (before ++ after) = Leaf.pages before ++ Leaf.pages after from
      List.map_append] at member
    rcases List.mem_append.mp member with left | right
    · exact ⟨(inChain page (List.mem_append_left _ left)).1,
        headApart page left _ List.mem_cons_self⟩
    · refine ⟨(inChain page (List.mem_append_right _ (List.mem_cons_of_mem _ right))).1, ?_⟩
      rintro rfl
      exact (List.nodup_cons.mp tailDistinct).1 right
  · exact fun branch => apart _ branch _ (List.mem_append_right _ List.mem_cons_self) rfl

theorem root_mem {count : Nat} (linked : tree.Linked layout floor count) :
    tree.root ∈ tree.pages := by
  obtain ⟨height, index, chain⟩ := tree
  cases height with
  | zero =>
      obtain ⟨page, rfl⟩ := index.exists_leaf
      exact List.mem_append_right _ (linked.reached.subset (List.mem_singleton.mpr rfl))
  | succ height =>
      obtain ⟨page, row, rfl⟩ := index.exists_branch
      exact List.mem_append_left _ List.mem_cons_self

/-- The answer of an insertion by what it leaves. -/
def answer (grown : BPlusTree.Grown Int64 Bytes) : Except Fault Nat :=
  if grown.complete then .ok grown.tree.root
  else .error (.error (Pager.pageLimitMessage maxPages))

/-- Pages that hold what an insertion into a tree left. Pages apart from the tree were
not written. -/
structure Inserts (book : List Page) (tree : Tree) (after : List Page)
    (grown : BPlusTree.Grown Int64 Bytes) : Prop where
  length : after.length = grown.count
  small : after.length ≤ maxPages
  nodes : grown.tree.index.Nodes (NodeIn after)
  chained : Chained after grown.tree.chain 0
  kept : ∀ page < book.length, page ∉ tree.pages → after[page]? = book[page]?

/-- The leaf that a key is routed to is one of the pages of the tree. -/
theorem Held.route_mem (held : Held floor book tree) (key : Int64) :
    tree.index.route key ∈ tree.pages := by
  obtain ⟨before, after, around, -⟩ := held.linked.around key
  apply List.mem_append_right
  rw [around, Leaf.pages, List.map_append]
  exact List.mem_append_right _ List.mem_cons_self

/-- The end of `insert`: a key and a child that left the root get a new root. -/
def raiseRoot (rootPage : Nat) : Option (Int64 × Nat) → PageProgram Nat
  | none => pure rootPage
  | some (promoteKey, promoteChild) => do
      let newRoot ← allocatePage
      modifyPage newRoot (writeRoot rootPage promoteKey promoteChild)
      pure newRoot

/-- The part of `insert` before the leaf is changed. -/
theorem insert_start (held : Held floor book tree) (key : Int64) {row : Bytes}
    (short : keySize + row.length ≤ maxCellData) :
    (insert tree.root key row).run binding.store book =
      (if layout.room (tree.target key) (key, row) then do
          insertIntoLeaf (tree.index.route key) key row
          pure tree.root
        else do
          let (medianKey, newLeaf) ← splitLeaf (tree.index.route key) key row
          let promoted ← propagate (tree.index.path key).reverse medianKey newLeaf
          raiseRoot tree.root promoted : PageProgram Nat).run binding.store book := by
  obtain ⟨before, after, -, -, leaf, -⟩ := held.target key
  have held' := at_of_leafIn leaf
  have sizes := sizes
  have descent := descend_ok held.nodes held.branches held.leaves key
    (Nat.lt_succ_of_lt held.bounds.1) []
  unfold insert BPlusTree.root
  rw [if_neg (Nat.not_lt_of_le short), Program.run_bind_ok descent]
  dsimp only
  rw [Program.run_bind_ok (run_getPage (Nat.lt_of_lt_of_le leaf.inside held.small)),
    Program.run_lift_ok (leafFreeSpace_ok held')]
  have fits := held'.fits
  have room : slotSize + (keySize + row.length) ≤ pageSize - leafSize (tree.target key) ↔
      layout.room (tree.target key) (key, row) = true := by
    unfold layout
    rw [decide_eq_true_iff]
    dsimp only
    omega
  by_cases free : slotSize + (keySize + row.length) ≤ pageSize - leafSize (tree.target key)
  · rw [if_pos free, if_pos (room.mp free)]
  · rw [if_neg free, if_neg (fun inRoom => free (room.mpr inRoom))]
    rfl

/-- A leaf with room takes in the cell. -/
theorem insert_filled (held : Held floor book tree) (key : Int64) {row : Bytes}
    (short : keySize + row.length ≤ maxCellData)
    (room : layout.room (tree.target key) (key, row) = true) :
    ∃ after, (insert tree.root key row).run binding.store book = (.ok tree.root, after) ∧
      Inserts book tree after ⟨⟨tree.height, tree.index, tree.retarget key
        [⟨tree.index.route key, place (tree.target key) key row⟩]⟩, book.length, true⟩ := by
  obtain ⟨before, after, around, retarget, leaf, -, apart, notBranch⟩ := held.target key
  have chained := held.chained
  rw [around] at chained
  have fits : leafSize (place (tree.target key) key row) ≤ pageSize := by
    rw [leafSize_place]
    exact of_decide_eq_true room
  obtain ⟨contents, run, filled⟩ := addCell_ok (at_of_leafIn leaf) key row fits
  refine ⟨book.set (tree.index.route key) contents, ?_, List.length_set, ?_, ?_, ?_, ?_⟩
  · rw [insert_start held key short, if_pos room]
    exact Program.run_bind_ok (run_modifyPage held.small leaf.inside run)
  · rw [List.length_set]
    exact held.small
  · apply held.nodes.mono
    rintro page member row ⟨node, found, holds⟩
    have different : tree.index.route key ≠ page := fun same => notBranch (same ▸ member)
    exact ⟨node, by rw [List.getElem?_set_ne different, found], holds⟩
  · dsimp only
    rw [retarget]
    apply chained_replace chained
    · exact fun page member => List.getElem?_set_ne (Ne.symm (apart page member).2)
    · rfl
    · exact ⟨⟨contents, List.getElem?_set_self leaf.inside, filled⟩, trivial⟩
  · intro page _ outside
    apply List.getElem?_set_ne
    rintro rfl
    exact outside (held.route_mem key)

/-- A new root over two parts that are in the book. -/
theorem raiseRoot_new {after : List Page} {height : Nat} {index right : Index Int64 height}
    {leaves : List (Leaf Int64 Bytes)} (space : after.length < maxPages)
    (indexNodes : index.Nodes (NodeIn after)) (rightNodes : right.Nodes (NodeIn after))
    (chained : Chained after leaves 0) (smallIndex : index.page < 2 ^ 32)
    (smallRight : right.page < 2 ^ 32) (median : Int64) :
    ∃ contents, (raiseRoot index.page (some (median, right.page))).run binding.store after =
        (.ok after.length, after ++ [contents]) ∧
      (Index.branch after.length ⟨index, [(median, right)]⟩).Nodes
        (NodeIn (after ++ [contents])) ∧
      Chained (after ++ [contents]) leaves 0 := by
  obtain ⟨contents, written, node⟩ := writeRoot_ok smallIndex smallRight median Page.zero
  have grownLength : (after ++ [Page.zero]).length = after.length + 1 := by
    rw [List.length_append, List.length_singleton]
  have fresh : binding.at_ (after ++ [Page.zero]) after.length = Page.zero :=
    binding.at_of_getElem? List.getElem?_concat_length
  refine ⟨contents, ?_, Index.nodes_branch.mpr ⟨⟨contents, List.getElem?_concat_length, node⟩, ?_⟩,
    ?_⟩
  · unfold raiseRoot
    rw [Program.run_bind_ok (run_allocatePage space),
      Program.run_bind_ok (run_modifyPage (by omega) (by omega) (by rw [fresh]; exact written)),
      List.set_append_right _ _ (Nat.le_refl _), Nat.sub_self, List.set_cons_zero]
    rfl
  · intro child member
    rcases List.mem_pair.mp member with rfl | rfl
    · exact nodes_grown indexNodes [contents]
    · exact nodes_grown rightNodes [contents]
  · apply chained.congr
    intro number member
    obtain ⟨cells, next, page, found, -⟩ := chained.leaf member
    exact List.getElem?_append_left (List.getElem?_eq_some_iff.mp found).1

/-- The end of an insertion does what the abstract tree does with what its root became. -/
theorem raise_ok {middle after : List Page} {changed : List Nat} {height : Nat}
    {promoted : Index.Promoted Int64 height} {leaves : List (Leaf Int64 Bytes)}
    (promotes : Promotes middle after changed promoted) (chained : Chained after leaves 0)
    (kept : ∀ page < book.length, page ∉ tree.pages → after[page]? = book[page]?)
    (sameRoot : promoted.index.page = tree.root) (smallRoot : tree.root < 2 ^ 32) :
    ∃ last, (do let raised ← resume [] promoted.promotion; raiseRoot tree.root raised).run
        binding.store after = (answer (BPlusTree.raise layout leaves promoted), last) ∧
      Inserts book tree last (BPlusTree.raise layout leaves promoted) := by
  obtain ⟨index, promotion, count⟩ := promoted
  obtain rfl : after.length = count := promotes.length
  have indexNodes : index.Nodes (NodeIn after) := promotes.nodes index List.mem_cons_self
  change index.page = tree.root at sameRoot
  rw [← sameRoot] at smallRoot ⊢
  cases promotion with
  | done => exact ⟨after, rfl, rfl, promotes.small, indexNodes, chained, kept⟩
  | full => exact ⟨after, rfl, rfl, promotes.small, indexNodes, chained, kept⟩
  | up median right =>
      have rightNodes : right.Nodes (NodeIn after) :=
        promotes.nodes right (List.mem_cons_of_mem _ List.mem_cons_self)
      unfold BPlusTree.raise
      dsimp only
      rw [show layout.limit = maxPages from rfl]
      by_cases space : after.length < maxPages
      · obtain ⟨contents, run, nodes, chainedAfter⟩ := raiseRoot_new space indexNodes rightNodes
          chained smallRoot (promotes.right median right rfl) median
        rw [if_pos space]
        refine ⟨after ++ [contents], run, List.length_append, ?_, nodes, chainedAfter, ?_⟩
        · rw [List.length_append, List.length_singleton]
          exact space
        · intro number below outside
          have same := kept number below outside
          have found := same.trans (List.getElem?_eq_getElem below)
          rw [List.getElem?_append_left (List.getElem?_eq_some_iff.mp found).1, same]
      · have last : after.length = maxPages := Nat.le_antisymm promotes.small (Nat.le_of_not_lt space)
        rw [if_neg space]
        refine ⟨after, ?_, rfl, promotes.small, indexNodes, chained, kept⟩
        change (raiseRoot index.page (some (median, right.page))).run binding.store after = _
        unfold raiseRoot
        rw [Program.run_bind_error (run_allocatePage_full (Nat.le_of_eq last.symm)), last]
        rfl

section Split

variable {after : List Page} {low high : Page} {key : Int64}

/-- A propagation after the split of a leaf does not write pages apart from the tree. -/
theorem split_outside (held : Held floor book tree)
    (kept : ∀ number < book.length + 1, number ∉ tree.index.branches →
      after[number]? = (book.set (tree.index.route key) low ++ [high])[number]?) :
    ∀ number < book.length, number ∉ tree.pages → after[number]? = book[number]? := by
  intro number below outside
  have notIn : number ∉ tree.index.branches := fun branch =>
    outside (List.mem_append_left _ branch)
  have different : number ≠ tree.index.route key := by
    rintro rfl
    exact outside (held.route_mem key)
  rw [kept number (Nat.lt_succ_of_lt below) notIn, halves_kept low high below different]

/-- A propagation after the split of a leaf leaves the chain with the two halves in it. -/
theorem split_chained (held : Held floor book tree)
    (kept : ∀ number < book.length + 1, number ∉ tree.index.branches →
      after[number]? = (book.set (tree.index.route key) low ++ [high])[number]?)
    {before behind : List (Leaf Int64 Bytes)} {left later : List (Int64 × Bytes)}
    (around : tree.chain = before ++ ⟨tree.index.route key, tree.target key⟩ :: behind)
    (apart : ∀ page ∈ Leaf.pages (before ++ behind),
      page < book.length ∧ page ≠ tree.index.route key)
    (lowLeaf : LeafAt low left book.length) (highLeaf : LeafAt high later (nextOf behind 0)) :
    Chained after (before ++ [⟨tree.index.route key, left⟩, ⟨book.length, later⟩] ++ behind) 0 := by
  have chained := held.chained
  have distinct := List.nodup_append.mp held.linked.distinct
  rw [around] at chained distinct
  have notBranch : ∀ number ∈ Leaf.pages (before ++ ⟨tree.index.route key, tree.target key⟩ :: behind),
      number ∉ tree.index.branches :=
    fun number leaf branch => distinct.2.2 number branch number leaf rfl
  have routed : tree.index.route key ∈
      Leaf.pages (before ++ ⟨tree.index.route key, tree.target key⟩ :: behind) := by
    simp [Leaf.pages]
  have inside : tree.index.route key < book.length :=
    (held.inside (held.route_mem key)).1
  have newNotBranch : book.length ∉ tree.index.branches := fun branch =>
    Nat.lt_irrefl _ (held.inside (List.mem_append_left _ branch)).1
  apply chained_replace chained ?_ rfl
  · refine ⟨⟨low, ?_, lowLeaf⟩, ⟨high, ?_, highLeaf⟩, trivial⟩
    · rw [kept _ (Nat.lt_succ_of_lt inside) (notBranch _ routed), halves_low low high inside]
    · rw [kept _ (Nat.lt_succ_self _) newNotBranch, halves_high]
  · intro number member
    obtain ⟨below, different⟩ := apart number member
    have inChain : number ∈
        Leaf.pages (before ++ ⟨tree.index.route key, tree.target key⟩ :: behind) := by
      simp only [Leaf.pages, List.map_append, List.map_cons, List.mem_append,
        List.mem_cons] at member ⊢
      tauto
    rw [kept number (Nat.lt_succ_of_lt below) (notBranch number inChain),
      halves_kept low high below different]

end Split

/-- A full leaf is split and the new leaf is propagated. -/
theorem insert_split (held : Held floor book tree) (key : Int64) {row : Bytes}
    (short : keySize + row.length ≤ maxCellData)
    (full : layout.room (tree.target key) (key, row) = false) (more : book.length < maxPages)
    {separator : Int64} {first : Bytes} {left later : List (Int64 × Bytes)}
    (split : place (tree.target key) key row = left ++ (separator, first) :: later)
    (cut : left.length = splitPoint (place (tree.target key) key row))
    (fits : SplitFits (place (tree.target key) key row)) {grown : BPlusTree.Grown Int64 Bytes}
    (raised : BPlusTree.raise layout
      (tree.retarget key [⟨tree.index.route key, left⟩, ⟨book.length, (separator, first) :: later⟩])
      (tree.index.promote internalMaxKeys maxPages key separator book.length (book.length + 1)) =
        grown) :
    ∃ after, (insert tree.root key row).run binding.store book = (answer grown, after) ∧
      Inserts book tree after grown := by
  obtain ⟨before, behind, around, retarget, leaf, smallNext, apart, notBranch⟩ := held.target key
  have limit : maxPages < 2 ^ 32 := by decide
  have branchInside : ∀ number ∈ tree.index.branches, number < book.length :=
    fun number member => (held.inside (List.mem_append_left _ member)).1
  -- the split of the leaf
  obtain ⟨low, high, lowLeaf, highLeaf, run⟩ :=
    splitLeaf_ok held.small leaf smallNext split cut fits
  rw [if_pos more] at run
  have nodes : tree.index.Nodes (NodeIn (book.set (tree.index.route key) low ++ [high])) :=
    nodes_kept held.nodes fun number member =>
      halves_kept low high (branchInside number member) fun same => notBranch (same ▸ member)
  -- its propagation
  have length := @halves_length book (tree.index.route key) low high
  obtain ⟨after, resumed, promotes⟩ := propagate_ok (by omega) nodes
    (List.nodup_append.mp held.linked.distinct).1
    (fun number member => by have := branchInside number member; omega)
    held.linked.sized key separator (by omega : book.length < 2 ^ 32) []
  rw [List.append_nil, length] at resumed
  rw [length] at promotes
  have kept : ∀ number < book.length + 1, number ∉ tree.index.branches →
      after[number]? = (book.set (tree.index.route key) low ++ [high])[number]? :=
    fun number within => promotes.kept number (by rw [length]; exact within)
  -- the root
  have chained := split_chained held kept around apart lowLeaf highLeaf
  rw [← retarget] at chained
  obtain ⟨last, ended, inserts⟩ := raise_ok promotes chained (split_outside held kept)
    (tree.index.promote_page internalMaxKeys maxPages key separator book.length (book.length + 1))
    (Nat.lt_trans (held.inside (root_mem held.linked)).2 limit)
  rw [raised] at ended inserts
  refine ⟨last, ?_, inserts⟩
  have noRoom : ¬ layout.room (tree.target key) (key, row) = true := by
    rw [full]
    exact Bool.false_ne_true
  rw [insert_start held key short, if_neg noRoom, Program.run_bind_ok run]
  dsimp only
  rw [Program.run_bind, Exec.run_bind] at ended ⊢
  rw [resumed]
  exact ended

/-- Insertion into pages that hold a tree leaves pages that hold what the abstract
insertion leaves, with its answer. -/
theorem insert_inserts (held : Held floor book tree) (key : Int64) {row : Bytes}
    (short : keySize + row.length ≤ maxCellData)
    (fits : layout.room (tree.target key) (key, row) = false →
      SplitFits (place (tree.target key) key row)) :
    ∃ after, (insert tree.root key row).run binding.store book =
        (answer (tree.insert layout book.length key row), after) ∧
      Inserts book tree after (tree.insert layout book.length key row) := by
  rcases BPlusTree.insert_cases layout_splits tree book.length key row with
    ⟨room, grown⟩ | ⟨full, stop, grown⟩ | ⟨full, more, left, separator, first, later, cells, cut, grown⟩
  · rw [grown]
    exact insert_filled held key short room
  · obtain ⟨before, behind, -, -, leaf, smallNext, -⟩ := held.target key
    have noRoom : ¬ layout.room (tree.target key) (key, row) = true := by
      rw [full]
      exact Bool.false_ne_true
    have last : book.length = maxPages := Nat.le_antisymm held.small stop
    have some : place (tree.target key) key row ≠ [] := by
      intro none
      have length := place_length (tree.target key) key row
      rw [none] at length
      contradiction
    have inside := splitPoint_lt some
    have halves := List.take_append_drop (splitPoint (place (tree.target key) key row))
      (place (tree.target key) key row)
    rw [List.drop_eq_getElem_cons inside] at halves
    obtain ⟨low, high, -, -, run⟩ := splitLeaf_ok held.small leaf smallNext halves.symm
      (List.length_take_of_le (Nat.le_of_lt inside)) (fits full)
    rw [if_neg (by omega)] at run
    rw [grown]
    refine ⟨book, ?_, rfl, held.small, held.nodes, held.chained, fun _ _ _ => rfl⟩
    rw [insert_start held key short, if_neg noRoom, Program.run_bind_error run, last]
    rfl
  · rw [grown]
    exact insert_split held key short full more cells cut (fits full) rfl

/-- Insertion into pages that hold a tree leaves pages that hold the tree of the
abstract insertion, with its answer. -/
theorem insert_ok (held : Held floor book tree) (key : Int64) {row : Bytes}
    (short : keySize + row.length ≤ maxCellData)
    (fits : layout.room (tree.target key) (key, row) = false →
      SplitFits (place (tree.target key) key row)) :
    ∃ after, (insert tree.root key row).run binding.store book =
        (answer (tree.insert layout book.length key row), after) ∧
      after.length = (tree.insert layout book.length key row).count ∧
      Held floor after (tree.insert layout book.length key row).tree := by
  have linked := BPlusTree.insert_linked layout_splits held.linked key row
  obtain ⟨after, run, inserts⟩ := insert_inserts held key short fits
  rw [← inserts.length] at linked
  exact ⟨after, run, inserts.length, inserts.small, linked, inserts.nodes, inserts.chained⟩

/-- Insertion does not write pages apart from the tree. -/
theorem insert_kept (held : Held floor book tree) (key : Int64) {row : Bytes}
    (short : keySize + row.length ≤ maxCellData)
    (fits : layout.room (tree.target key) (key, row) = false →
      SplitFits (place (tree.target key) key row)) {page : Nat} (below : page < book.length)
    (outside : page ∉ tree.pages) :
    ((insert tree.root key row).run binding.store book).2[page]? = book[page]? := by
  obtain ⟨after, run, inserts⟩ := insert_inserts held key short fits
  rw [run]
  exact inserts.kept page below outside

end Insert

end BTree

end MukhiDb.Model
