import MukhiDb.BTree.TreePages

/-!
Contract: what a dump prints of a B+tree.

Owns: the lines of a tree, with the cells, the keys and the links of its nodes; and that
a dump of pages that hold a tree ends and prints these lines.

Does not own: which trees a table has (`Storage/Trees`).
-/

namespace MukhiDb.Model

open MukhiDb.Foundation

namespace BTree

/-! ### Lines -/

/-- Lines with line breaks between them. -/
def joinLines : List String → String
  | [] => ""
  | first :: rest => rest.foldl (fun out line => out ++ "\n" ++ line) first

/-- Two spaces for each level. -/
def indentOf (depth : Nat) : String := String.join (List.replicate depth "  ")

/-- The line of a key of a leaf. -/
def leafKeyLine (depth : Nat) (key : Int64) : String := s!"{indentOf depth}  - key {key}"

/-- The line of a separator. -/
def separatorLine (depth : Nat) (key : Int64) : String := s!"{indentOf depth}  key {key}"

/-- The lines of a leaf: its page, the number of its cells, the leaf after it and its free space,
then its keys. -/
def leafLines (page next : Nat) (cells : List (Int64 × Bytes)) (depth : Nat) : List String :=
  let free := pageSize - leafSize cells
  s!"{indentOf depth}Leaf (page={page}, cells={cells.length}, next={next}, free={free})" ::
    cells.map fun cell => leafKeyLine depth cell.1

/-- The cells of the leaf at a page of a chain, and the page of the leaf after it. -/
def leafOf : List (Leaf Int64 Bytes) → (page : Nat) → Nat × List (Int64 × Bytes)
  | [], _ => (0, [])
  | leaf :: rest, page => if leaf.page = page then (nextOf rest 0, leaf.cells) else leafOf rest page

/-- The lines of the leaf at a page. -/
def chainLines (chain : List (Leaf Int64 Bytes)) (page depth : Nat) : List String :=
  leafLines page (leafOf chain page).1 (leafOf chain page).2 depth

/-- The lines of an index over a chain: of a branch its page and the number of its separators,
then its children with the separators between them, one level deeper. -/
def indexLines (chain : List (Leaf Int64 Bytes)) :
    {height : Nat} → (depth : Nat) → Index Int64 height → List String
  | 0, depth, page => chainLines chain page depth
  | _ + 1, depth, ⟨page, row⟩ =>
      s!"{indentOf depth}Internal (page={page}, keys={row.entries.length})" ::
        ((Row.pairs row.first row.entries).1.flatMap fun entry =>
          indexLines chain (depth + 1) entry.2 ++ [separatorLine depth entry.1]) ++
        indexLines chain (depth + 1) (Row.pairs row.first row.entries).2

/-- The lines of a tree. -/
def treeLines (tree : Tree) : List String := indexLines tree.chain 0 tree.index

/-- More lines after the first ones. -/
def addLines (out : String) (lines : List String) : String :=
  lines.foldl (fun out line => out ++ "\n" ++ line) out

theorem addLines_cons (out line : String) (rest : List String) :
    addLines out (line :: rest) = addLines (out ++ "\n" ++ line) rest := rfl

theorem addLines_append (out : String) (front back : List String) :
    addLines out (front ++ back) = addLines (addLines out front) back := List.foldl_append

theorem addLines_shift (out line : String) (rest : List String) :
    addLines (out ++ "\n" ++ line) rest = out ++ "\n" ++ addLines line rest := by
  induction rest generalizing line with
  | nil => rfl
  | cons next rest inductionHypothesis =>
      rw [addLines_cons, addLines_cons, ← inductionHypothesis]
      simp only [String.append_assoc]

/-- Lines are added as their text after a line break. -/
theorem addLines_joined (out : String) {lines : List String} (some : lines ≠ []) :
    addLines out lines = out ++ "\n" ++ joinLines lines := by
  cases lines with
  | nil => exact absurd rfl some
  | cons first rest => exact addLines_shift out first rest

theorem indexLines_ne {height : Nat} (chain : List (Leaf Int64 Bytes)) (depth : Nat)
    (index : Index Int64 height) : indexLines chain depth index ≠ [] := by
  cases height with
  | zero => exact List.cons_ne_nil _ _
  | succ height =>
      obtain ⟨page, row, rfl⟩ := index.exists_branch
      exact List.cons_ne_nil _ _

/-! ### Dumping -/

section Dumps

variable {book : List Page} {chain : List (Leaf Int64 Bytes)}

/-- The leaf at a page of a chain, as the pages hold it. -/
theorem Chained.leafOf {page : Nat} (chained : Chained book chain 0) (member : page ∈ Leaf.pages chain) :
    LeafIn book page (BTree.leafOf chain page).2 (BTree.leafOf chain page).1 := by
  induction chain with
  | nil => exact absurd member List.not_mem_nil
  | cons leaf rest inductionHypothesis =>
      unfold BTree.leafOf
      by_cases same : leaf.page = page
      · rw [if_pos same, ← same]
        exact chained.1
      · rw [if_neg same]
        rcases List.mem_cons.mp member with rfl | later
        · exact absurd rfl same
        · exact inductionHypothesis chained.2 later

theorem collectKeys_ok {page : Page} {cells : List (Int64 × Bytes)} {next : Nat}
    (leaf : LeafAt page cells next) :
    collectFrom (leafCellKey page) cells.length 0 = .ok (cells.map Prod.fst) := by
  have collected := @collectFrom_ok _ (leafCellKey page) (cells.map Prod.fst) 0 fun i inside => by
    rw [List.length_map] at inside
    rw [Nat.zero_add, leaf.cellsAt.leafCellKey_ok inside, List.getElem_map]
  rwa [List.length_map] at collected

/-- A dump of a leaf prints its lines. -/
theorem dumpLeaf_ok {page depth fuel : Nat} (chained : Chained book chain 0)
    (member : page ∈ Leaf.pages chain) (below : page < binding.limit) :
    (dumpTree (fuel + 1) page depth).run binding.store book =
      (.ok (joinLines (chainLines chain page depth)), book) := by
  have held := at_of_leafIn (chained.leafOf member)
  unfold dumpTree
  rw [Program.run_bind_ok (run_getPage below)]
  dsimp only
  rw [if_pos held.kind, Program.run_lift_ok (leafNumCells_ok held),
    Program.run_lift_ok (leafNextLeaf_ok held), Program.run_lift_ok (leafFreeSpace_ok held),
    Program.run_lift_ok (collectKeys_ok held)]
  refine congrArg (fun out => (Except.ok out, book)) ?_
  simp only [chainLines, leafLines, joinLines, leafKeyLine, indentOf, List.foldl_map, String.append_assoc]
  rfl

/-- The loop over the separators of a branch adds the lines of the children and the separators. -/
theorem dumpEntries_ok {τ : Type} {number : τ → Nat} {lines : τ → List String}
    {dump : Nat → PageProgram String} {depth : Nat} {entries : List (Int64 × τ)}
    (children : ∀ entry ∈ entries, lines entry.2 ≠ [] ∧
      (dump (number entry.2)).run binding.store book = (.ok (joinLines (lines entry.2)), book))
    (out : String) :
    (dumpEntries dump (indentOf depth) (entries.map fun entry => (entry.1, number entry.2)) out).run
        binding.store book =
      (.ok (addLines out (entries.flatMap fun entry =>
        lines entry.2 ++ [separatorLine depth entry.1])), book) := by
  induction entries generalizing out with
  | nil => rfl
  | cons entry rest inductionHypothesis =>
      obtain ⟨some, first⟩ := children entry List.mem_cons_self
      have later := inductionHypothesis fun other member => children other (List.mem_cons_of_mem _ member)
      obtain ⟨key, child⟩ := entry
      rw [List.map_cons, dumpEntries, Program.run_bind_ok first, later, List.flatMap_cons,
        addLines_append, addLines_append, addLines_joined _ some]
      refine congrArg (fun out => (Except.ok (addLines out _), book)) ?_
      simp only [addLines, separatorLine, String.append_assoc, List.foldl_cons, List.foldl_nil]
      rfl

/-- A dump of an index prints its lines. -/
theorem dumpIndex_ok {height : Nat} {index : Index Int64 height} (nodes : index.Nodes (NodeIn book))
    (chained : Chained book chain 0) (below : ∀ page ∈ index.branches, page < binding.limit)
    (leaves : ∀ page ∈ index.leaves, page < binding.limit ∧ page ∈ Leaf.pages chain) {fuel : Nat}
    (enough : height < fuel) (depth : Nat) :
    (dumpTree fuel index.page depth).run binding.store book =
      (.ok (joinLines (indexLines chain depth index)), book) := by
  induction height generalizing fuel depth with
  | zero =>
      obtain ⟨fuel, rfl⟩ := Nat.exists_eq_succ_of_ne_zero (Nat.ne_of_gt enough)
      obtain ⟨inside, member⟩ := leaves index.page (List.mem_singleton.mpr rfl)
      exact dumpLeaf_ok chained member inside
  | succ height inductionHypothesis =>
      obtain ⟨page, row, rfl⟩ := index.exists_branch
      obtain ⟨fuel, rfl⟩ := Nat.exists_eq_succ_of_ne_zero (Nat.ne_of_gt (Nat.zero_lt_of_lt enough))
      obtain ⟨own, inner⟩ := Index.nodes_branch.mp nodes
      have node := at_of_nodeIn own
      have inside := below page List.mem_cons_self
      have children : ∀ child ∈ row.children,
          (dumpTree fuel child.page (depth + 1)).run binding.store book =
            (.ok (joinLines (indexLines chain (depth + 1) child)), book) := fun child member =>
        inductionHypothesis (inner child member)
          (fun other there => below other
            (List.mem_cons_of_mem _ (List.mem_flatMap.mpr ⟨child, member, there⟩)))
          (fun other there => leaves other (List.mem_flatMap.mpr ⟨child, member, there⟩))
          (Nat.lt_of_succ_lt_succ enough) (depth + 1)
      -- the children of the row are those before the separators and the last one
      have split := Row.pairs_children row.first row.entries
      have paged := Row.pairs_map Index.page row.first row.entries
      have before := @dumpEntries_ok book _ Index.page (indexLines chain (depth + 1))
        (fun child => dumpTree fuel child (depth + 1)) depth (Row.pairs row.first row.entries).1
        (fun entry member => ⟨indexLines_ne chain _ _, children entry.2 (by
          rw [show row.children = _ from split.symm]
          exact List.mem_append_left _ (List.mem_map_of_mem member))⟩)
      have last := children (Row.pairs row.first row.entries).2 (by
        rw [show row.children = _ from split.symm]
        exact List.mem_append_right _ (List.mem_singleton.mpr rfl))
      have keys := internalNumKeys_ok node
      have right := internalRightChild_ok node
      have entries := collectEntries_ok node
      rw [show Row.pairs (Index.pages row).first (Index.pages row).entries = _ from paged] at keys right entries
      rw [List.length_map, Row.pairs_length] at keys entries
      rw [Index.page_branch, dumpTree, Program.run_bind_ok (run_getPage inside)]
      dsimp only
      rw [if_neg node.notLeaf, if_pos node.kind, Program.run_lift_ok keys, Program.run_lift_ok right,
        Program.run_lift_ok entries]
      refine (Program.run_bind_ok (before _)).trans ((Program.run_bind_ok last).trans ?_)
      refine congrArg (fun out => (Except.ok out, book)) ?_
      change addLines _ _ ++ ("\n" ++ _) = addLines _ (_ ++ _)
      rw [addLines_append, addLines_joined _ (indexLines_ne chain _ _), ← String.append_assoc]
      rfl

/-- A dump of pages that hold a tree prints its lines. -/
theorem dumpTree_ok {floor : Nat} {tree : Tree} (held : Held floor book tree) :
    (dumpTree (maxPages + 1) tree.root 0).run binding.store book =
      (.ok (joinLines (treeLines tree)), book) :=
  dumpIndex_ok held.nodes held.chained held.branches
    (fun page member => ⟨(held.leaves page member).1, held.linked.reached.subset member⟩)
    (Nat.lt_succ_of_lt held.bounds.1) 0

end Dumps

end BTree

end MukhiDb.Model
