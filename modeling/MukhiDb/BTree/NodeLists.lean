import MukhiDb.BTree.Insertion

/-!
Contract: an internal node as a list of keys and a list of children one longer.

Owns: the two lists of an internal page; where a key and the child behind it are
placed in them; and that the insertion into a node with room and the split of a full
node place them alike.

Does not own: the tree that the children are roots of.
-/

namespace MukhiDb.Model

open MukhiDb.Foundation

namespace BTree

/-- An internal page with its keys and its children. The last child has a field of its own. -/
structure ListsAt (page : Page) (keys : List Int64) (children : List Nat) : Prop where
  kind : page.byte 0 = nodeTypeInternal
  numKeys : page.number internalNumKeysOffset 4 = keys.length
  fits : keys.length ≤ internalMaxKeys
  longer : children.length = keys.length + 1
  key : ∀ index key, keys[index]? = some key → page.key (internalEntryOffset index + 4) = key
  child : ∀ index child, index < keys.length → children[index]? = some child →
    page.number (internalEntryOffset index) 4 = child
  last : children.getLast? = some (page.number rightChildOffset 4)

/-- Put a key before the first one that is not below it, and a child right behind the child at
that position. -/
def placeLists (keys : List Int64) (children : List Nat) (key : Int64) (child : Nat) :
    List Int64 × List Nat :=
  let position := (keys.takeWhile (· < key)).length
  (keys.insertIdx position key, children.insertIdx (position + 1) child)

/-! ### Rows and their lists -/

section Rows

theorem pairs_zip {κ τ : Type} (first : τ) (entries : List (κ × τ)) :
    (Row.pairs first entries).1 = (entries.map Prod.fst).zip (first :: entries.map Prod.snd) := by
  induction entries generalizing first with
  | nil => rfl
  | cons entry rest inductionHypothesis => simp [Row.pairs, inductionHypothesis]

theorem pairs_last {κ τ : Type} (first : τ) (entries : List (κ × τ)) :
    (first :: entries.map Prod.snd).getLast? = some (Row.pairs first entries).2 := by
  have children := Row.pairs_children first entries
  rw [Row.children_mk] at children
  rw [← children, List.getLast?_concat]

/-- A page holds a row exactly if it holds its keys and its children. -/
theorem nodeAt_iff (page : Page) (row : Foundation.Row Int64 Nat) :
    NodeAt page row ↔ ListsAt page row.keys row.children := by
  have entries : (Row.pairs row.first row.entries).1 = row.keys.zip row.children :=
    pairs_zip row.first row.entries
  have last := pairs_last row.first row.entries
  have size : row.keys.length = row.entries.length := List.length_map _
  have longer : row.children.length = row.keys.length + 1 := by
    rw [size]
    exact congrArg (· + 1) (List.length_map _)
  constructor
  · intro node
    have held (index : Nat) (key : Int64) (child : Nat) (keyFound : row.keys[index]? = some key)
        (childFound : row.children[index]? = some child) : EntryAt page index (key, child) :=
      node.entry index (key, child) (entries ▸ List.getElem?_zip_eq_some.mpr ⟨keyFound, childFound⟩)
    have count := node.numKeys
    have fits := node.fits
    rw [Row.pairs_length, ← size] at count fits
    refine ⟨node.kind, count, fits, longer, ?_, ?_, last.trans (congrArg some node.rightChild.symm)⟩
    · intro index key keyFound
      have inside := (List.getElem?_eq_some_iff.mp keyFound).1
      exact (held index key _ keyFound (List.getElem?_eq_getElem (by omega))).key
    · intro index child inside childFound
      exact (held index _ child (List.getElem?_eq_getElem inside) childFound).child
  · intro lists
    refine ⟨lists.kind, ?_, Option.some.inj (lists.last.symm.trans last), ?_, ?_⟩
    · rw [Row.pairs_length, ← size]
      exact lists.numKeys
    · rw [Row.pairs_length, ← size]
      exact lists.fits
    · intro index entry found
      rw [entries] at found
      obtain ⟨keyFound, childFound⟩ := List.getElem?_zip_eq_some.mp found
      have inside := (List.getElem?_eq_some_iff.mp keyFound).1
      exact ⟨lists.child index entry.2 inside childFound, lists.key index entry.1 keyFound⟩

/-- Lists of which the second is one longer are those of a row. -/
theorem exists_row {keys : List Int64} {children : List Nat}
    (longer : children.length = keys.length + 1) :
    ∃ row : Foundation.Row Int64 Nat, row.keys = keys ∧ row.children = children := by
  cases children with
  | nil => cases longer
  | cons first rest =>
      have same : keys.length = rest.length := (Nat.succ.inj longer).symm
      refine ⟨⟨first, keys.zip rest⟩, ?_, ?_⟩
      · rw [Row.keys_mk, List.map_fst_zip (Nat.le_of_eq same)]
      · rw [Row.children_mk, List.map_snd_zip (Nat.le_of_eq same.symm)]

theorem place_keys (entries : List (Int64 × Nat)) (key : Int64) (child : Nat) :
    (place entries key child).map Prod.fst = (entries.map Prod.fst).insertIdx
      ((entries.map Prod.fst).takeWhile (· < key)).length key := by
  induction entries with
  | nil => rfl
  | cons entry rest inductionHypothesis =>
      by_cases below : entry.1 < key
      · simp [place, below, inductionHypothesis]
      · simp [place, below]

theorem place_values (entries : List (Int64 × Nat)) (key : Int64) (child : Nat) :
    (place entries key child).map Prod.snd = (entries.map Prod.snd).insertIdx
      ((entries.map Prod.fst).takeWhile (· < key)).length child := by
  induction entries with
  | nil => rfl
  | cons entry rest inductionHypothesis =>
      by_cases below : entry.1 < key
      · simp [place, below, inductionHypothesis]
      · simp [place, below]

/-- Placing an entry in a row places its key and its child in the lists. -/
theorem placeLists_row (row : Foundation.Row Int64 Nat) (key : Int64) (child : Nat) :
    placeLists row.keys row.children key child =
      ((Foundation.Row.mk row.first (place row.entries key child)).keys,
        (Foundation.Row.mk row.first (place row.entries key child)).children) := by
  have keys := place_keys row.entries key child
  have values := place_values row.entries key child
  exact Prod.ext keys.symm (congrArg (row.first :: ·) values.symm)

end Rows

/-! ### Insertion and split -/

section Nodes

variable {book : List Page} {page : Nat} {contents : Page} {keys : List Int64} {children : List Nat}

/-- An insertion into a node with room places the key and the child. -/
theorem insertIntoInternal_lists (small : book.length ≤ maxPages)
    (found : book[page]? = some contents) (lists : ListsAt contents keys children)
    (room : keys.length < internalMaxKeys) (key : Int64) {right : Nat} (smallChild : right < 2 ^ 32) :
    ∃ after, (insertIntoInternal page key right).run binding.store book =
        (.ok (), book.set page after) ∧
      ListsAt after (placeLists keys children key right).1 (placeLists keys children key right).2 := by
  obtain ⟨row, rfl, rfl⟩ := exists_row lists.longer
  have node : NodeIn book page row := ⟨contents, found, (nodeAt_iff contents row).mpr lists⟩
  obtain ⟨after, run, held⟩ := insertIntoInternal_ok small node
    (by rw [← List.length_map Prod.fst]; exact room) key smallChild
  refine ⟨after, run, ?_⟩
  rw [placeLists_row]
  exact (nodeAt_iff _ _).mp held

/-- The split of a full node divides the lists with the key and the child placed in them at the
median, which is the key in the middle. -/
theorem splitInternal_lists (small : book.length ≤ maxPages)
    (found : book[page]? = some contents) (lists : ListsAt contents keys children)
    (full : keys.length = internalMaxKeys) (key : Int64) {right : Nat} (smallChild : right < 2 ^ 32) :
    ∃ median leftKeys leftChildren rightKeys rightChildren left other,
      placeLists keys children key right =
        (leftKeys ++ median :: rightKeys, leftChildren ++ rightChildren) ∧
      0 < leftKeys.length ∧ 0 < rightKeys.length ∧
      ListsAt left leftKeys leftChildren ∧ ListsAt other rightKeys rightChildren ∧
      (splitInternal page key right).run binding.store book =
        if book.length < maxPages then
          (.ok (median, book.length), book.set page left ++ [other])
        else (.error (.error (Pager.pageLimitMessage book.length)), book.set page left) := by
  obtain ⟨row, rfl, rfl⟩ := exists_row lists.longer
  have node : NodeIn book page row := ⟨contents, found, (nodeAt_iff contents row).mpr lists⟩
  have size : row.keys.length = row.entries.length := List.length_map _
  have sizes := sizes
  have count := place_length row.entries key right
  -- the entry in the middle is the one that moves up
  have middle : (internalMaxKeys + 1) / 2 < (place row.entries key right).length := by omega
  have split : place row.entries key right =
      (place row.entries key right).take ((internalMaxKeys + 1) / 2) ++
        (place row.entries key right)[(internalMaxKeys + 1) / 2] ::
          (place row.entries key right).drop ((internalMaxKeys + 1) / 2 + 1) := by
    rw [← List.drop_eq_getElem_cons middle, List.take_append_drop]
  have half : ((place row.entries key right).take ((internalMaxKeys + 1) / 2)).length =
      (internalMaxKeys + 1) / 2 := List.length_take_of_le (Nat.le_of_lt middle)
  generalize (place row.entries key right).take ((internalMaxKeys + 1) / 2) = before at split half
  generalize (place row.entries key right)[(internalMaxKeys + 1) / 2] = median at split
  generalize (place row.entries key right).drop ((internalMaxKeys + 1) / 2 + 1) = later at split
  have parts := congrArg List.length split
  rw [count, List.length_append, List.length_cons] at parts
  obtain ⟨left, other, leftNode, otherNode, run⟩ := splitInternal_ok small node
    (by rw [← size]; exact full) smallChild split half
  refine ⟨median.1, before.map Prod.fst, row.first :: before.map Prod.snd, later.map Prod.fst,
    median.2 :: later.map Prod.snd, left, other, ?_, ?_, ?_, (nodeAt_iff left _).mp leftNode,
    (nodeAt_iff other _).mp otherNode, run⟩
  · rw [placeLists_row, split]
    simp
  · rw [List.length_map]
    omega
  · rw [List.length_map]
    omega

/-- An internal node takes in a key and the child behind it in one way: with room, its lists become
those with the two placed in them; when it is full, the lists of the two halves, joined around the
median, are those. Both halves have keys, and no more than a node can hold. Without a page for the
right half the split reports the page limit. -/
theorem internal_placing (small : book.length ≤ maxPages) (found : book[page]? = some contents)
    (lists : ListsAt contents keys children) (key : Int64) {right : Nat} (smallChild : right < 2 ^ 32) :
    (keys.length < internalMaxKeys →
      ∃ after, (insertIntoInternal page key right).run binding.store book =
          (.ok (), book.set page after) ∧
        ListsAt after (placeLists keys children key right).1 (placeLists keys children key right).2) ∧
    (keys.length = internalMaxKeys →
      ∃ median leftKeys leftChildren rightKeys rightChildren left other,
        placeLists keys children key right =
          (leftKeys ++ median :: rightKeys, leftChildren ++ rightChildren) ∧
        (0 < leftKeys.length ∧ leftKeys.length ≤ internalMaxKeys) ∧
        (0 < rightKeys.length ∧ rightKeys.length ≤ internalMaxKeys) ∧
        ListsAt left leftKeys leftChildren ∧ ListsAt other rightKeys rightChildren ∧
        (splitInternal page key right).run binding.store book =
          if book.length < maxPages then
            (.ok (median, book.length), book.set page left ++ [other])
          else (.error (.error (Pager.pageLimitMessage book.length)), book.set page left)) := by
  constructor
  · exact fun room => insertIntoInternal_lists small found lists room key smallChild
  · intro full
    obtain ⟨median, leftKeys, leftChildren, rightKeys, rightChildren, left, other, placed, leftSome,
      rightSome, leftLists, rightLists, run⟩ :=
      splitInternal_lists small found lists full key smallChild
    exact ⟨median, leftKeys, leftChildren, rightKeys, rightChildren, left, other, placed,
      ⟨leftSome, leftLists.fits⟩, ⟨rightSome, rightLists.fits⟩, leftLists, rightLists, run⟩

/-- The entries of a full node: the even keys, over the pages from 2 on. -/
def evenEntries : List (Int64 × Nat) :=
  (List.range internalMaxKeys).map fun index => (Int64.ofNat (2 * index), index + 2)

theorem evenEntries_length : evenEntries.length = internalMaxKeys := by
  simp [evenEntries]

/-- There is a page with these entries, over page 1. -/
theorem exists_evenNode : ∃ node, NodeAt node ⟨1, evenEntries⟩ := by
  have small : ∀ child ∈ (Foundation.Row.mk 1 evenEntries).children, child < 2 ^ 32 := by
    refine List.forall_mem_cons.mpr ⟨by decide, fun child member => ?_⟩
    obtain ⟨entry, inside, rfl⟩ := List.mem_map.mp member
    obtain ⟨index, below, rfl⟩ := List.mem_map.mp inside
    have below := List.mem_range.mp below
    have sizes : internalMaxKeys = 340 := by decide
    change index + 2 < 2 ^ 32
    omega
  have children := Foundation.Row.pairs_children 1 evenEntries
  obtain ⟨node, -, held⟩ := @writeInternal_ok (Foundation.Row.pairs 1 evenEntries).1
    (Foundation.Row.pairs 1 evenEntries).2
    (by rw [Foundation.Row.pairs_length, evenEntries_length])
    (fun entry member => small entry.2 (children ▸ List.mem_append_left _ (List.mem_map_of_mem member)))
    (small _ (children ▸ List.mem_append_right _ (List.mem_singleton_self _))) Page.zero
  exact ⟨node, held⟩

/-- The root over two children takes in a third one, and a full node takes in an odd key: its two
halves have keys, and the book has room for both. -/
theorem internal_placing_both :
    (∃ root after, writeRoot 1 5 2 Page.zero = .ok root ∧
      (insertIntoInternal 0 7 3).run binding.store [root] = (.ok (), [after]) ∧
      ListsAt after [5, 7] [1, 2, 3]) ∧
    ∃ node median leftKeys leftChildren rightKeys rightChildren left other,
      ListsAt node (Foundation.Row.mk 1 evenEntries).keys (Foundation.Row.mk 1 evenEntries).children ∧
      placeLists (Foundation.Row.mk 1 evenEntries).keys (Foundation.Row.mk 1 evenEntries).children
          101 400 = (leftKeys ++ median :: rightKeys, leftChildren ++ rightChildren) ∧
      (0 < leftKeys.length ∧ 0 < rightKeys.length) ∧
      ListsAt left leftKeys leftChildren ∧ ListsAt other rightKeys rightChildren ∧
      (splitInternal 0 101 400).run binding.store [node] = (.ok (median, 1), [left, other]) := by
  constructor
  · obtain ⟨root, written, node⟩ := @writeRoot_ok 1 2 (by decide) (by decide) 5 Page.zero
    have lists := (nodeAt_iff root _).mp node
    obtain ⟨after, run, placed⟩ := (@internal_placing [root] 0 root [5] [1, 2] (by simp; decide) rfl
      lists 7 3 (by decide)).1 (by decide)
    exact ⟨root, after, written, run, placed⟩
  · obtain ⟨node, held⟩ := exists_evenNode
    have lists := (nodeAt_iff node _).mp held
    obtain ⟨median, leftKeys, leftChildren, rightKeys, rightChildren, left, other, placed, leftSome,
      rightSome, leftLists, rightLists, run⟩ :=
      (@internal_placing [node] 0 node _ _ (by simp; decide) rfl lists 101 400 (by decide)).2
        ((List.length_map _).trans evenEntries_length)
    exact ⟨node, median, leftKeys, leftChildren, rightKeys, rightChildren, left, other, lists, placed,
      ⟨leftSome.1, rightSome.1⟩, leftLists, rightLists, run⟩

end Nodes

end BTree

end MukhiDb.Model
