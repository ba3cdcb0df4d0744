import MukhiDb.Foundation.BPlusTree

/-!
Contract: B+trees whose leaves are in the order of the index.

Owns: arrangement, which says that the index lists the leaves of the chain in chain
order with non-decreasing separators; its preservation by an insertion that
promotes its separators to the slots the key took; leaves that start with their
separator; and distinct keys, under which every insertion does that.

Does not own: how pages are stored.
-/

namespace MukhiDb.Foundation

variable {κ α τ υ : Type}

/-! ### Leaves that start with their separator -/

namespace Leaf

/-- A separator is the first key of a leaf. -/
def StartsWith (leaf : Leaf κ α) (separator : κ) : Prop :=
  (leaf.cells.map Prod.fst).head? = some separator

/-- Every leaf but the first starts with the separator before it. -/
def Headed (entries : List (κ × Leaf κ α)) : Prop :=
  ∀ entry ∈ entries, entry.2.StartsWith entry.1

theorem headed_cons {entry : κ × Leaf κ α} {rest : List (κ × Leaf κ α)} :
    Headed (entry :: rest) ↔ entry.2.StartsWith entry.1 ∧ Headed rest :=
  List.forall_mem_cons

/-- The separators are among the keys of the leaves after them. -/
theorem Headed.sublist {entries : List (κ × Leaf κ α)} (headed : Headed entries) :
    (entries.map Prod.fst).Sublist ((rows (entries.map Prod.snd)).map Prod.fst) := by
  induction entries with
  | nil => exact List.Sublist.refl _
  | cons entry rest inductionHypothesis =>
      obtain ⟨own, later⟩ := headed_cons.mp headed
      have next := inductionHypothesis later
      unfold rows at next ⊢
      rw [List.map_cons, List.map_cons, List.flatMap_cons, List.map_append]
      obtain ⟨tail, cells⟩ := List.head?_eq_some_iff.mp own
      rw [cells]
      exact (next.trans (List.sublist_append_right _ _)).cons_cons entry.1

section Ordered

variable [LinearOrder κ]

theorem startsWith_placed {leaf other : Leaf κ α} {separator key : κ} {row : α}
    (starts : leaf.StartsWith separator) (below : separator < key)
    (cells : other.cells = place leaf.cells key row) : other.StartsWith separator := by
  unfold StartsWith at *
  rw [cells]
  cases found : leaf.cells with
  | nil =>
      rw [found] at starts
      simp at starts
  | cons cell rest =>
      rw [found] at starts
      have head : cell.1 = separator := by simpa using starts
      rw [place, if_pos (head ▸ below)]
      exact starts

/-- Placing a cell in the leaf at its slot keeps the first keys. -/
theorem headed_replace {first leaf : Leaf κ α} {entries : List (κ × Leaf κ α)} {key : κ} {row : α}
    (headed : Headed entries) (cells : leaf.cells = placed first entries key row) :
    Headed (replace first entries key leaf).entries ∧
      ∀ separator, separator < key → first.StartsWith separator →
        (replace first entries key leaf).first.StartsWith separator := by
  induction entries generalizing first with
  | nil =>
      exact ⟨headed, fun separator below starts => startsWith_placed starts below cells⟩
  | cons entry rest inductionHypothesis =>
      obtain ⟨own, later⟩ := headed_cons.mp headed
      rw [placed, pick] at cells
      rw [replace]
      split
      · next below =>
          rw [if_pos below] at cells
          obtain ⟨rest', first'⟩ := inductionHypothesis later cells
          exact ⟨headed_cons.mpr ⟨first' entry.1 below own, rest'⟩, fun _ _ starts => starts⟩
      · next above =>
          rw [if_neg above] at cells
          exact ⟨headed, fun separator below starts => startsWith_placed starts below cells⟩

/-- Splitting the leaf at the slot keeps the first keys. -/
theorem headed_replaceTwo {first leaf left right : Leaf κ α} {separator : κ}
    (split : Split leaf left separator right) (nonempty : left.cells ≠ [])
    {entries : List (κ × Leaf κ α)} {key : κ}
    (headed : Headed (replace first entries key leaf).entries) :
    Headed (replaceTwo first entries key left separator right).entries ∧
      ∀ other, (replace first entries key leaf).first.StartsWith other →
        (replaceTwo first entries key left separator right).first.StartsWith other := by
  have leftStarts : ∀ other, leaf.StartsWith other → left.StartsWith other := by
    intro other starts
    unfold StartsWith at *
    rw [split.keys] at starts
    cases cells : left.cells with
    | nil => exact absurd cells nonempty
    | cons cell rest =>
        rw [cells] at starts
        exact starts
  have rightStarts : right.StartsWith separator := by
    obtain ⟨row, rest, head⟩ := split.head
    unfold StartsWith
    rw [head]
    rfl
  induction entries generalizing first with
  | nil => exact ⟨headed_cons.mpr ⟨rightStarts, headed⟩, leftStarts⟩
  | cons entry rest inductionHypothesis =>
      rw [replace] at headed ⊢
      rw [replaceTwo]
      split at headed
      · next below =>
          rw [if_pos below, if_pos below]
          obtain ⟨own, later⟩ := headed_cons.mp headed
          obtain ⟨rest', first'⟩ := inductionHypothesis later
          exact ⟨headed_cons.mpr ⟨first' entry.1 own, rest'⟩, fun _ starts => starts⟩
      · next above =>
          rw [if_neg above, if_neg above]
          exact ⟨headed_cons.mpr ⟨rightStarts, headed⟩, leftStarts⟩

/-- Sorted distinct keys increase strictly, and so do separators taken from them. -/
theorem Headed.strict {first : Leaf κ α} {entries : List (κ × Leaf κ α)} (headed : Headed entries)
    (ordered : Ordered first entries)
    (distinct : ((rows (Row.mk first entries).children).map Prod.fst).Nodup) :
    (entries.map Prod.fst).Pairwise (· < ·) := by
  have sorted := List.Pairwise.sublist (rows_sublist_inorder first entries) ordered
  have strict : ((rows (Row.mk first entries).children).map Prod.fst).Pairwise (· < ·) :=
    (sorted.and distinct).imp fun both => lt_of_le_of_ne both.1 both.2
  refine List.Pairwise.sublist ?_ strict
  unfold rows Row.children
  rw [List.flatMap_cons, List.map_append]
  exact headed.sublist.trans (List.sublist_append_right _ _)

end Ordered

end Leaf

/-! ### Arranged trees -/

namespace BPlusTree

section Ordered

variable [LinearOrder κ]

/-- A row of leaves is the chain, its pages are the flat index, and its keys and
separators do not decrease. -/
structure Arranged (tree : BPlusTree κ α) (row : Row κ (Leaf κ α)) : Prop where
  chain : row.children = tree.chain
  flat : row.map Leaf.page = tree.index.flat
  ordered : Leaf.Ordered row.first row.entries

/-- If the insertion splits a leaf, every separator it promotes has the slot that the
key took on its way down. -/
def Aligned (layout : Layout κ α) (tree : BPlusTree κ α) (count : Nat) (key : κ) (row : α) :
    Prop :=
  layout.room (tree.target key) (key, row) = false →
    ∀ left separator first later,
      place (tree.target key) key row = left ++ (separator, first) :: later →
      left.length = layout.cut (place (tree.target key) key row) →
      tree.index.Aligned layout.most layout.limit key separator count (count + 1)

instance decidableAligned (layout : Layout κ α) (tree : BPlusTree κ α) (count : Nat) (key : κ)
    (row : α) : Decidable (Aligned layout tree count key row) :=
  match cell : (place (tree.target key) key row)[layout.cut (place (tree.target key) key row)]? with
  | some (separator, value) =>
      decidable_of_iff (layout.room (tree.target key) (key, row) = false →
          tree.index.Aligned layout.most layout.limit key separator count (count + 1))
        ⟨fun aligned full left other first later cells half => by
            rw [← half, cells, List.getElem?_append_right (Nat.le_refl _), Nat.sub_self] at cell
            obtain ⟨rfl, -⟩ := Prod.mk.inj (Option.some.inj cell)
            exact aligned full,
          fun aligned full => by
            obtain ⟨inside, found⟩ := List.getElem?_eq_some_iff.mp cell
            refine aligned full ((place (tree.target key) key row).take _) separator value
              ((place (tree.target key) key row).drop
                (layout.cut (place (tree.target key) key row) + 1)) ?_
              (List.length_take_of_le inside.le)
            rw [← found, List.getElem_cons_drop, List.take_append_drop]⟩
  | none => isTrue fun _ left separator first later cells half => by
      rw [← half, cells, List.getElem?_append_right (Nat.le_refl _), Nat.sub_self] at cell
      cases cell

theorem arranged_single (page : Nat) : Arranged (single page : BPlusTree κ α) ⟨⟨page, []⟩, []⟩ where
  chain := rfl
  flat := rfl
  ordered := List.Pairwise.nil

section Insert

variable {layout : Layout κ α} {floor : Nat} {tree : BPlusTree κ α} {count : Nat}
  {row : Row κ (Leaf κ α)}

theorem Arranged.sorted (arranged : Arranged tree row) : tree.index.flat.Sorted := by
  unfold Row.Sorted
  rw [← arranged.flat, Row.keys_map]
  exact List.Pairwise.sublist (Leaf.keys_sublist_inorder row.first row.entries) arranged.ordered

/-- Rows come in key order. -/
theorem Arranged.rows_sorted (arranged : Arranged tree row) :
    (tree.rows.map Prod.fst).Pairwise (· ≤ ·) := by
  unfold rows
  rw [← arranged.chain]
  exact List.Pairwise.sublist (Leaf.rows_sublist_inorder row.first row.entries) arranged.ordered

/-- A key is routed to the leaf at its slot. -/
theorem Arranged.route (arranged : Arranged tree row) (key : κ) :
    tree.index.route key = (row.at key).page := by
  rw [Index.route_eq_flat arranged.sorted, ← arranged.flat]
  exact pick_map Leaf.page row.first row.entries key

/-- The leaf at the slot of a key, and what takes its place. -/
theorem Arranged.slot (arranged : Arranged tree row) (linked : Linked layout floor tree count)
    (key : κ) :
    tree.target key = (row.at key).cells ∧
      (∀ leaf, tree.retarget key [leaf] = (replace row.first row.entries key leaf).children) ∧
      ∀ left separator right, tree.retarget key [left, right] =
        (replaceTwo row.first row.entries key left separator right).children := by
  obtain ⟨before, after, old, one, two⟩ := children_around row.first row.entries key
  have chain : tree.chain = before ++ row.at key :: after := by
    rw [← arranged.chain]
    exact old
  have distinct : (Leaf.pages tree.chain).Nodup := (List.nodup_append.mp linked.distinct).2.1
  have around := chain ▸ distinct
  have substituted : ∀ leaves, tree.retarget key leaves = before ++ leaves ++ after := by
    intro leaves
    rw [retarget, arranged.route, chain]
    exact Leaf.substitute_around around leaves
  refine ⟨?_, fun leaf => ?_, fun left separator right => ?_⟩
  · rw [target, arranged.route, chain]
    exact Leaf.cellsAt_around around
  · rw [substituted, one, List.append_assoc]
    rfl
  · rw [substituted, two, List.append_assoc]
    rfl

/-- The chain of a raised tree, and its flat index when nothing was cut off. -/
theorem raise_arranged {chain : List (Leaf κ α)} {height : Nat}
    {promoted : Index.Promoted κ height} {row : Row κ (Leaf κ α)}
    (complete : (raise layout chain promoted).complete = true) (children : row.children = chain)
    (flat : row.map Leaf.page = promoted.flat) (ordered : Leaf.Ordered row.first row.entries) :
    Arranged (raise layout chain promoted).tree row := by
  obtain ⟨index, promotion, count⟩ := promoted
  cases promotion with
  | done => exact ⟨children, flat, ordered⟩
  | full => exact absurd complete (by simp [raise])
  | up separator right =>
      by_cases room : count < layout.limit
      · have raised : raise layout chain ⟨index, .up separator right, count⟩ =
            ⟨⟨height + 1, Index.branch count ⟨index, [(separator, right)]⟩, chain⟩, count + 1,
              true⟩ := if_pos room
        rw [raised]
        exact ⟨children, flat, ordered⟩
      · have stopped : raise layout chain ⟨index, .up separator right, count⟩ =
            ⟨⟨height, index, chain⟩, count, false⟩ := if_neg room
        rw [stopped] at complete
        contradiction

/-- What an insertion does to the row of leaves: the leaf at the slot takes the cell,
or two leaves that share its cells take its place. -/
inductive RowStep (layout : Layout κ α) (row : Row κ (Leaf κ α)) (count : Nat) (key : κ)
    (value : α) : Row κ (Leaf κ α) → Prop where
  | filled : RowStep layout row count key value
      (replace row.first row.entries key ⟨(row.at key).page, place (row.at key).cells key value⟩)
  | split (left later : List (κ × α)) (separator : κ) (first : α)
      (noRoom : layout.room (row.at key).cells (key, value) = false)
      (cells : place (row.at key).cells key value = left ++ (separator, first) :: later)
      (half : left.length = layout.cut (place (row.at key).cells key value)) :
      RowStep layout row count key value
        (replaceTwo row.first row.entries key ⟨(row.at key).page, left⟩ separator
          ⟨count, (separator, first) :: later⟩)

/-- Insertion keeps keys and separators in order. -/
theorem RowStep.ordered {key : κ} {value : α} {next : Row κ (Leaf κ α)}
    (step : RowStep layout row count key value next) (ordered : Leaf.Ordered row.first row.entries) :
    Leaf.Ordered next.first next.entries := by
  have cells : (⟨(row.at key).page, place (row.at key).cells key value⟩ : Leaf κ α).cells =
      Leaf.placed row.first row.entries key value := rfl
  have placed := Leaf.ordered_replace ordered cells
  cases step with
  | filled => exact placed
  | split left later separator first noRoom cells half =>
      exact Leaf.ordered_replaceTwo (Leaf.Split.of_append cells) placed

/-- An aligned insertion that is complete keeps a tree arranged. -/
theorem insert_arranged (splits : layout.Splits) (linked : Linked layout floor tree count)
    (arranged : Arranged tree row) {key : κ} {value : α}
    (aligned : Aligned layout tree count key value)
    (complete : (insert layout tree count key value).complete = true) :
    ∃ next, RowStep layout row count key value next ∧
      Arranged (insert layout tree count key value).tree next := by
  obtain ⟨target, one, two⟩ := arranged.slot linked key
  have route := arranged.route key
  rcases insert_cases splits tree count key value with
    ⟨-, run⟩ | ⟨-, -, run⟩ | ⟨noRoom, -, left, separator, first, later, cells, half, run⟩
  · have step : RowStep layout row count key value _ := .filled
    refine ⟨_, step, ?_⟩
    rw [run]
    refine ⟨?_, ?_, step.ordered arranged.ordered⟩
    · rw [one, target, route]
    · rw [map_replace, ← arranged.flat]
      have same := pick_map Leaf.page row.first row.entries key
      change replace _ _ key (row.at key).page = _
      unfold Row.at
      rw [← same]
      exact replace_pick _ _ key
  · rw [run] at complete
    contradiction
  · rw [run] at complete ⊢
    have slots := aligned noRoom left separator first later cells half
    rw [target] at noRoom cells half
    have step : RowStep layout row count key value _ :=
      .split left later separator first noRoom cells half
    refine ⟨_, step, raise_arranged complete ?_ ?_ (step.ordered arranged.ordered)⟩
    · rw [two _ separator, route]
    · rw [Index.promote_flat arranged.sorted slots (notFull_of_complete complete), map_replaceTwo,
        ← arranged.flat]
      have same := pick_map Leaf.page row.first row.entries key
      unfold Row.insertAfter Row.at Row.map
      dsimp only
      rw [same]

/-! ### Distinct keys -/

theorem RowStep.rows_perm {key : κ} {value : α} {next : Row κ (Leaf κ α)}
    (step : RowStep layout row count key value next) :
    (Leaf.rows next.children).Perm ((key, value) :: Leaf.rows row.children) := by
  obtain ⟨before, after, old, one, two⟩ := children_around row.first row.entries key
  have around : row.children = before ++ ⟨(row.at key).page, (row.at key).cells⟩ :: after := old
  cases step with
  | filled =>
      rw [one, around, ← List.singleton_append, ← List.append_assoc]
      exact Leaf.rows_around (by simp [Leaf.rows])
  | split left later separator first noRoom cells half =>
      have shared : Leaf.rows [⟨(row.at key).page, left⟩, ⟨count, (separator, first) :: later⟩] =
          place (row.at key).cells key value := by
        simp [Leaf.rows, cells]
      have placed := @Leaf.rows_around κ α _ before after _ (row.at key).page _ key value shared
      rw [two, around]
      simpa using placed

/-- Insertion keeps the first keys when a split leaves a cell on the left. -/
theorem RowStep.headed {key : κ} {value : α} {next : Row κ (Leaf κ α)}
    (step : RowStep layout row count key value next)
    (some : layout.room (row.at key).cells (key, value) = false →
      0 < layout.cut (place (row.at key).cells key value))
    (headed : Leaf.Headed row.entries) : Leaf.Headed next.entries := by
  have cells : (⟨(row.at key).page, place (row.at key).cells key value⟩ : Leaf κ α).cells =
      Leaf.placed row.first row.entries key value := rfl
  obtain ⟨placed, -⟩ := Leaf.headed_replace headed cells
  cases step with
  | filled => exact placed
  | split left later separator first noRoom cells half =>
      have nonempty : left ≠ [] := by
        rintro rfl
        have positive := some noRoom
        rw [← half] at positive
        exact absurd positive (Nat.lt_irrefl 0)
      exact (Leaf.headed_replaceTwo (Leaf.Split.of_append cells) nonempty placed).1

/-- With distinct keys, an insertion promotes its separators to the slots the key took. -/
theorem aligned_of_distinct (linked : Linked layout floor tree count)
    (arranged : Arranged tree row) {key : κ} {value : α} (headed : Leaf.Headed row.entries)
    (some : layout.room (row.at key).cells (key, value) = false →
      0 < layout.cut (place (row.at key).cells key value))
    (distinct : (key :: tree.rows.map Prod.fst).Nodup) : Aligned layout tree count key value := by
  intro noRoom left separator first later cells half
  rw [(arranged.slot linked key).1] at noRoom cells half
  have step : RowStep layout row count key value _ :=
    .split left later separator first noRoom cells half
  have keys := (step.rows_perm.map Prod.fst).nodup_iff.mpr (by
    rw [arranged.chain]
    exact distinct)
  have strict := (step.headed some headed).strict (step.ordered arranged.ordered) keys
  apply Index.aligned_of_strict arranged.sorted
  have flat := map_replaceTwo Leaf.page row.first row.entries key ⟨(row.at key).page, left⟩ separator
    ⟨count, (separator, first) :: later⟩
  have same := pick_map Leaf.page row.first row.entries key
  rw [← arranged.flat]
  unfold Row.insertAfter Row.at Row.map
  dsimp only
  rw [same]
  change (replaceTwo _ _ key (row.at key).page separator count).keys.Pairwise (· < ·)
  rw [← flat, Row.keys_map]
  exact strict

/-! ### Runs of insertions -/

/-- Every insertion of a run is aligned. -/
def AlignedRun (layout : Layout κ α) : Grown κ α → (cells : List (κ × α)) → Prop
  | _, [] => True
  | grown, (key, value) :: rest =>
      Aligned layout grown.tree grown.count key value ∧
        AlignedRun layout (BPlusTree.insert layout grown.tree grown.count key value) rest

instance decidableAlignedRun (layout : Layout κ α) :
    (grown : Grown κ α) → (cells : List (κ × α)) → Decidable (AlignedRun layout grown cells)
  | _, [] => isTrue trivial
  | grown, (key, value) :: rest =>
      have := decidableAlignedRun layout
        (BPlusTree.insert layout grown.tree grown.count key value) rest
      inferInstanceAs (Decidable (_ ∧ _))

/-- A complete run of aligned insertions keeps a tree arranged. -/
theorem insertAll_arranged (splits : layout.Splits) {grown : Grown κ α} {cells : List (κ × α)}
    (linked : Linked layout floor grown.tree grown.count) (arranged : Arranged grown.tree row)
    (aligned : AlignedRun layout grown cells)
    (complete : (insertAll layout grown cells).complete = true) :
    ∃ next, Arranged (insertAll layout grown cells).tree next := by
  induction cells generalizing grown row with
  | nil => exact ⟨row, arranged⟩
  | cons cell rest inductionHypothesis =>
      obtain ⟨key, value⟩ := cell
      obtain ⟨now, later⟩ := aligned
      have run := insertAll_cons complete
      rw [run] at complete ⊢
      obtain ⟨next, -, kept⟩ :=
        insert_arranged splits linked arranged now (insertAll_complete complete)
      exact inductionHypothesis (insert_linked splits linked key value) kept later complete

/-- A complete run of insertions with distinct keys keeps a tree arranged, and every leaf
but the first starts with its separator. -/
theorem insertAll_distinct (splits : layout.Splits) {grown : Grown κ α} {cells : List (κ × α)}
    (some : ∀ cell ∈ cells, ∀ held, layout.room held cell = false →
      0 < layout.cut (place held cell.1 cell.2))
    (linked : Linked layout floor grown.tree grown.count) (arranged : Arranged grown.tree row)
    (headed : Leaf.Headed row.entries)
    (distinct : ((cells ++ grown.tree.rows).map Prod.fst).Nodup)
    (complete : (insertAll layout grown cells).complete = true) :
    ∃ next, Arranged (insertAll layout grown cells).tree next ∧ Leaf.Headed next.entries := by
  induction cells generalizing grown row with
  | nil => exact ⟨row, arranged, headed⟩
  | cons cell rest inductionHypothesis =>
      obtain ⟨key, value⟩ := cell
      have cuts := some (key, value) List.mem_cons_self (row.at key).cells
      have keys : (key :: (rest ++ grown.tree.rows).map Prod.fst).Nodup := distinct
      have fewer : (key :: grown.tree.rows.map Prod.fst).Nodup := by
        rw [List.map_append] at keys
        exact keys.sublist ((List.sublist_append_right _ _).cons_cons key)
      have now := aligned_of_distinct linked arranged headed cuts fewer
      have run := insertAll_cons complete
      rw [run] at complete ⊢
      have finished := insertAll_complete complete
      obtain ⟨next, step, kept⟩ := insert_arranged splits linked arranged now finished
      have added : (BPlusTree.insert layout grown.tree grown.count key value).tree.rows.Perm
          ((key, value) :: grown.tree.rows) := by
        rcases insert_rows splits linked key value with added | stopped
        · exact added
        · rw [stopped] at finished
          contradiction
      apply inductionHypothesis (fun other member => some other (List.mem_cons_of_mem _ member))
        (insert_linked splits linked key value) kept (step.headed cuts headed) _ complete
      have moved := ((added.append_left rest).trans List.perm_middle).map Prod.fst
      exact moved.nodup_iff.mpr keys

end Insert

end Ordered

end BPlusTree

end MukhiDb.Foundation
