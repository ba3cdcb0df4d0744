import MukhiDb.BTree.LeafPage

/-!
Contract: the internal page and the row of children it holds.

Owns: the relation between an internal page and its entries, each a key with the
child before it, and its last child; reading it; taking one more child in; writing
a whole node; and the agreement of the entry arithmetic of the source with placing
a child in a row.

Does not own: which child a key belongs to.
-/

namespace MukhiDb.Model

open MukhiDb.Foundation

namespace BTree

theorem internalEntryOffset_eq (idx : Nat) : internalEntryOffset idx = 9 + idx * 12 := rfl

/-- Entry `index` holds a key and the child before it. -/
structure EntryAt (page : Page) (index : Nat) (entry : Int64 × Nat) : Prop where
  child : page.number (internalEntryOffset index) 4 = entry.2
  key : page.key (internalEntryOffset index + 4) = entry.1

/-- An internal page with its entries and its last child. -/
structure InternalAt (page : Page) (entries : List (Int64 × Nat)) (last : Nat) : Prop where
  kind : page.byte 0 = nodeTypeInternal
  numKeys : page.number internalNumKeysOffset 4 = entries.length
  rightChild : page.number rightChildOffset 4 = last
  fits : entries.length ≤ internalMaxKeys
  entry : ∀ index entry, entries[index]? = some entry → EntryAt page index entry

/-- An internal page that holds a row of children. -/
def NodeAt (page : Page) (row : Foundation.Row Int64 Nat) : Prop :=
  InternalAt page (Row.pairs row.first row.entries).1 (Row.pairs row.first row.entries).2

/-- An entry stays when its bytes are copied. -/
theorem EntryAt.move {page after : Page} {index other : Nat} {entry : Int64 × Nat}
    (held : EntryAt page index entry)
    (same : after.part (internalEntryOffset other) 12 = page.part (internalEntryOffset index) 12) :
    EntryAt after other entry := by
  have low : ∀ (page : Page) offset, page.number offset 4 =
      leValue (slice (page.part offset 12) 0 4) := by
    intro page offset
    unfold Page.part
    rw [slice_slice (by omega)]
    rfl
  have high : ∀ (page : Page) offset, page.key (offset + 4) =
      i64Value (slice (page.part offset 12) 4 8) := by
    intro page offset
    unfold Page.part
    rw [slice_slice (by omega)]
    rfl
  refine ⟨?_, ?_⟩
  · rw [low, same, ← low]
    exact held.child
  · rw [high, same, ← high]
    exact held.key

/-! ### Reading an internal node -/

section Reading

variable {page : Page} {entries : List (Int64 × Nat)} {last : Nat}

theorem InternalAt.entryInside (node : InternalAt page entries last) {index : Nat}
    (inside : index < entries.length) : internalEntryOffset index + 12 ≤ pageSize := by
  have fits := node.fits
  have := sizes
  rw [internalEntryOffset_eq]
  omega

theorem InternalAt.notLeaf (node : InternalAt page entries last) : page.byte 0 ≠ nodeTypeLeaf := by
  rw [node.kind]
  decide

theorem internalNumKeys_ok (node : InternalAt page entries last) :
    internalNumKeys page = .ok entries.length := by
  unfold internalNumKeys
  rw [readU32_ok (by decide), node.numKeys]

theorem internalRightChild_ok (node : InternalAt page entries last) :
    internalRightChild page = .ok last := by
  unfold internalRightChild
  rw [readU32_ok (by decide), node.rightChild]

theorem internalChild_ok {index : Nat} {entry : Int64 × Nat} (held : EntryAt page index entry)
    (fits : internalEntryOffset index + 12 ≤ pageSize) : internalChild page index = .ok entry.2 := by
  unfold internalChild
  rw [readU32_ok (by omega), held.child]

theorem internalKey_ok {index : Nat} {entry : Int64 × Nat} (held : EntryAt page index entry)
    (fits : internalEntryOffset index + 12 ≤ pageSize) : internalKey page index = .ok entry.1 := by
  unfold internalKey
  rw [readI64_ok (by omega), held.key]

theorem searchInternal_ok (node : InternalAt page entries last) (key : Int64) :
    searchFrom (internalKey page) key entries.length 0 = .ok (slot entries key) := by
  have searched := @searchFrom_ok _ (internalKey page) key entries 0 fun i inside => by
    rw [Nat.zero_add, internalKey_ok (node.entry i _ (List.getElem?_eq_getElem inside)) (node.entryInside inside)]
  rwa [Nat.zero_add] at searched

/-- The child at a slot, the last one past the entries. -/
theorem childAt_ok (node : InternalAt page entries last) (index : Nat) :
    childAt page entries.length index = .ok ((entries[index]?.map Prod.snd).getD last) := by
  unfold childAt
  split
  · next inside =>
      rw [internalChild_ok (node.entry index _ (List.getElem?_eq_getElem inside)) (node.entryInside inside),
        List.getElem?_eq_getElem inside]
      rfl
  · next outside =>
      rw [internalRightChild_ok node, List.getElem?_eq_none (Nat.le_of_not_lt outside)]
      rfl

theorem collectEntries_ok (node : InternalAt page entries last) :
    collectFrom (fun i => do
      let child ← internalChild page i
      pure (← internalKey page i, child)) entries.length 0 = .ok entries := by
  refine collectFrom_ok fun i inside => ?_
  rw [Nat.zero_add, internalChild_ok (node.entry i _ (List.getElem?_eq_getElem inside)) (node.entryInside inside), ok_bind,
    internalKey_ok (node.entry i _ (List.getElem?_eq_getElem inside)) (node.entryInside inside)]
  rfl

end Reading

/-! ### Writing entries -/

/-- The page after entry `index` was written. -/
def putEntry (page : Page) (index : Nat) (entry : Int64 × Nat) : Page :=
  (page.put (internalEntryOffset index) (leBytes 4 entry.2)).put (internalEntryOffset index + 4)
    (i64Bytes entry.1)

section Entries

variable {page : Page} {index : Nat} {entry : Int64 × Nat}

theorem internalSetEntry_eq (fits : internalEntryOffset index + 12 ≤ pageSize) :
    internalSetEntry page index entry.2 entry.1 = .ok (putEntry page index entry) := by
  unfold internalSetEntry
  dsimp only
  rw [writeU32_eq _ (by omega), ok_bind, writeI64_eq _ (by omega)]
  rfl

theorem putEntry_apart {other width : Nat}
    (apart : other + width ≤ internalEntryOffset index ∨ internalEntryOffset index + 12 ≤ other) :
    (putEntry page index entry).part other width = page.part other width := by
  unfold putEntry
  rw [Page.part_put_apart (by rw [i64Bytes_length]; omega),
    Page.part_put_apart (by rw [leBytes_length]; omega)]

theorem putEntry_held (fits : internalEntryOffset index + 12 ≤ pageSize)
    (small : entry.2 < 2 ^ 32) : EntryAt (putEntry page index entry) index entry := by
  unfold putEntry
  refine ⟨?_, ?_⟩
  · rw [Page.number_eq, Page.part_put_apart (Or.inl (Nat.le_refl _)), ← Page.number_eq,
      number_put_same (by omega) (by omega)]
  · rw [key_put_same (by omega)]

theorem EntryAt.putEntry {other : Nat} {old : Int64 × Nat} (held : EntryAt page other old)
    (different : other ≠ index) : EntryAt (putEntry page index entry) other old := by
  have here := internalEntryOffset_eq index
  have there := internalEntryOffset_eq other
  exact held.move (putEntry_apart (by omega))

/-- A child number that was read fits its four bytes. -/
theorem EntryAt.small (held : EntryAt page index entry) : entry.2 < 2 ^ 32 := by
  have bound := leValue_lt (page.part (internalEntryOffset index) 4)
  have length : (page.part (internalEntryOffset index) 4).length ≤ 4 := by
    unfold Page.part slice
    rw [List.length_take]
    omega
  rw [← held.child, Page.number_eq]
  exact Nat.lt_of_lt_of_le bound (Nat.pow_le_pow_right (by omega) length)

/-- Shifting an entry copies it to the place above. -/
theorem entry_copies (fits : internalEntryOffset (index + 1) + 12 ≤ pageSize) :
    CopiesUp (fun i page => do
      let k ← internalKey page i
      let c ← internalChild page i
      internalSetEntry page (i + 1) c k) internalHeaderSize internalEntrySize index := by
  intro page
  have here := internalEntryOffset_eq index
  have above := internalEntryOffset_eq (index + 1)
  have held : EntryAt page index
      (page.key (internalEntryOffset index + 4), page.number (internalEntryOffset index) 4) :=
    ⟨rfl, rfl⟩
  have size : (page.part (internalEntryOffset index) 4).length = 4 := Page.part_length (by omega)
  have keySize : (page.part (internalEntryOffset index + 4) 8).length = 8 :=
    Page.part_length (by omega)
  refine ⟨putEntry page (index + 1)
    (page.key (internalEntryOffset index + 4), page.number (internalEntryOffset index) 4),
    ?_, ?_, fun other width apart => ?_⟩
  · dsimp only
    rw [internalKey_ok held (by omega), ok_bind, internalChild_ok held (by omega), ok_bind]
    exact internalSetEntry_eq fits
  · change (putEntry _ _ _).part (internalEntryOffset (index + 1)) (4 + 8) =
      page.part (internalEntryOffset index) (4 + 8)
    rw [Page.part_add 4 8 (by omega), Page.part_add 4 8 (by omega)]
    unfold putEntry
    rw [Page.part_put_apart (Or.inl (Nat.le_refl _)),
      Page.part_put_same (by rw [leBytes_length]; omega) (leBytes_length 4 _).symm,
      Page.part_put_same (by rw [i64Bytes_length]; omega) (i64Bytes_length _).symm]
    have number := leBytes_leValue (page.part (internalEntryOffset index) 4)
    have key := i64Bytes_i64Value keySize
    rw [size] at number
    rw [Page.number_eq, Page.key_eq, number, key]
  · refine putEntry_apart ?_
    have start : internalHeaderSize + (index + 1) * internalEntrySize =
      internalEntryOffset (index + 1) := rfl
    have stop : internalHeaderSize + (index + 2) * internalEntrySize =
        internalEntryOffset (index + 1) + 12 := by
      change 9 + (index + 2) * 12 = _
      omega
    omega

end Entries

/-! ### Taking one more child in -/

/-- The entry arithmetic of the source is placing a child in a row. -/
theorem combineEntries_eq (first : Nat) (entries : List (Int64 × Nat)) (key : Int64)
    (right : Nat) :
    combineEntries (Row.pairs first entries).1 (Row.pairs first entries).2 key right =
      Row.pairs first (place entries key right) := by
  induction entries generalizing first with
  | nil => rfl
  | cons entry rest inductionHypothesis =>
      have next := inductionHypothesis entry.2
      rw [place, Row.pairs]
      unfold combineEntries at next ⊢
      dsimp only at next ⊢
      rw [slot]
      by_cases below : entry.1 < key
      · rw [if_pos below, if_pos below, Row.pairs, ← next]
        simp [List.insertIdx_succ_cons]
      · rw [if_neg below, if_neg below]
        simp [Row.pairs]

/-- The new entry takes over the child at the slot, and the next one, or the last child,
gets the new child. -/
theorem combineEntries_mk (entries : List (Int64 × Nat)) (last : Nat) (key : Int64) (right : Nat) :
    combineEntries entries last key right =
      ((entries.insertIdx (slot entries key)
        (key, (entries[slot entries key]?.map Prod.snd).getD last)).modify
          (slot entries key + 1) fun entry => (entry.1, right),
        if slot entries key = entries.length then right else last) := by
  have child : (if inside : slot entries key < entries.length then
      (entries.get ⟨slot entries key, inside⟩).2 else last) =
      (entries[slot entries key]?.map Prod.snd).getD last := by
    by_cases more : slot entries key < entries.length
    · rw [dif_pos more, List.getElem?_eq_getElem more]
      rfl
    · rw [dif_neg more, List.getElem?_eq_none (Nat.le_of_not_lt more)]
      rfl
  unfold combineEntries
  dsimp only
  rw [child, List.length_insertIdx_of_le_length (slot_le entries key)]
  simp only [Nat.add_right_cancel_iff]

theorem combineEntries_length (entries : List (Int64 × Nat)) (last : Nat) (key : Int64)
    (right : Nat) : (combineEntries entries last key right).1.length = entries.length + 1 := by
  rw [combineEntries_mk, List.length_modify,
    List.length_insertIdx_of_le_length (slot_le entries key)]

/-- The entries of a node after a place for a new one was made. -/
theorem shiftEntries_ok {count start : Nat}
    (fits : internalEntryOffset (start + count) + 12 ≤ pageSize) (page : Page) :
    ∃ after, forDown (fun i page => do
        let k ← internalKey page i
        let c ← internalChild page i
        internalSetEntry page (i + 1) c k) start count page = .ok after ∧
      (∀ i, start ≤ i → i < start + count →
        after.part (internalEntryOffset (i + 1)) 12 = page.part (internalEntryOffset i) 12) ∧
      ∀ other width, other + width ≤ internalEntryOffset (start + 1) ∨
        internalEntryOffset (start + count + 1) ≤ other →
        after.part other width = page.part other width := by
  refine forDown_shift (fun i above below => entry_copies ?_) page
  have here := internalEntryOffset_eq (i + 1)
  have last := internalEntryOffset_eq (start + count)
  omega

section Taking

variable {page : Page} {entries : List (Int64 × Nat)} {last right : Nat} {key : Int64}

theorem InternalAt.childSmall (node : InternalAt page entries last) (index : Nat) :
    (entries[index]?.map Prod.snd).getD last < 2 ^ 32 := by
  have := sizes
  cases found : entries[index]? with
  | some entry => exact (node.entry index entry found).small
  | none =>
      rw [Option.map_none, Option.getD_none, ← node.rightChild]
      have bound := leValue_lt (page.part rightChildOffset 4)
      rwa [Page.part_length (by omega)] at bound

/-- The page of a node after its entries from the slot on moved up and the new entry took
over the child there. -/
theorem insertEntry_ok (node : InternalAt page entries last)
    (room : entries.length < internalMaxKeys) (key : Int64) :
    ∃ shifted, forDown (fun i page => do
        let k ← internalKey page i
        let c ← internalChild page i
        internalSetEntry page (i + 1) c k) (slot entries key) (entries.length - slot entries key)
        page = .ok shifted ∧
      (if slot entries key < entries.length then internalChild shifted (slot entries key + 1)
        else internalRightChild shifted) =
          .ok ((entries[slot entries key]?.map Prod.snd).getD last) ∧
      (∀ other width, other + width ≤ internalHeaderSize →
        shifted.part other width = page.part other width) ∧
      ∀ index entry,
        (entries.insertIdx (slot entries key)
          (key, (entries[slot entries key]?.map Prod.snd).getD last))[index]? = some entry →
        EntryAt (putEntry shifted (slot entries key)
          (key, (entries[slot entries key]?.map Prod.snd).getD last)) index entry := by
  have sizes := sizes
  have positioned := slot_le entries key
  have childSmall := node.childSmall (slot entries key)
  generalize slot entries key = pos at *
  have whole : pos + (entries.length - pos) = entries.length := by omega
  have lastEntry := internalEntryOffset_eq entries.length
  have posEntry := internalEntryOffset_eq pos
  have nextEntry := internalEntryOffset_eq (pos + 1)
  obtain ⟨shifted, shift, moved, kept⟩ := @shiftEntries_ok (entries.length - pos) pos
    (by rw [whole]; omega) page
  rw [whole] at moved kept
  have above : ∀ i entry, entries[i]? = some entry → pos ≤ i → EntryAt shifted (i + 1) entry := by
    intro i entry found far
    have inside := (List.getElem?_eq_some_iff.mp found).1
    exact (node.entry i entry found).move (moved i far inside)
  have header : ∀ other width, other + width ≤ internalHeaderSize →
      shifted.part other width = page.part other width :=
    fun other width inside => kept _ _ (by omega)
  refine ⟨shifted, shift, ?_, header, fun index entry found => ?_⟩
  · cases found : entries[pos]? with
    | some entry =>
        have inside := (List.getElem?_eq_some_iff.mp found).1
        rw [if_pos inside, internalChild_ok (above pos entry found (Nat.le_refl _)) (by omega)]
        rfl
    | none =>
        rw [if_neg (Nat.not_lt_of_le (List.getElem?_eq_none_iff.mp found))]
        unfold internalRightChild
        rw [readU32_ok (by omega), Page.number_eq, header _ _ (by omega), ← Page.number_eq,
          node.rightChild]
        rfl
  · rw [List.getElem?_insertIdx] at found
    split at found
    · next before =>
        have here := internalEntryOffset_eq index
        have old := (node.entry index entry found).move
          (kept (internalEntryOffset index) 12 (by omega))
        exact old.putEntry (by omega)
    · next notBefore =>
        split at found
        · next same =>
            subst same
            rw [if_pos positioned] at found
            obtain rfl := Option.some.inj found
            exact putEntry_held (by omega) childSmall
        · next different =>
            have old := above (index - 1) entry found (by omega)
            rw [Nat.sub_add_cancel (by omega)] at old
            exact old.putEntry different

/-- A node with room takes one more child in. -/
theorem addEntry_ok (node : InternalAt page entries last) (room : entries.length < internalMaxKeys)
    (small : right < 2 ^ 32) (key : Int64) :
    ∃ after, addEntry key right page = .ok after ∧
      InternalAt after (combineEntries entries last key right).1
        (combineEntries entries last key right).2 := by
  have sizes := sizes
  have positioned := slot_le entries key
  have length := combineEntries_length entries last key right
  obtain ⟨shifted, shift, oldChild, header, held⟩ := insertEntry_ok node room key
  rw [combineEntries_mk] at length ⊢
  generalize ((entries[slot entries key]?.map Prod.snd).getD last) = child at *
  have run : ∀ middle after : Page,
      (if slot entries key + 1 ≤ entries.length then
        writeU32 (putEntry shifted (slot entries key) (key, child))
          (internalEntryOffset (slot entries key + 1)) right
        else pure (putEntry shifted (slot entries key) (key, child))) = .ok middle →
      (if slot entries key = entries.length then internalSetRightChild middle right
        else pure middle) = .ok after →
      addEntry key right page =
        .ok (after.put internalNumKeysOffset (leBytes 4 (entries.length + 1))) := by
    intro middle after first second
    have here := internalEntryOffset_eq (slot entries key)
    unfold addEntry
    rw [internalNumKeys_ok node, ok_bind, searchInternal_ok node, ok_bind, shift, ok_bind,
      oldChild, ok_bind]
    have set := @internalSetEntry_eq shifted (slot entries key) (key, child) (by omega)
    rw [set, ok_bind, first, ok_bind, second, ok_bind]
    exact writeU32_eq _ (by omega)
  generalize slot entries key = pos at *
  have posEntry := internalEntryOffset_eq pos
  have nextEntry := internalEntryOffset_eq (pos + 1)
  have kind : ∀ after : Page, after.part 0 1 = shifted.part 0 1 →
      after.byte 0 = nodeTypeInternal := by
    intro after same
    rw [Page.byte_eq, same, header _ _ (by omega), ← Page.byte_eq, node.kind]
  by_cases more : pos < entries.length
  · refine ⟨_, run _ _ ((if_pos (by omega)).trans (writeU32_eq right (by omega)))
      (if_neg (by omega)), ?_⟩
    refine { kind := kind _ ?_, numKeys := ?_, rightChild := ?_, fits := ?_, entry := ?_ }
    · rw [Page.part_put_apart (by omega), Page.part_put_apart (by omega), putEntry_apart (by omega)]
    · rw [number_put_same (by omega) (by omega), length]
    · rw [Page.number_eq, Page.part_put_apart (by rw [leBytes_length]; omega),
        Page.part_put_apart (by omega), putEntry_apart (by omega), header _ _ (by omega),
        ← Page.number_eq, node.rightChild, if_neg (by omega)]
    · rw [length]
      omega
    · intro index entry found
      have here := internalEntryOffset_eq index
      rw [List.getElem?_modify] at found
      obtain ⟨old, foundOld, change⟩ := Option.map_eq_some_iff.mp found
      have inside := (List.getElem?_eq_some_iff.mp foundOld).1
      rw [List.length_insertIdx_of_le_length positioned] at inside
      have before := held index old foundOld
      by_cases next : pos + 1 = index
      · subst next
        rw [if_pos rfl] at change
        subst change
        refine ⟨?_, ?_⟩
        · rw [Page.number_eq, Page.part_put_apart (by rw [leBytes_length]; omega),
            ← Page.number_eq, number_put_same (by omega) (by omega)]
        · rw [Page.key_eq, Page.part_put_apart (by rw [leBytes_length]; omega),
            Page.part_put_apart (by rw [leBytes_length]; omega), ← Page.key_eq, before.key]
      · rw [if_neg next] at change
        subst change
        refine before.move ?_
        rw [Page.part_put_apart (by rw [leBytes_length]; omega),
          Page.part_put_apart (by rw [leBytes_length]; omega)]
  · have same : pos = entries.length := by omega
    refine ⟨_, run _ _ (if_neg (by omega))
      ((if_pos same).trans (writeU32_eq right (by omega))), ?_⟩
    refine { kind := kind _ ?_, numKeys := ?_, rightChild := ?_, fits := ?_, entry := ?_ }
    · rw [Page.part_put_apart (by omega), Page.part_put_apart (by omega), putEntry_apart (by omega)]
    · rw [number_put_same (by omega) (by omega), length]
    · rw [Page.number_eq, Page.part_put_apart (by rw [leBytes_length]; omega), ← Page.number_eq,
        number_put_same (by omega) (by omega), if_pos same]
    · rw [length]
      omega
    · intro index entry found
      have here := internalEntryOffset_eq index
      rw [List.getElem?_modify] at found
      obtain ⟨old, foundOld, change⟩ := Option.map_eq_some_iff.mp found
      have inside := (List.getElem?_eq_some_iff.mp foundOld).1
      rw [List.length_insertIdx_of_le_length positioned] at inside
      rw [if_neg (by omega)] at change
      subst change
      refine (held index old foundOld).move ?_
      rw [Page.part_put_apart (by rw [leBytes_length]; omega),
        Page.part_put_apart (by rw [leBytes_length]; omega)]

end Taking

/-! ### Writing a whole node -/

section Whole

/-- A page after its header was initialised as an internal node. -/
theorem initInternal_ok (page : Page) :
    ∃ after, initInternal page = .ok after ∧ after.byte 0 = nodeTypeInternal := by
  have sizes := sizes
  refine ⟨((page.put 0 [nodeTypeInternal]).put internalNumKeysOffset (leBytes 4 0)).put
    rightChildOffset (leBytes 4 0), ?_, ?_⟩
  · unfold initInternal internalSetNumKeys internalSetRightChild
    rw [Page.write_eq_put (by rw [List.length_singleton]; omega), ok_bind,
      writeU32_eq _ (by omega), ok_bind, writeU32_eq _ (by omega)]
  · have first := @Page.part_put_same page 0 1 [nodeTypeInternal]
      (by rw [List.length_singleton]; omega) rfl
    rw [Page.byte_eq, Page.part_put_apart (by omega), Page.part_put_apart (by omega), first]
    rfl

/-- The loop that writes entries writes the remaining ones and leaves the others alone. -/
theorem writeEntriesFrom_ok {written rest : List (Int64 × Nat)} {page : Page}
    (held : ∀ index entry, written[index]? = some entry → EntryAt page index entry)
    (fits : written.length + rest.length ≤ internalMaxKeys)
    (small : ∀ entry ∈ rest, entry.2 < 2 ^ 32) :
    ∃ after, writeEntriesFrom rest written.length page = .ok after ∧
      (∀ index entry, (written ++ rest)[index]? = some entry → EntryAt after index entry) ∧
      ∀ other width, other + width ≤ internalHeaderSize →
        after.part other width = page.part other width := by
  induction rest generalizing written page with
  | nil =>
      refine ⟨page, rfl, ?_, fun _ _ _ => rfl⟩
      rw [List.append_nil]
      exact held
  | cons entry rest inductionHypothesis =>
      have sizes := sizes
      have here := internalEntryOffset_eq written.length
      rw [List.length_cons] at fits
      have next : ∀ index other, (written ++ [entry])[index]? = some other →
          EntryAt (putEntry page written.length entry) index other := by
        intro index other found
        by_cases last : index = written.length
        · subst last
          rw [List.getElem?_concat_length] at found
          obtain rfl := Option.some.inj found
          exact putEntry_held (by omega) (small entry List.mem_cons_self)
        · have inside := (List.getElem?_eq_some_iff.mp found).1
          rw [List.length_append, List.length_singleton] at inside
          rw [List.getElem?_append_left (by omega)] at found
          exact (held index other found).putEntry last
      obtain ⟨after, run, heldAfter, kept⟩ := inductionHypothesis next
        (by rw [List.length_append, List.length_singleton]; omega)
        fun other member => small other (List.mem_cons_of_mem _ member)
      rw [List.length_append, List.length_singleton] at run
      refine ⟨after, ?_, ?_, fun other width inside => ?_⟩
      · rw [writeEntriesFrom, internalSetEntry_eq (by omega), ok_bind]
        exact run
      · rw [List.append_cons]
        exact heldAfter
      · rw [kept other width inside, putEntry_apart (by omega)]

/-- A list of entries that fits is a node once it was written with its last child. -/
theorem writeInternal_ok {entries : List (Int64 × Nat)} {last : Nat}
    (fits : entries.length ≤ internalMaxKeys) (small : ∀ entry ∈ entries, entry.2 < 2 ^ 32)
    (smallLast : last < 2 ^ 32) (page : Page) :
    ∃ after, writeInternal entries last page = .ok after ∧ InternalAt after entries last := by
  have sizes := sizes
  obtain ⟨fresh, init, kind⟩ := initInternal_ok page
  obtain ⟨filled, fill, held, kept⟩ := @writeEntriesFrom_ok [] entries
    (fresh.put internalNumKeysOffset (leBytes 4 entries.length))
    (fun index entry found => by simp at found) (by rw [List.length_nil]; omega) small
  refine ⟨filled.put rightChildOffset (leBytes 4 last), ?_, ?_⟩
  · unfold writeInternal internalSetNumKeys internalSetRightChild
    rw [init, ok_bind, writeU32_eq _ (by omega), ok_bind]
    rw [List.length_nil] at fill
    rw [fill, ok_bind, writeU32_eq _ (by omega)]
  · refine { kind := ?_, numKeys := ?_, rightChild := ?_, fits := fits, entry := ?_ }
    · rw [Page.byte_eq, Page.part_put_apart (by omega), kept _ _ (by omega),
        Page.part_put_apart (by omega), ← Page.byte_eq, kind]
    · rw [Page.number_eq, Page.part_put_apart (by omega), kept _ _ (by omega), ← Page.number_eq,
        number_put_same (by omega) (by omega)]
    · rw [number_put_same (by omega) (by omega)]
    · intro index entry found
      have here := internalEntryOffset_eq index
      refine (held index entry found).move ?_
      rw [Page.part_put_apart (by rw [leBytes_length]; omega)]

/-- A new root holds the old root and the page it was split at. -/
theorem writeRoot_ok {rootPage child : Nat} (smallRoot : rootPage < 2 ^ 32)
    (smallChild : child < 2 ^ 32) (key : Int64) (page : Page) :
    ∃ after, writeRoot rootPage key child page = .ok after ∧
      NodeAt after ⟨rootPage, [(key, child)]⟩ := by
  obtain ⟨after, run, node⟩ := @writeInternal_ok [(key, rootPage)] child
    (Nat.le_of_lt (by decide : 1 < internalMaxKeys))
    (fun entry member => by rw [List.mem_singleton.mp member]; exact smallRoot) smallChild page
  refine ⟨after, ?_, node⟩
  rw [← run]
  unfold writeRoot writeInternal
  rcases initInternal page with fault | fresh
  · rfl
  · rw [ok_bind, ok_bind, List.length_singleton]
    rcases internalSetNumKeys fresh 1 with fault | numbered
    · rfl
    · rw [ok_bind, ok_bind, writeEntriesFrom]
      rcases internalSetEntry numbered 0 rootPage key with fault | filled
      · rfl
      · rfl

end Whole

end BTree

end MukhiDb.Model
