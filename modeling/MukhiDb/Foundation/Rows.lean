import Mathlib.Algebra.Order.Ring.Nat
import Mathlib.Data.List.Basic
import Mathlib.Tactic.Common

/-!
Contract: rows of children with a separator before each child but the first.

Owns: the slot of a key, which is the number of leading separators below it; the
child at that slot; replacing that child, with or without a new entry right
after it; placing an entry by its own key; joining rows; and flattening a row of
rows.

Does not own: trees, pages, or bounds on the number of entries.
-/

namespace MukhiDb.Foundation

variable {κ τ υ : Type}

/-- A first child and entries, each a separator and the child after it. -/
structure Row (κ τ : Type) where
  first : τ
  entries : List (κ × τ)
deriving DecidableEq, Repr

namespace Row

/-- The children from left to right. -/
def children (row : Row κ τ) : List τ := row.first :: row.entries.map Prod.snd

/-- The separators from left to right. -/
def keys (row : Row κ τ) : List κ := row.entries.map Prod.fst

/-- Two rows with a separator between them. -/
def join (left : Row κ τ) (key : κ) (right : Row κ τ) : Row κ τ :=
  ⟨left.first, left.entries ++ (key, right.first) :: right.entries⟩

@[simp] theorem keys_mk (first : τ) (entries : List (κ × τ)) :
    (Row.mk first entries).keys = entries.map Prod.fst := rfl

@[simp] theorem children_mk (first : τ) (entries : List (κ × τ)) :
    (Row.mk first entries).children = first :: entries.map Prod.snd := rfl

@[simp] theorem keys_join (left : Row κ τ) (key : κ) (right : Row κ τ) :
    (left.join key right).keys = left.keys ++ key :: right.keys := by
  simp [join, keys]

@[simp] theorem children_join (left : Row κ τ) (key : κ) (right : Row κ τ) :
    (left.join key right).children = left.children ++ right.children := by
  simp [join, children]

theorem join_assoc (first : Row κ τ) (key : κ) (second : Row κ τ) (key' : κ) (third : Row κ τ) :
    (first.join key second).join key' third = first.join key (second.join key' third) := by
  simp [join]

/-- Change every child and keep the separators. -/
def map (change : τ → υ) (row : Row κ τ) : Row κ υ :=
  ⟨change row.first, row.entries.map fun entry => (entry.1, change entry.2)⟩

@[simp] theorem keys_map (change : τ → υ) (row : Row κ τ) : (row.map change).keys = row.keys := by
  simp [map, keys]

@[simp] theorem children_map (change : τ → υ) (row : Row κ τ) :
    (row.map change).children = row.children.map change := by
  simp [map, children]

/-- Flatten a row of rows. -/
def flatten (read : υ → Row κ τ) : (first : υ) → (entries : List (κ × υ)) → Row κ τ
  | first, [] => read first
  | first, (key, next) :: rest => (read first).join key (flatten read next rest)

/-- Each separator with the child before it, and the last child. -/
def pairs : (first : τ) → (entries : List (κ × τ)) → List (κ × τ) × τ
  | first, [] => ([], first)
  | first, entry :: rest => ((entry.1, first) :: (pairs entry.2 rest).1, (pairs entry.2 rest).2)

@[simp] theorem pairs_keys (first : τ) (entries : List (κ × τ)) :
    (pairs first entries).1.map Prod.fst = entries.map Prod.fst := by
  induction entries generalizing first with
  | nil => rfl
  | cons entry rest inductionHypothesis => simp [pairs, inductionHypothesis]

@[simp] theorem pairs_length (first : τ) (entries : List (κ × τ)) :
    (pairs first entries).1.length = entries.length := by
  have keys := congrArg List.length (pairs_keys first entries)
  rwa [List.length_map, List.length_map] at keys

theorem pairs_map (change : τ → υ) (first : τ) (entries : List (κ × τ)) :
    pairs (change first) (entries.map fun entry => (entry.1, change entry.2)) =
      ((pairs first entries).1.map fun entry => (entry.1, change entry.2),
        change (pairs first entries).2) := by
  induction entries generalizing first with
  | nil => rfl
  | cons entry rest inductionHypothesis =>
      rw [List.map_cons, pairs, inductionHypothesis]
      rfl

theorem pairs_children (first : τ) (entries : List (κ × τ)) :
    (pairs first entries).1.map Prod.snd ++ [(pairs first entries).2] =
      (Row.mk first entries).children := by
  induction entries generalizing first with
  | nil => rfl
  | cons entry rest inductionHypothesis =>
      have next := inductionHypothesis entry.2
      rw [pairs, List.map_cons, List.cons_append, next]
      rfl

/-- The child at a position, the last one past the separators. -/
theorem pairs_child (first : τ) (entries : List (κ × τ)) (index : Nat) :
    (((pairs first entries).1[index]?).map Prod.snd).getD (pairs first entries).2 ∈
      (Row.mk first entries).children := by
  rw [← pairs_children]
  cases found : (pairs first entries).1[index]? with
  | none => exact List.mem_append_right _ List.mem_cons_self
  | some entry => exact List.mem_append_left _ (List.mem_map_of_mem (List.mem_of_getElem? found))

theorem pairs_append (first : τ) (before : List (κ × τ)) (middle : κ × τ) (later : List (κ × τ)) :
    pairs first (before ++ middle :: later) =
      ((pairs first before).1 ++ (middle.1, (pairs first before).2) :: (pairs middle.2 later).1,
        (pairs middle.2 later).2) := by
  induction before generalizing first with
  | nil => rfl
  | cons entry rest inductionHypothesis =>
      rw [List.cons_append, pairs, inductionHypothesis]
      rfl

/-- The first child is before the first separator, or the last child. -/
theorem pairs_first (first : τ) (entries : List (κ × τ)) :
    (((pairs first entries).1[0]?).map Prod.snd).getD (pairs first entries).2 = first := by
  cases entries with
  | nil => rfl
  | cons entry rest => rfl

end Row

section Ordered

variable [LinearOrder κ]

/-- Number of leading entries whose key is below `key`. -/
def slot : (entries : List (κ × τ)) → (key : κ) → Nat
  | [], _ => 0
  | entry :: rest, key => if entry.1 < key then slot rest key + 1 else 0

/-- Put an entry in front of the first one whose key is not below its own. -/
def place : (entries : List (κ × τ)) → (key : κ) → (value : τ) → List (κ × τ)
  | [], key, value => [(key, value)]
  | entry :: rest, key, value =>
      if entry.1 < key then entry :: place rest key value else (key, value) :: entry :: rest

/-- The child at the slot of a key. -/
def pick : (first : τ) → (entries : List (κ × τ)) → (key : κ) → τ
  | first, [], _ => first
  | first, entry :: rest, key => if entry.1 < key then pick entry.2 rest key else first

/-- Replace the child at the slot of a key. -/
def replace : (first : τ) → (entries : List (κ × τ)) → (key : κ) → (child : τ) → Row κ τ
  | _, [], _, child => ⟨child, []⟩
  | first, entry :: rest, key, child =>
      if entry.1 < key then
        ⟨first, (entry.1, (replace entry.2 rest key child).first) ::
          (replace entry.2 rest key child).entries⟩
      else ⟨child, entry :: rest⟩

/-- Replace the child at the slot of a key by two children with a separator between. -/
def replaceTwo : (first : τ) → (entries : List (κ × τ)) → (key : κ) → (child : τ) →
    (separator : κ) → (right : τ) → Row κ τ
  | _, [], _, child, separator, right => ⟨child, [(separator, right)]⟩
  | first, entry :: rest, key, child, separator, right =>
      if entry.1 < key then
        ⟨first, (entry.1, (replaceTwo entry.2 rest key child separator right).first) ::
          (replaceTwo entry.2 rest key child separator right).entries⟩
      else ⟨child, (separator, right) :: entry :: rest⟩

/-! ### Slots -/

theorem slot_le (entries : List (κ × τ)) (key : κ) : slot entries key ≤ entries.length := by
  induction entries with
  | nil => exact Nat.le_refl 0
  | cons entry rest inductionHypothesis =>
      unfold slot
      split
      · exact Nat.succ_le_succ inductionHypothesis
      · exact Nat.zero_le _

/-- The slot depends on the keys alone. -/
theorem slot_map {entries : List (κ × τ)} {others : List (κ × υ)}
    (same : entries.map Prod.fst = others.map Prod.fst) (key : κ) :
    slot entries key = slot others key := by
  induction entries generalizing others with
  | nil =>
      cases others with
      | nil => rfl
      | cons other rest => simp at same
  | cons entry rest inductionHypothesis =>
      cases others with
      | nil => simp at same
      | cons other others =>
          obtain ⟨head, tail⟩ := List.cons.inj same
          unfold slot
          rw [head, inductionHypothesis tail]

theorem place_eq (entries : List (κ × τ)) (key : κ) (value : τ) :
    place entries key value =
      entries.take (slot entries key) ++ (key, value) :: entries.drop (slot entries key) := by
  induction entries with
  | nil => rfl
  | cons entry rest inductionHypothesis =>
      unfold place slot
      split
      · rw [inductionHypothesis]
        rfl
      · rfl

theorem place_perm (entries : List (κ × τ)) (key : κ) (value : τ) :
    (place entries key value).Perm ((key, value) :: entries) := by
  rw [place_eq]
  refine List.perm_middle.trans ?_
  rw [List.take_append_drop]

@[simp] theorem place_length (entries : List (κ × τ)) (key : κ) (value : τ) :
    (place entries key value).length = entries.length + 1 :=
  (place_perm entries key value).length_eq

/-- Placing a key keeps a sorted list sorted. -/
theorem place_sorted {entries : List (κ × τ)} (sorted : (entries.map Prod.fst).Pairwise (· ≤ ·))
    (key : κ) (value : τ) : ((place entries key value).map Prod.fst).Pairwise (· ≤ ·) := by
  induction entries with
  | nil => simp [place]
  | cons entry rest inductionHypothesis =>
      obtain ⟨head, tail⟩ := List.pairwise_cons.mp sorted
      unfold place
      split
      · next below =>
          refine List.pairwise_cons.mpr ⟨fun other member => ?_, inductionHypothesis tail⟩
          rcases List.mem_cons.mp (((place_perm rest key value).map Prod.fst).mem_iff.mp member) with
            rfl | old
          · exact below.le
          · exact head other old
      · next above =>
          refine List.pairwise_cons.mpr ⟨fun other member => ?_, sorted⟩
          rcases List.mem_cons.mp member with rfl | later
          · exact not_lt.mp above
          · exact (not_lt.mp above).trans (head other later)

/-! ### The child at a slot -/

theorem pick_eq (first : τ) (entries : List (κ × τ)) (key : κ) :
    (Row.mk first entries).children[slot entries key]? = some (pick first entries key) := by
  induction entries generalizing first with
  | nil => rfl
  | cons entry rest inductionHypothesis =>
      unfold slot pick
      split
      · exact inductionHypothesis entry.2
      · rfl

theorem pick_mem (first : τ) (entries : List (κ × τ)) (key : κ) :
    pick first entries key ∈ (Row.mk first entries).children :=
  List.mem_of_getElem? (pick_eq first entries key)

/-- The picked child is before the separator at the slot, or the last child. -/
theorem pairs_slot (first : τ) (entries : List (κ × τ)) (key : κ) :
    (((Row.pairs first entries).1[slot entries key]?).map Prod.snd).getD
      (Row.pairs first entries).2 = pick first entries key := by
  induction entries generalizing first with
  | nil => rfl
  | cons entry rest inductionHypothesis =>
      rw [slot, pick, Row.pairs]
      split
      · exact inductionHypothesis entry.2
      · rfl

/-- Replacing the picked child keeps the keys. -/
theorem replace_keys (first : τ) (entries : List (κ × τ)) (key : κ) (child : τ) :
    (replace first entries key child).keys = entries.map Prod.fst := by
  induction entries generalizing first with
  | nil => rfl
  | cons entry rest inductionHypothesis =>
      unfold replace
      split
      · exact congrArg (entry.1 :: ·) (inductionHypothesis entry.2)
      · rfl

theorem replace_length (first : τ) (entries : List (κ × τ)) (key : κ) (child : τ) :
    (replace first entries key child).entries.length = entries.length := by
  have keys := congrArg List.length (replace_keys first entries key child)
  simpa [Row.keys] using keys

/-- The children around the picked one stay, whether one or two replace it. -/
theorem children_around (first : τ) (entries : List (κ × τ)) (key : κ) :
    ∃ before after, (Row.mk first entries).children =
        before ++ pick first entries key :: after ∧
      (∀ child, (replace first entries key child).children = before ++ child :: after) ∧
      ∀ child separator right, (replaceTwo first entries key child separator right).children =
        before ++ child :: right :: after := by
  induction entries generalizing first with
  | nil => exact ⟨[], [], rfl, fun _ => rfl, fun _ _ _ => rfl⟩
  | cons entry rest inductionHypothesis =>
      by_cases below : entry.1 < key
      · obtain ⟨before, after, old, one, two⟩ := inductionHypothesis entry.2
        refine ⟨first :: before, after, ?_, fun child => ?_, fun child separator right => ?_⟩
        · rw [pick, if_pos below]
          exact congrArg (first :: ·) old
        · rw [replace, if_pos below]
          exact congrArg (first :: ·) (one child)
        · rw [replaceTwo, if_pos below]
          exact congrArg (first :: ·) (two child separator right)
      · refine ⟨[], entry.2 :: rest.map Prod.snd, ?_, fun child => ?_, fun child separator right => ?_⟩
        · rw [pick, if_neg below]
          rfl
        · rw [replace, if_neg below]
          rfl
        · rw [replaceTwo, if_neg below]
          rfl

theorem replace_children (first : τ) (entries : List (κ × τ)) (key : κ) :
    ∃ before after, (Row.mk first entries).children =
        before ++ pick first entries key :: after ∧
      ∀ child, (replace first entries key child).children = before ++ child :: after := by
  obtain ⟨before, after, old, one, -⟩ := children_around first entries key
  exact ⟨before, after, old, one⟩

/-- Replacing the picked child by itself changes nothing. -/
theorem replace_pick (first : τ) (entries : List (κ × τ)) (key : κ) :
    replace first entries key (pick first entries key) = ⟨first, entries⟩ := by
  induction entries generalizing first with
  | nil => rfl
  | cons entry rest inductionHypothesis =>
      rw [replace, pick]
      split
      · rw [inductionHypothesis]
      · rfl

section Map

variable (change : τ → υ) (first : τ) (entries : List (κ × τ)) (key : κ)

theorem pick_map :
    pick (change first) (entries.map fun entry => (entry.1, change entry.2)) key =
      change (pick first entries key) := by
  induction entries generalizing first with
  | nil => rfl
  | cons entry rest inductionHypothesis =>
      rw [List.map_cons, pick, pick]
      split
      · exact inductionHypothesis entry.2
      · rfl

theorem place_map (value : τ) :
    place (entries.map fun entry => (entry.1, change entry.2)) key (change value) =
      (place entries key value).map fun entry => (entry.1, change entry.2) := by
  induction entries with
  | nil => rfl
  | cons entry rest inductionHypothesis =>
      rw [List.map_cons, place, place]
      split
      · rw [inductionHypothesis]
        rfl
      · rfl

theorem map_replace (child : τ) :
    (replace first entries key child).map change =
      replace (change first) (entries.map fun entry => (entry.1, change entry.2)) key
        (change child) := by
  induction entries generalizing first with
  | nil => rfl
  | cons entry rest inductionHypothesis =>
      rw [List.map_cons, replace, replace]
      split
      · rw [← inductionHypothesis entry.2]
        rfl
      · rfl

theorem map_replaceTwo (child : τ) (separator : κ) (right : τ) :
    (replaceTwo first entries key child separator right).map change =
      replaceTwo (change first) (entries.map fun entry => (entry.1, change entry.2)) key
        (change child) separator (change right) := by
  induction entries generalizing first with
  | nil => rfl
  | cons entry rest inductionHypothesis =>
      rw [List.map_cons, replaceTwo, replaceTwo]
      split
      · rw [← inductionHypothesis entry.2]
        rfl
      · rfl

end Map

/-- When the new separator has the slot of the key, placing it after the replaced
child is placing it by its own key. -/
theorem place_replace {entries : List (κ × τ)} {key separator : κ}
    (aligned : slot entries separator = slot entries key) (first child right : τ) :
    Row.mk (replace first entries key child).first
        (place (replace first entries key child).entries separator right) =
      replaceTwo first entries key child separator right := by
  induction entries generalizing first with
  | nil => rfl
  | cons entry rest inductionHypothesis =>
      by_cases below : entry.1 < key
      · have below' : entry.1 < separator := by
          by_contra above
          rw [slot, slot, if_pos below, if_neg above] at aligned
          contradiction
        have next := inductionHypothesis (by
          rw [slot, slot, if_pos below, if_pos below'] at aligned
          exact Nat.succ.inj aligned) entry.2
        rw [replace, if_pos below, place, if_pos below', replaceTwo, if_pos below, ← next]
      · have above' : ¬ entry.1 < separator := by
          intro below'
          rw [slot, slot, if_neg below, if_pos below'] at aligned
          contradiction
        rw [replace, if_neg below, place, if_neg above', replaceTwo, if_neg below]

end Ordered

end MukhiDb.Foundation
