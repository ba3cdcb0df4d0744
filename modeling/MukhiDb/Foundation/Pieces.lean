import MukhiDb.Foundation.Text

/-!
Contract: lists that stand between brackets in a text, with separators between them.

Owns: the trimmed pieces of a text cut at a separator, and that cutting inverts
joining; the part between the first opening and the last closing character, and its
byte offsets; and a text split at its first space.

Does not own: what a piece means.
-/

namespace MukhiDb.Foundation

/-! ### Pieces -/

section Pieces

variable {separator : Char}

/-- The trimmed pieces of a text cut at a separator. -/
def pieces (separator : Char) (text : List Char) : List (List Char) :=
  (text.splitOn separator).map trim

theorem pieces_append (front back : List Char) :
    pieces separator (front ++ separator :: back) =
      pieces separator front ++ pieces separator back := by
  unfold pieces
  rw [List.splitOn_append_cons_self, List.map_append]

theorem pieces_space (other : separator ≠ ' ') (text : List Char) :
    pieces separator (' ' :: text) = pieces separator text := by
  unfold pieces
  rw [List.splitOn_cons_eq_if_modifyHead, if_neg (by simpa using other.symm)]
  cases text.splitOn separator with
  | nil => rfl
  | cons head rest => rfl

theorem pieces_uncut {text : List Char} (uncut : separator ∉ text) :
    pieces separator text = [trim text] := by
  unfold pieces
  rw [List.splitOn_eq_singleton uncut]
  rfl

/-- Joined texts are cut into what each of them is cut into. -/
theorem pieces_intercalate (other : separator ≠ ' ') {texts : List (List Char)}
    (some : texts ≠ []) :
    pieces separator ([separator, ' '].intercalate texts) = texts.flatMap (pieces separator) := by
  induction texts with
  | nil => exact absurd rfl some
  | cons first rest inductionHypothesis =>
      cases rest with
      | nil => rw [List.intercalate_singleton, List.flatMap_singleton]
      | cons second rest =>
          rw [List.intercalate_cons_cons, List.append_assoc, List.flatMap_cons,
            ← inductionHypothesis (List.cons_ne_nil _ _)]
          change pieces separator (first ++ separator :: ' ' :: _) = _
          rw [pieces_append, pieces_space other]
          rfl

/-- Cutting inverts joining, for trimmed texts without the separator. -/
theorem pieces_join (other : separator ≠ ' ') {texts : List (List Char)} (some : texts ≠ [])
    (each : ∀ text ∈ texts, Trimmed text ∧ separator ∉ text) :
    pieces separator ([separator, ' '].intercalate texts) = texts := by
  have whole : texts.flatMap (pieces separator) = texts.flatMap fun text => [text] :=
    List.flatMap_congr fun text member => by
      rw [pieces_uncut (each text member).2, (each text member).1.trim]
  rw [pieces_intercalate other some, whole, List.flatMap_singleton']

/-- Joined texts are trimmed if each of them is. -/
theorem intercalate_trimmed {texts : List (List Char)} (some : texts ≠ [])
    (each : ∀ text ∈ texts, Trimmed text ∧ text ≠ []) :
    Trimmed ([separator, ' '].intercalate texts) ∧ [separator, ' '].intercalate texts ≠ [] := by
  induction texts with
  | nil => exact absurd rfl some
  | cons first rest inductionHypothesis =>
      have head := each first List.mem_cons_self
      cases rest with
      | nil =>
          rw [List.intercalate_singleton]
          exact head
      | cons second rest =>
          have tail := inductionHypothesis (List.cons_ne_nil _ _)
            fun text member => each text (List.mem_cons_of_mem _ member)
          rw [List.intercalate_cons_cons]
          exact ⟨head.1.between tail.1 head.2 tail.2 _,
            fun empty => tail.2 (List.append_eq_nil_iff.mp empty).2⟩

end Pieces

/-! ### Between brackets -/

section Between

variable {first last : Char}

/-- What follows the first opening character, up to the last closing one. Without a closing
character that is the rest of the text. -/
def between (first last : Char) (text : List Char) : List Char :=
  if last ∈ text then (((text.dropWhile (· ≠ first)).drop 1).rdropWhile (· ≠ last)).dropLast
  else (text.dropWhile (· ≠ first)).drop 1

theorem takeWhile_ne {front : List Char} {c : Char} (absent : c ∉ front) (back : List Char) :
    (front ++ c :: back).takeWhile (· ≠ c) = front := by
  have passed : ∀ other ∈ front, decide (other ≠ c) = true := fun other member =>
    decide_eq_true fun same => absent (same ▸ member)
  rw [List.takeWhile_append_of_pos passed, List.takeWhile_cons_of_neg (by simp), List.append_nil]

theorem dropWhile_ne {front : List Char} {c : Char} (absent : c ∉ front) (back : List Char) :
    (front ++ c :: back).dropWhile (· ≠ c) = c :: back := by
  have passed : ∀ other ∈ front, decide (other ≠ c) = true := fun other member =>
    decide_eq_true fun same => absent (same ▸ member)
  rw [List.dropWhile_append_of_pos passed, List.dropWhile_cons_of_neg (by simp)]

theorem rdropWhile_ne {back : List Char} {c : Char} (absent : c ∉ back) (front : List Char) :
    (front ++ c :: back).rdropWhile (· ≠ c) = front ++ [c] := by
  have reversed : (front ++ c :: back).reverse = back.reverse ++ c :: front.reverse := by simp
  unfold List.rdropWhile
  rw [reversed, dropWhile_ne (by simpa using absent)]
  simp

theorem rfindChar_none {text : List Char} {c : Char} (absent : c ∉ text) :
    rfindChar c text = none := by
  induction text with
  | nil => rfl
  | cons head rest inductionHypothesis =>
      have different : head ≠ c := fun same => absent (same ▸ List.mem_cons_self)
      unfold rfindChar
      rw [inductionHypothesis fun member => absent (List.mem_cons_of_mem _ member)]
      exact if_neg different

/-- The last occurrence of a character. -/
theorem rfindChar_char {back : List Char} {c : Char} (absent : c ∉ back) (front : List Char) :
    rfindChar c (front ++ c :: back) = some (byteLength front) := by
  induction front with
  | nil =>
      rw [List.nil_append, rfindChar, rfindChar_none absent]
      exact if_pos rfl
  | cons head rest inductionHypothesis =>
      rw [List.cons_append, rfindChar, inductionHypothesis, byteLength_cons]
      exact congrArg some (Nat.add_comm _ _)

/-- A text that contains a character is split at its last occurrence. -/
theorem exists_last {text : List Char} {c : Char} (member : c ∈ text) :
    ∃ front back, text = front ++ c :: back ∧ c ∉ back := by
  obtain ⟨back, front, reversed, absent⟩ := List.eq_append_cons_of_mem (List.mem_reverse.mpr member)
  refine ⟨front.reverse, back.reverse, ?_, by simpa using absent⟩
  rw [← List.reverse_reverse text, reversed]
  simp

theorem rfindChar_le (text : List Char) (c : Char) :
    (rfindChar c text).getD (byteLength text) ≤ byteLength text := by
  by_cases member : c ∈ text
  · obtain ⟨front, back, rfl, absent⟩ := exists_last member
    rw [rfindChar_char absent, Option.getD_some, byteLength_append]
    exact Nat.le_add_right _ _
  · rw [rfindChar_none member]
    exact Nat.le_refl _

theorem getRange_empty {text : List Char} {start stop : Nat} (backwards : stop < start) :
    (getRange text start stop).getD [] = [] := by
  unfold getRange
  rw [if_neg (Nat.not_le.mpr backwards)]
  rfl

theorem between_unopened {text : List Char} (unopened : first ∉ text) :
    between first last text = [] := by
  have none : text.dropWhile (· ≠ first) = [] :=
    List.dropWhile_eq_nil_iff.mpr fun other member =>
      decide_eq_true fun same => unopened (same ▸ member)
  unfold between
  rw [none]
  split <;> rfl

/-- What lies between the brackets, when the text is split at the first opening one. -/
theorem between_opened {front : List Char} (absent : first ∉ front) (inside : List Char) :
    between first last (front ++ first :: inside) =
      if last ∈ front ++ first :: inside then (inside.rdropWhile (· ≠ last)).dropLast
      else inside := by
  unfold between
  rw [dropWhile_ne absent]
  rfl

theorem between_brackets {front back : List Char} (absent : first ∉ front) (last' : last ∉ back)
    (middle : List Char) :
    between first last (front ++ first :: (middle ++ last :: back)) = middle := by
  rw [between_opened absent, if_pos (by simp), rdropWhile_ne last', List.dropLast_concat]

/-- The byte range from behind the first opening character to the last closing one is what
stands between them. -/
theorem getRange_between (ascii : first.utf8Size = 1) (different : first ≠ last)
    (text : List Char) :
    (getRange text ((find [first] text).getD (byteLength text) + 1)
      ((rfindChar last text).getD (byteLength text))).getD [] = between first last text := by
  by_cases opened : first ∈ text
  · obtain ⟨front, inside, rfl, absent⟩ := List.eq_append_cons_of_mem opened
    have behind : byteLength front + 1 = byteLength (front ++ [first]) := by
      rw [byteLength_append, byteLength_cons, ascii]
      rfl
    have split : front ++ first :: inside = front ++ [first] ++ inside := by simp
    rw [find_char absent, Option.getD_some, behind]
    -- the last closing character is behind the opening one, before it, or missing
    by_cases closed : last ∈ inside
    · obtain ⟨middle, back, rfl, absent'⟩ := exists_last closed
      have whole : front ++ first :: (middle ++ last :: back) =
          front ++ [first] ++ middle ++ last :: back := by simp
      rw [between_brackets absent absent', whole, rfindChar_char absent', Option.getD_some,
        getRange_append]
      rfl
    · by_cases before : last ∈ front
      · obtain ⟨outer, rest, rfl, absent'⟩ := exists_last before
        have later : last ∉ rest ++ first :: inside := by
          simp [absent', closed, different.symm]
        have none : inside.rdropWhile (· ≠ last) = [] :=
          List.rdropWhile_eq_nil_iff.mpr fun other member =>
            decide_eq_true fun same => closed (same ▸ member)
        have whole : outer ++ last :: rest ++ first :: inside =
            outer ++ last :: (rest ++ first :: inside) := by simp
        rw [between_opened absent, if_pos (by simp), none, whole, rfindChar_char later]
        refine getRange_empty ?_
        simp only [Option.getD_some, byteLength_append, byteLength_cons]
        have := last.utf8Size_pos
        omega
      · have unclosed : last ∉ front ++ first :: inside := by
          simp [before, closed, different.symm]
        have range := getRange_append (front ++ [first]) inside []
        rw [List.append_nil] at range
        rw [between_opened absent, if_neg unclosed, rfindChar_none unclosed, Option.getD_none, split,
          range]
        rfl
  · have missing : find [first] text = none :=
      find_eq_none_iff.mpr fun occurs => opened (occurs.subset List.mem_cons_self)
    rw [between_unopened opened, missing]
    exact getRange_empty (Nat.lt_succ_of_le (rfindChar_le text last))

end Between

end MukhiDb.Foundation
