import MukhiDb.Foundation.Exec
import MukhiDb.Foundation.Unicode

/-!
Contract: texts searched and cut at byte offsets.

Owns: the byte length of a text in UTF-8; the first occurrence of a pattern, as a byte
offset; cuts, which exist at the ends of characters only; the slices that panic where
there is no cut, and the one that gives nothing; and where an occurrence lies when the
text around it is known.

Does not own: which patterns are searched for.
-/

namespace MukhiDb.Foundation

/-- The number of bytes of a text. -/
def byteLength (text : List Char) : Nat := (text.map Char.utf8Size).sum

/-- The byte offset of the first occurrence of a pattern. -/
def find (pattern : List Char) : List Char → Option Nat
  | [] => if pattern = [] then some 0 else none
  | c :: rest =>
      if pattern.isPrefixOf (c :: rest) then some 0
      else (find pattern rest).map (· + c.utf8Size)

/-- The byte offset of the last occurrence of a character. -/
def rfindChar (wanted : Char) : List Char → Option Nat
  | [] => none
  | c :: rest =>
      match rfindChar wanted rest with
      | some offset => some (offset + c.utf8Size)
      | none => if c = wanted then some 0 else none

/-- The two parts of a text at a byte offset, if that is the end of a character or 0. -/
def cutAt (offset : Nat) : List Char → Option (List Char × List Char)
  | [] => if offset = 0 then some ([], []) else none
  | c :: rest =>
      if offset = 0 then some ([], c :: rest)
      else if c.utf8Size ≤ offset then
        (cutAt (offset - c.utf8Size) rest).map fun cut => (c :: cut.1, cut.2)
      else none

/-- The offset is a character boundary of the text. -/
def Boundary (text : List Char) (offset : Nat) : Prop := (cutAt offset text).isSome = true

instance (text : List Char) (offset : Nat) : Decidable (Boundary text offset) :=
  inferInstanceAs (Decidable (_ = true))

/-- `&text[..offset]`. -/
def sliceTo (text : List Char) (offset : Nat) : Except Fault (List Char) :=
  match cutAt offset text with
  | some cut => .ok cut.1
  | none => .error .panic

/-- `&text[offset..]`. -/
def sliceFrom (text : List Char) (offset : Nat) : Except Fault (List Char) :=
  match cutAt offset text with
  | some cut => .ok cut.2
  | none => .error .panic

/-- `text.get(offset..)`. -/
def getFrom (text : List Char) (offset : Nat) : Option (List Char) :=
  (cutAt offset text).map Prod.snd

/-- `text.get(start..stop)`. -/
def getRange (text : List Char) (start stop : Nat) : Option (List Char) :=
  if start ≤ stop then
    match cutAt start text with
    | some cut => (cutAt (stop - start) cut.2).map Prod.fst
    | none => none
  else none

/-! ### Cuts -/

@[simp] theorem byteLength_nil : byteLength [] = 0 := rfl

theorem byteLength_cons (c : Char) (rest : List Char) :
    byteLength (c :: rest) = c.utf8Size + byteLength rest := by
  unfold byteLength
  rw [List.map_cons, List.sum_cons]

theorem byteLength_append (front back : List Char) :
    byteLength (front ++ back) = byteLength front + byteLength back := by
  unfold byteLength
  rw [List.map_append, List.sum_append]

theorem cutAt_zero (text : List Char) : cutAt 0 text = some ([], text) := by
  cases text <;> rfl

/-- A text can be cut after each of its beginnings. -/
theorem cutAt_append (front back : List Char) :
    cutAt (byteLength front) (front ++ back) = some (front, back) := by
  induction front with
  | nil => exact cutAt_zero back
  | cons c rest inductionHypothesis =>
      have positive := c.utf8Size_pos
      rw [byteLength_cons, List.cons_append]
      unfold cutAt
      rw [if_neg (by omega), if_pos (by omega), Nat.add_sub_cancel_left, inductionHypothesis]
      rfl

theorem cutAt_eq_some {offset : Nat} {text front back : List Char} :
    cutAt offset text = some (front, back) ↔ text = front ++ back ∧ offset = byteLength front := by
  constructor
  · intro cut
    induction text generalizing offset front back with
    | nil =>
        unfold cutAt at cut
        split at cut
        · next zero =>
            obtain ⟨rfl, rfl⟩ := Prod.mk.inj (Option.some.inj cut)
            exact ⟨rfl, zero⟩
        · cases cut
    | cons c rest inductionHypothesis =>
        unfold cutAt at cut
        split at cut
        · next zero =>
            obtain ⟨rfl, rfl⟩ := Prod.mk.inj (Option.some.inj cut)
            exact ⟨rfl, zero⟩
        · next positive =>
            split at cut
            · next inside =>
                obtain ⟨⟨front', back'⟩, tail, same⟩ := Option.map_eq_some_iff.mp cut
                obtain ⟨rfl, rfl⟩ := Prod.mk.inj same
                obtain ⟨rfl, size⟩ := inductionHypothesis tail
                refine ⟨rfl, ?_⟩
                rw [byteLength_cons, ← size]
                omega
            · cases cut
  · rintro ⟨rfl, rfl⟩
    exact cutAt_append front back

theorem boundary_iff {text : List Char} {offset : Nat} :
    Boundary text offset ↔ ∃ front back, text = front ++ back ∧ offset = byteLength front := by
  unfold Boundary
  rw [Option.isSome_iff_exists]
  constructor
  · rintro ⟨⟨front, back⟩, cut⟩
    exact ⟨front, back, cutAt_eq_some.mp cut⟩
  · rintro ⟨front, back, whole⟩
    exact ⟨(front, back), cutAt_eq_some.mpr whole⟩

theorem boundary_append (front back : List Char) : Boundary (front ++ back) (byteLength front) :=
  boundary_iff.mpr ⟨front, back, rfl, rfl⟩

theorem boundary_byteLength (text : List Char) : Boundary text (byteLength text) :=
  boundary_iff.mpr ⟨text, [], (List.append_nil text).symm, rfl⟩

theorem sliceTo_append (front back : List Char) :
    sliceTo (front ++ back) (byteLength front) = .ok front := by
  unfold sliceTo
  rw [cutAt_append]

theorem sliceFrom_append (front back : List Char) :
    sliceFrom (front ++ back) (byteLength front) = .ok back := by
  unfold sliceFrom
  rw [cutAt_append]

theorem getFrom_append (front back : List Char) :
    getFrom (front ++ back) (byteLength front) = some back := by
  unfold getFrom
  rw [cutAt_append]
  rfl

theorem sliceTo_panics {text : List Char} {offset : Nat} (off : ¬ Boundary text offset) :
    sliceTo text offset = .error .panic := by
  unfold sliceTo
  rw [Option.not_isSome_iff_eq_none.mp off]

theorem sliceFrom_panics {text : List Char} {offset : Nat} (off : ¬ Boundary text offset) :
    sliceFrom text offset = .error .panic := by
  unfold sliceFrom
  rw [Option.not_isSome_iff_eq_none.mp off]

/-- No boundary lies past the end. -/
theorem boundary_le {text : List Char} {offset : Nat} (boundary : Boundary text offset) :
    offset ≤ byteLength text := by
  obtain ⟨front, back, rfl, rfl⟩ := boundary_iff.mp boundary
  rw [byteLength_append]
  omega

/-! ### What is in front of a cut, and after it -/

/-- The part in front of an offset, nothing if the text cannot be cut there. -/
def before (text : List Char) (offset : Nat) : List Char :=
  ((cutAt offset text).map Prod.fst).getD []

/-- The part from an offset on, nothing if the text cannot be cut there. -/
def after (text : List Char) (offset : Nat) : List Char := (getFrom text offset).getD []

theorem sliceTo_ok {text : List Char} {offset : Nat} (boundary : Boundary text offset) :
    sliceTo text offset = .ok (before text offset) := by
  obtain ⟨cut, found⟩ := Option.isSome_iff_exists.mp boundary
  unfold sliceTo before
  rw [found]
  rfl

theorem sliceFrom_ok {text : List Char} {offset : Nat} (boundary : Boundary text offset) :
    sliceFrom text offset = .ok (after text offset) := by
  obtain ⟨cut, found⟩ := Option.isSome_iff_exists.mp boundary
  unfold sliceFrom after getFrom
  rw [found]
  rfl

theorem after_append (front back : List Char) : after (front ++ back) (byteLength front) = back := by
  unfold after
  rw [getFrom_append]
  rfl

/-! ### Lengths of parts -/

theorem byteLength_sublist {part text : List Char} (sub : part.Sublist text) :
    byteLength part ≤ byteLength text := by
  induction sub with
  | slnil => exact Nat.le_refl 0
  | cons c _ inductionHypothesis =>
      rw [byteLength_cons]
      omega
  | cons_cons c _ inductionHypothesis =>
      rw [byteLength_cons, byteLength_cons]
      omega

theorem length_le_byteLength (text : List Char) : text.length ≤ byteLength text := by
  induction text with
  | nil => exact Nat.le_refl 0
  | cons c rest inductionHypothesis =>
      have positive := c.utf8Size_pos
      rw [byteLength_cons, List.length_cons]
      omega

theorem trim_sublist (text : List Char) : (trim text).Sublist text :=
  (List.rdropWhile_prefix isWhitespace _).sublist.trans (List.dropWhile_sublist isWhitespace)

theorem byteLength_trim_le (text : List Char) : byteLength (trim text) ≤ byteLength text :=
  byteLength_sublist (trim_sublist text)

theorem byteLength_before_le (text : List Char) (offset : Nat) :
    byteLength (before text offset) ≤ offset := by
  unfold before
  rcases found : cutAt offset text with _ | ⟨front, back⟩
  · exact Nat.zero_le _
  · exact (cutAt_eq_some.mp found).2.ge

theorem byteLength_after_le (text : List Char) (offset : Nat) :
    byteLength (after text offset) ≤ byteLength text - offset := by
  unfold after getFrom
  rcases found : cutAt offset text with _ | ⟨front, back⟩
  · exact Nat.zero_le _
  · obtain ⟨rfl, rfl⟩ := cutAt_eq_some.mp found
    rw [byteLength_append, Nat.add_sub_cancel_left]
    rfl

/-! ### Computations that return -/

/-- The computation returns a value. -/
def Returns {α : Type} (computed : Except Fault α) : Prop := ∃ value, computed = .ok value

section Returns

variable {α β : Type} {text : List Char} {offset : Nat}

@[simp] theorem returns_ok (value : α) : Returns (.ok value : Except Fault α) := ⟨value, rfl⟩

@[simp] theorem returns_pure (value : α) : Returns (pure value : Except Fault α) := ⟨value, rfl⟩

theorem not_returns_error (fault : Fault) : ¬ Returns (.error fault : Except Fault α) :=
  fun ⟨_, impossible⟩ => by cases impossible

theorem ok_of_bind {first : Except Fault α} {next : α → Except Fault β} {value : β}
    (returned : first >>= next = .ok value) : ∃ middle, first = .ok middle ∧ next middle = .ok value := by
  rcases first with fault | middle
  · cases returned
  · exact ⟨middle, rfl, returned⟩

theorem returns_bind {first : Except Fault α} {next : α → Except Fault β} :
    Returns (first >>= next) ↔ ∃ value, first = .ok value ∧ Returns (next value) := by
  rcases first with fault | value
  · exact iff_of_false (not_returns_error fault) fun ⟨_, impossible, _⟩ => by cases impossible
  · constructor
    · exact fun returned => ⟨value, rfl, returned⟩
    · rintro ⟨other, same, returned⟩
      obtain rfl := Except.ok.inj same
      exact returned

theorem returns_sliceTo_bind {next : List Char → Except Fault β} :
    Returns (sliceTo text offset >>= next) ↔
      Boundary text offset ∧ Returns (next (before text offset)) := by
  by_cases boundary : Boundary text offset
  · rw [sliceTo_ok boundary, and_iff_right boundary]
    rfl
  · rw [sliceTo_panics boundary]
    exact iff_of_false (not_returns_error _) fun both => boundary both.1

theorem returns_sliceFrom_bind {next : List Char → Except Fault β} :
    Returns (sliceFrom text offset >>= next) ↔
      Boundary text offset ∧ Returns (next (after text offset)) := by
  by_cases boundary : Boundary text offset
  · rw [sliceFrom_ok boundary, and_iff_right boundary]
    rfl
  · rw [sliceFrom_panics boundary]
    exact iff_of_false (not_returns_error _) fun both => boundary both.1

end Returns

/-! ### Occurrences -/

variable {pattern text : List Char} {offset : Nat}

/-- What is found is there. -/
theorem find_eq_some (found : find pattern text = some offset) :
    ∃ front back, text = front ++ pattern ++ back ∧ offset = byteLength front := by
  induction text generalizing offset with
  | nil =>
      unfold find at found
      split at found
      · next none =>
          subst none
          exact ⟨[], [], rfl, (Option.some.inj found).symm⟩
      · cases found
  | cons c rest inductionHypothesis =>
      unfold find at found
      split at found
      · next here =>
          obtain ⟨back, whole⟩ := List.isPrefixOf_iff_prefix.mp here
          exact ⟨[], back, whole.symm, (Option.some.inj found).symm⟩
      · obtain ⟨offset', tail, rfl⟩ := Option.map_eq_some_iff.mp found
        obtain ⟨front, back, rfl, rfl⟩ := inductionHypothesis tail
        exact ⟨c :: front, back, rfl, (Nat.add_comm _ _).trans (byteLength_cons c front).symm⟩

/-- A text can be cut where a pattern was found in it, and after it. -/
theorem find_boundary (found : find pattern text = some offset) :
    Boundary text offset ∧ Boundary text (offset + byteLength pattern) := by
  obtain ⟨front, back, rfl, rfl⟩ := find_eq_some found
  refine ⟨?_, ?_⟩
  · rw [List.append_assoc]
    exact boundary_append front _
  · rw [← byteLength_append]
    exact boundary_append _ back

theorem find_le (found : find pattern text = some offset) :
    offset + byteLength pattern ≤ byteLength text :=
  boundary_le (find_boundary found).2

theorem find_cons (pattern : List Char) (c : Char) (rest : List Char) :
    find pattern (c :: rest) =
      if pattern.isPrefixOf (c :: rest) then some 0
      else (find pattern rest).map (· + c.utf8Size) := rfl

/-- A prefix of a whole that is not longer than its front is a prefix of the front. -/
theorem prefix_front {front back : List Char} (starts : pattern <+: front ++ back)
    (short : pattern.length ≤ front.length) : pattern <+: front :=
  List.prefix_of_prefix_length_le starts (List.prefix_append front back) short

/-- A pattern that occurs in the front is found there first. -/
theorem find_inside {front : List Char} (occurs : pattern <:+: front) (back : List Char) :
    ∃ offset, find pattern (front ++ back) = some offset ∧
      offset + byteLength pattern ≤ byteLength front := by
  induction front with
  | nil =>
      obtain rfl := List.infix_nil.mp occurs
      refine ⟨0, ?_, Nat.le_refl _⟩
      cases back <;> rfl
  | cons c rest inductionHypothesis =>
      rw [List.cons_append, find_cons]
      by_cases here : pattern.isPrefixOf (c :: (rest ++ back)) = true
      · rw [if_pos here]
        obtain ⟨tail, whole⟩ := @prefix_front pattern (c :: rest) back
          (List.isPrefixOf_iff_prefix.mp here) occurs.length_le
        refine ⟨0, rfl, ?_⟩
        rw [← whole, byteLength_append]
        omega
      · rw [if_neg here]
        have later : pattern <:+: rest := by
          rcases List.infix_cons_iff.mp occurs with starts | later
          · exact absurd (List.isPrefixOf_iff_prefix.mpr
              (starts.trans (List.prefix_append (c :: rest) back))) here
          · exact later
        obtain ⟨offset, found, inside⟩ := inductionHypothesis later
        refine ⟨offset + c.utf8Size, by rw [found]; rfl, ?_⟩
        rw [byteLength_cons]
        omega

/-- A pattern that does not occur in the front, nor contains the character that ends it, is
found after it first. -/
theorem find_past {front : List Char} {separator : Char} (absent : ¬ pattern <:+: front)
    (other : separator ∉ pattern) (back : List Char) :
    find pattern (front ++ separator :: back) =
      (find pattern back).map (· + byteLength (front ++ [separator])) := by
  have nonempty : pattern ≠ [] := by
    rintro rfl
    exact absent (List.nil_infix)
  induction front with
  | nil =>
      have away : ¬ pattern.isPrefixOf (separator :: back) = true := by
        intro here
        obtain ⟨tail, whole⟩ := List.isPrefixOf_iff_prefix.mp here
        rcases pattern with _ | ⟨head, rest⟩
        · exact nonempty rfl
        · rw [List.cons_append] at whole
          exact other ((List.cons.inj whole).1 ▸ List.mem_cons_self)
      rw [List.nil_append, find_cons, if_neg away]
      rfl
  | cons c rest inductionHypothesis =>
      have away : ¬ pattern.isPrefixOf (c :: (rest ++ separator :: back)) = true := by
        intro here
        have starts := List.isPrefixOf_iff_prefix.mp here
        by_cases short : pattern.length ≤ (c :: rest).length
        · exact absent (@prefix_front pattern (c :: rest) (separator :: back) starts short).isInfix
        · refine other (List.IsPrefix.subset (List.prefix_of_prefix_length_le
            (List.prefix_append (c :: rest ++ [separator]) back) (by simpa using starts) ?_) ?_)
          · simp only [List.length_append, List.length_singleton]
            omega
          · simp
      have later : ¬ pattern <:+: rest := fun occurs => absent (occurs.trans (List.suffix_cons c rest).isInfix)
      rw [List.cons_append, find_cons, if_neg away, inductionHypothesis later, Option.map_map,
        List.cons_append, byteLength_cons]
      congr 1
      funext offset
      simp only [Function.comp_apply]
      omega

/-- A pattern is found at the start of a text that starts with it. -/
theorem find_start (pattern back : List Char) : find pattern (pattern ++ back) = some 0 := by
  rcases pattern with _ | ⟨c, rest⟩
  · cases back <;> rfl
  · rw [List.cons_append, find_cons, if_pos]
    exact List.isPrefixOf_iff_prefix.mpr (List.prefix_append (c :: rest) back)

/-- The last occurrence of a character that ends the text. -/
theorem rfindChar_last (front : List Char) (c : Char) :
    rfindChar c (front ++ [c]) = some (byteLength front) := by
  induction front with
  | nil => simp [rfindChar]
  | cons head rest inductionHypothesis =>
      rw [List.cons_append]
      unfold rfindChar
      rw [inductionHypothesis, byteLength_cons]
      exact congrArg some (Nat.add_comm _ _)

/-- A pattern is missing exactly if it does not occur. -/
theorem find_eq_none_iff : find pattern text = none ↔ ¬ pattern <:+: text := by
  constructor
  · intro missing occurs
    obtain ⟨offset, found, -⟩ := find_inside occurs []
    rw [List.append_nil, missing] at found
    cases found
  · intro absent
    rcases found : find pattern text with _ | offset
    · rfl
    · obtain ⟨front, back, whole, -⟩ := find_eq_some found
      exact absurd ⟨front, back, whole.symm⟩ absent

/-- A pattern is on one side of a character that it does not contain, if anywhere. -/
theorem infix_separated_iff {front back : List Char} {separator : Char}
    (other : separator ∉ pattern) :
    pattern <:+: front ++ separator :: back ↔ pattern <:+: front ∨ pattern <:+: back := by
  constructor
  · intro occurs
    by_cases inside : pattern <:+: front
    · exact Or.inl inside
    · refine Or.inr (Classical.byContradiction fun outside => ?_)
      refine find_eq_none_iff.mp ?_ occurs
      rw [find_past inside other, find_eq_none_iff.mpr outside]
      rfl
  · rintro (inside | inside)
    · exact inside.trans (List.prefix_append _ _).isInfix
    · exact inside.trans ((List.suffix_cons separator back).trans (List.suffix_append _ _)).isInfix

/-- A pattern is found after a front that does not have its first character. -/
theorem find_first {front : List Char} {c : Char} (absent : c ∉ front) (rest back : List Char) :
    find (c :: rest) (front ++ (c :: rest ++ back)) = some (byteLength front) := by
  induction front with
  | nil => exact find_start (c :: rest) back
  | cons head tail inductionHypothesis =>
      have different : c ≠ head := fun same => absent (same ▸ List.mem_cons_self)
      have later := inductionHypothesis fun member => absent (List.mem_cons_of_mem _ member)
      have away : ¬ (c :: rest).isPrefixOf (head :: (tail ++ (c :: rest ++ back))) = true := by
        simp [List.isPrefixOf, different]
      rw [List.cons_append, find_cons, if_neg away, later, byteLength_cons]
      exact congrArg some (Nat.add_comm _ _)

/-- The first occurrence of a character. -/
theorem find_char {front : List Char} {c : Char} (absent : c ∉ front) (back : List Char) :
    find [c] (front ++ c :: back) = some (byteLength front) :=
  find_first absent [] back

/-- A text without its last character is shorter in bytes. -/
theorem byteLength_dropLast {front : List Char} (nonempty : front ≠ []) :
    byteLength front.dropLast < byteLength front := by
  have positive := (front.getLast nonempty).utf8Size_pos
  have whole := congrArg byteLength (List.dropLast_append_getLast nonempty)
  rw [byteLength_append, byteLength_cons, byteLength_nil] at whole
  omega

/-- Of two beginnings of a text the one with fewer bytes begins the other. -/
theorem prefix_of_bytes {shorter longer : List Char} (begins : shorter <+: text)
    (begins' : longer <+: text) (bytes : byteLength shorter ≤ byteLength longer) :
    shorter <+: longer := by
  rcases List.prefix_or_prefix_of_prefix begins begins' with starts | ⟨tail, rfl⟩
  · exact starts
  · rw [byteLength_append] at bytes
    have none := length_le_byteLength tail
    obtain rfl := List.length_eq_zero_iff.mp (by omega : tail.length = 0)
    exact (List.append_nil longer).symm ▸ List.prefix_rfl

/-- A pattern is found where it stands, if it stands nowhere before that. -/
theorem find_at {front : List Char} (first : ¬ pattern <:+: (front ++ pattern).dropLast)
    (back : List Char) : find pattern (front ++ pattern ++ back) = some (byteLength front) := by
  obtain ⟨offset, found, inside⟩ := find_inside (List.suffix_append front pattern).isInfix back
  obtain ⟨ahead, behind, whole, rfl⟩ := find_eq_some found
  rw [byteLength_append] at inside
  rw [found]
  refine congrArg (some ∘ byteLength) ?_
  have starts : ahead <+: front := by
    refine @prefix_of_bytes (front ++ pattern ++ back) _ _ ?_ ?_ (by omega)
    · rw [whole, List.append_assoc]
      exact List.prefix_append _ _
    · rw [List.append_assoc]
      exact List.prefix_append _ _
  obtain ⟨tail, rfl⟩ := starts
  rcases tail with _ | ⟨c, tail⟩
  · rw [List.append_nil]
  · -- an occurrence that starts earlier ends before the last character
    refine absurd ?_ first
    have begins : ahead ++ pattern <+: (ahead ++ c :: tail ++ pattern).dropLast := by
      refine @List.prefix_of_prefix_length_le _ _ _ (ahead ++ c :: tail ++ pattern ++ back) ?_ ?_ ?_
      · rw [whole]
        exact List.prefix_append _ _
      · exact (List.dropLast_prefix _).trans (List.prefix_append _ _)
      · simp only [List.length_append, List.length_cons, List.length_dropLast]
        omega
    exact (List.suffix_append ahead pattern).isInfix.trans begins.isInfix

/-- What is found stands there, and nowhere before that. -/
theorem find_eq_first (nonempty : pattern ≠ []) (found : find pattern text = some offset) :
    ∃ front back, text = front ++ pattern ++ back ∧ offset = byteLength front ∧
      ¬ pattern <:+: (front ++ pattern).dropLast := by
  obtain ⟨front, back, rfl, rfl⟩ := find_eq_some found
  refine ⟨front, back, rfl, rfl, fun earlier => ?_⟩
  have nonempty' : front ++ pattern ≠ [] := List.append_ne_nil_of_right_ne_nil front nonempty
  obtain ⟨tail, whole⟩ := List.dropLast_prefix (front ++ pattern)
  obtain ⟨offset, other, inside⟩ := find_inside earlier (tail ++ back)
  rw [← List.append_assoc, whole, found] at other
  obtain rfl := Option.some.inj other
  have shorter := byteLength_dropLast nonempty'
  rw [byteLength_append] at shorter
  omega

/-- The part between two beginnings of a text. -/
theorem getRange_append (front middle back : List Char) :
    getRange (front ++ middle ++ back) (byteLength front) (byteLength (front ++ middle)) =
      some middle := by
  unfold getRange
  rw [byteLength_append, if_pos (Nat.le_add_right _ _), Nat.add_sub_cancel_left, List.append_assoc,
    cutAt_append]
  dsimp only
  rw [cutAt_append]
  rfl

/-! ### ASCII texts -/

/-- Every character is ASCII. -/
def Ascii (text : List Char) : Prop := ∀ c ∈ text, c.toNat < 128

theorem ascii_of_all {text : List Char} (all : text.all (fun c => decide (c.toNat < 128)) = true) :
    Ascii text :=
  fun c member => of_decide_eq_true (List.all_eq_true.mp all c member)

/-- What holds of each of the 128 characters. -/
theorem forall_ascii {property : Char → Prop} (each : ∀ code : Fin 128, property (Char.ofNat code))
    {c : Char} (ascii : c.toNat < 128) : property c := by
  have holds := each ⟨c.toNat, ascii⟩
  rwa [Char.ofNat_toNat] at holds

theorem utf8Size_ascii {c : Char} (ascii : c.toNat < 128) : c.utf8Size = 1 :=
  @forall_ascii (fun c => c.utf8Size = 1) (by decide) c ascii

theorem toNat_toUpper_lt {c : Char} (ascii : c.toNat < 128) : c.toUpper.toNat < 128 :=
  @forall_ascii (fun c => c.toUpper.toNat < 128) (by decide) c ascii

namespace Ascii

variable (ascii : Ascii text)

include ascii

theorem bytes : byteLength text = text.length := by
  induction text with
  | nil => rfl
  | cons c rest inductionHypothesis =>
      rw [byteLength_cons, utf8Size_ascii (ascii c List.mem_cons_self),
        inductionHypothesis fun other member => ascii other (List.mem_cons_of_mem _ member),
        List.length_cons, Nat.add_comm]

theorem sublist {part : List Char} (sub : part.Sublist text) : Ascii part :=
  fun c member => ascii c (sub.subset member)

theorem boundary {offset : Nat} (inside : offset ≤ text.length) : Boundary text offset := by
  refine boundary_iff.mpr ⟨text.take offset, text.drop offset, (List.take_append_drop _ _).symm, ?_⟩
  rw [bytes (ascii.sublist (List.take_sublist _ _)), List.length_take_of_le inside]

theorem toUppercase : Ascii (toUppercase text) := by
  rw [toUppercase_ascii ascii]
  intro c member
  obtain ⟨lower, found, rfl⟩ := List.mem_map.mp member
  exact toNat_toUpper_lt (ascii lower found)

theorem toUppercase_length : (Foundation.toUppercase text).length = text.length := by
  rw [toUppercase_ascii ascii, List.length_map]

theorem trim : Ascii (trim text) :=
  ascii.sublist (trim_sublist text)

theorem after (offset : Nat) : Ascii (after text offset) := by
  unfold Foundation.after getFrom
  rcases found : cutAt offset text with _ | ⟨front, back⟩
  · exact fun _ impossible => absurd impossible List.not_mem_nil
  · obtain ⟨rfl, -⟩ := cutAt_eq_some.mp found
    exact ascii.sublist (List.sublist_append_right _ _)

end Ascii

end MukhiDb.Foundation
