import MukhiDb.Foundation.Bytes

/-!
Contract: text as UTF-8 bytes.

Owns: the bytes of a text; the lossy reading of arbitrary bytes, which puts one
replacement character for each maximal ill-formed part; and that the bytes of a
text are read back as the text.

Does not own: where texts are stored or sent.
-/

namespace MukhiDb.Foundation

/-- `str::as_bytes`. -/
def utf8Bytes (text : String) : Bytes :=
  text.toList.flatMap String.utf8EncodeChar

/-- The ranges in which the bytes after `first` have to lie, in turn. No range
when `first` is ASCII or starts no character. -/
def continuationRanges (first : UInt8) : List (UInt8 × UInt8) :=
  if first < 0xC2 then []
  else if first < 0xE0 then [(0x80, 0xBF)]
  else if first = 0xE0 then [(0xA0, 0xBF), (0x80, 0xBF)]
  else if first = 0xED then [(0x80, 0x9F), (0x80, 0xBF)]
  else if first < 0xF0 then [(0x80, 0xBF), (0x80, 0xBF)]
  else if first = 0xF0 then [(0x90, 0xBF), (0x80, 0xBF), (0x80, 0xBF)]
  else if first < 0xF4 then [(0x80, 0xBF), (0x80, 0xBF), (0x80, 0xBF)]
  else if first = 0xF4 then [(0x80, 0x8F), (0x80, 0xBF), (0x80, 0xBF)]
  else []

/-- How many of the next bytes lie in their ranges, up to the first that does not. -/
def continued : List (UInt8 × UInt8) → Bytes → Nat
  | (low, high) :: ranges, byte :: rest =>
      if low ≤ byte ∧ byte ≤ high then continued ranges rest + 1 else 0
  | _, _ => 0

/-- The characters of a byte string, with one unit of fuel for each of them. An
ill-formed part is the longest start of a character that stands there. -/
def lossyChars : (fuel : Nat) → Bytes → List Char
  | 0, _ => []
  | _, [] => []
  | fuel + 1, first :: rest =>
      match (first :: rest).toByteArray.utf8DecodeChar? 0 with
      | some char => char :: lossyChars fuel ((first :: rest).drop char.utf8Size)
      | none =>
          '\uFFFD' :: lossyChars fuel (rest.drop (continued (continuationRanges first) rest))

/-- `String::from_utf8_lossy`. Each character takes a byte at least. -/
def fromUtf8Lossy (bytes : Bytes) : String :=
  String.ofList (lossyChars bytes.length bytes)

example : fromUtf8Lossy [0x61, 0xE2, 0x82, 0x62, 0xED, 0xA0, 0xC3, 0xA9] = "a\uFFFDb\uFFFD\uFFFDé" := by
  decide +kernel

@[simp] theorem lossyChars_nil (fuel : Nat) : lossyChars fuel [] = [] := by
  cases fuel <;> rfl

/-- Whole characters are read as they are, whatever follows. -/
theorem lossyChars_append (chars : List Char) (tail : Bytes) (fuel : Nat) :
    lossyChars (chars.length + fuel) (chars.flatMap String.utf8EncodeChar ++ tail) =
      chars ++ lossyChars fuel tail := by
  induction chars with
  | nil => rw [List.length_nil, Nat.zero_add, List.flatMap_nil, List.nil_append, List.nil_append]
  | cons char rest inductionHypothesis =>
      rw [List.flatMap_cons, List.append_assoc]
      rcases encoded : String.utf8EncodeChar char ++ (rest.flatMap String.utf8EncodeChar ++ tail) with
        _ | ⟨first, others⟩
      · exact absurd (List.append_eq_nil_iff.mp encoded).1 String.utf8EncodeChar_ne_nil
      · have decoded : (first :: others).toByteArray.utf8DecodeChar? 0 = some char := by
          rw [← encoded, List.toByteArray_append]
          exact ByteArray.utf8DecodeChar?_utf8EncodeChar_append
        have dropped : (first :: others).drop char.utf8Size =
            rest.flatMap String.utf8EncodeChar ++ tail := by
          rw [← encoded, ← String.length_utf8EncodeChar]
          exact List.drop_left
        have fuelled : (char :: rest).length + fuel = rest.length + fuel + 1 := by
          rw [List.length_cons]
          omega
        rw [fuelled]
        simp only [lossyChars, decoded, dropped]
        rw [inductionHypothesis, List.cons_append]

theorem lossyChars_encoded (chars : List Char) (fuel : Nat) (enough : chars.length ≤ fuel) :
    lossyChars fuel (chars.flatMap String.utf8EncodeChar) = chars := by
  have whole := lossyChars_append chars [] (fuel - chars.length)
  rw [Nat.add_sub_cancel' enough, List.append_nil, lossyChars_nil, List.append_nil] at whole
  exact whole

theorem length_le_encoded (chars : List Char) :
    chars.length ≤ (chars.flatMap String.utf8EncodeChar).length := by
  induction chars with
  | nil => exact Nat.le_refl _
  | cons char rest inductionHypothesis =>
      have some := List.length_pos_iff.mpr (@String.utf8EncodeChar_ne_nil char)
      rw [List.flatMap_cons, List.length_append, List.length_cons]
      omega

/-- The bytes of a text are read back as the text. -/
@[simp] theorem fromUtf8Lossy_utf8Bytes (text : String) : fromUtf8Lossy (utf8Bytes text) = text := by
  unfold fromUtf8Lossy utf8Bytes
  rw [lossyChars_encoded _ _ (length_le_encoded _), String.ofList_toList]

/-! ### Texts whose bytes were cut -/

/-- The start of a character that was cut is no character. -/
theorem utf8DecodeChar?_cut {char : Char} {part missing : Bytes}
    (encoded : String.utf8EncodeChar char = part ++ missing) (cut : missing ≠ []) :
    part.toByteArray.utf8DecodeChar? 0 = none := by
  rcases decoded : part.toByteArray.utf8DecodeChar? 0 with _ | found
  · rfl
  · have whole := @ByteArray.utf8DecodeChar?_append_eq_some part.toByteArray 0 found decoded
      missing.toByteArray
    have own := @ByteArray.utf8DecodeChar?_utf8EncodeChar_append ByteArray.empty char
    rw [ByteArray.append_empty, encoded, List.toByteArray_append, whole] at own
    obtain rfl := Option.some.inj own
    have fits := ByteArray.le_size_of_utf8DecodeChar?_eq_some decoded
    have length := congrArg List.length encoded
    have missed := List.length_pos_iff.mpr cut
    rw [String.length_utf8EncodeChar, List.length_append] at length
    rw [List.size_toByteArray] at fits
    omega

/-- Bytes of a text that were cut: whole characters, and the start of the next one. -/
theorem exists_cut (chars : List Char) {count : Nat}
    (short : count < (chars.flatMap String.utf8EncodeChar).length) :
    ∃ front char rest part missing, chars = front ++ char :: rest ∧
      (chars.flatMap String.utf8EncodeChar).take count =
        front.flatMap String.utf8EncodeChar ++ part ∧
      String.utf8EncodeChar char = part ++ missing ∧ missing ≠ [] := by
  induction chars generalizing count with
  | nil => exact absurd short (Nat.not_lt_zero _)
  | cons first others inductionHypothesis =>
      rw [List.flatMap_cons] at short ⊢
      by_cases inside : count < (String.utf8EncodeChar first).length
      · refine ⟨[], first, others, (String.utf8EncodeChar first).take count,
          (String.utf8EncodeChar first).drop count, rfl, ?_, (List.take_append_drop _ _).symm, ?_⟩
        · rw [List.take_append_of_le_length (Nat.le_of_lt inside)]
          rfl
        · rw [ne_eq, List.drop_eq_nil_iff]
          omega
      · rw [List.length_append] at short
        obtain ⟨front, char, rest, part, missing, split, taken, encoded, cut⟩ :=
          @inductionHypothesis (count - (String.utf8EncodeChar first).length) (by omega)
        refine ⟨first :: front, char, rest, part, missing, by rw [split]; rfl, ?_, encoded, cut⟩
        rw [List.take_append, List.take_of_length_le (Nat.le_of_not_lt inside), taken,
          List.flatMap_cons, List.append_assoc]

theorem lossyChars_cutReplacement {fuel : Nat} {part missing : Bytes}
    (encoded : String.utf8EncodeChar '\uFFFD' = part ++ missing) (started : part ≠ [])
    (cut : missing ≠ []) : lossyChars (fuel + 1) part = ['\uFFFD'] := by
  have undecoded := utf8DecodeChar?_cut encoded cut
  have bytes : String.utf8EncodeChar '\uFFFD' = [0xEF, 0xBF, 0xBD] := by decide
  rw [bytes] at encoded
  rcases part with _ | ⟨first, _ | ⟨second, _ | ⟨third, others⟩⟩⟩
  · exact absurd rfl started
  · obtain ⟨rfl, -⟩ := List.cons.inj encoded
    rw [lossyChars, undecoded]
    exact congrArg _ (lossyChars_nil fuel)
  · obtain ⟨rfl, rest⟩ := List.cons.inj encoded
    obtain ⟨rfl, -⟩ := List.cons.inj rest
    rw [lossyChars, undecoded]
    exact congrArg _ (lossyChars_nil fuel)
  · obtain ⟨-, rest⟩ := List.cons.inj encoded
    obtain ⟨-, rest⟩ := List.cons.inj rest
    obtain ⟨-, encoded⟩ := List.cons.inj rest
    exact absurd (List.append_eq_nil_iff.mp encoded.symm).2 cut

/-- A text whose bytes were cut is read back as it was only if the cut went through a
replacement character at its end. -/
theorem fromUtf8Lossy_take_iff (text : String) {count : Nat}
    (short : count < (utf8Bytes text).length) :
    fromUtf8Lossy ((utf8Bytes text).take count) = text ↔
      ∃ front, text.toList = front ++ ['\uFFFD'] ∧
        (front.flatMap String.utf8EncodeChar).length < count := by
  obtain ⟨front, char, rest, part, missing, split, taken, encoded, cut⟩ :=
    exists_cut text.toList short
  have length : count = (front.flatMap String.utf8EncodeChar).length + part.length := by
    rw [← List.length_append, ← taken]
    exact (List.length_take_of_le (Nat.le_of_lt short)).symm
  have enough := length_le_encoded front
  have read : (fromUtf8Lossy ((utf8Bytes text).take count)).toList =
      front ++ lossyChars (count - front.length) part := by
    unfold fromUtf8Lossy
    rw [String.toList_ofList, List.length_take_of_le (Nat.le_of_lt short)]
    change lossyChars count ((text.toList.flatMap String.utf8EncodeChar).take count) = _
    rw [taken]
    have whole := lossyChars_append front part (count - front.length)
    rw [Nat.add_sub_cancel' (by omega)] at whole
    exact whole
  have fuelled (started : part ≠ []) : ∃ fuel, count - front.length = fuel + 1 :=
    ⟨count - front.length - 1, by have := List.length_pos_iff.mpr started; omega⟩
  rw [← String.toList_inj, read, split, List.append_cancel_left_eq]
  constructor
  · intro same
    have started : part ≠ [] := by
      rintro rfl
      rw [lossyChars_nil] at same
      cases same
    obtain ⟨fuel, fuelled'⟩ := fuelled started
    have replaced : char = '\uFFFD' := by
      have undecoded := utf8DecodeChar?_cut encoded cut
      rcases part with _ | ⟨first, others⟩
      · exact absurd rfl started
      · rw [fuelled', lossyChars, undecoded] at same
        exact (List.cons.inj same).1.symm
    subst replaced
    rw [fuelled', lossyChars_cutReplacement encoded started cut] at same
    refine ⟨front, by rw [← (List.cons.inj same).2], ?_⟩
    have := List.length_pos_iff.mpr started
    omega
  · rintro ⟨front', split', before⟩
    have encodedLength := congrArg List.length encoded
    rw [List.length_append] at encodedLength
    have missed := List.length_pos_iff.mpr cut
    rcases List.eq_nil_or_concat rest with rfl | ⟨init, last, rfl⟩
    · obtain ⟨rfl, same⟩ := List.append_inj' split' rfl
      obtain rfl := List.singleton_inj.mp same
      have started : part ≠ [] := by
        rintro rfl
        rw [List.length_nil] at length
        omega
      obtain ⟨fuel, fuelled'⟩ := fuelled started
      rw [fuelled', lossyChars_cutReplacement encoded started cut]
    · -- the cut would lie before the last character
      have longer : front ++ char :: init = front' := by
        rw [List.concat_eq_append, ← List.cons_append, ← List.append_assoc] at split'
        exact (List.append_inj' split' rfl).1
      rw [← longer, List.flatMap_append, List.flatMap_cons, List.length_append,
        List.length_append] at before
      omega

end MukhiDb.Foundation
