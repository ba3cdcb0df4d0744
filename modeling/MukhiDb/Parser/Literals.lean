import MukhiDb.Model.Parser

/-!
Contract: names and literals as they are written in statements.

Owns: keywords found in front of a space, and after it; names of letters, digits and
underscores; integers, and texts between single quotes; what reading a literal gives,
and how long a text is that is read as one.

Does not own: the statements they stand in.
-/

namespace MukhiDb.Model

open MukhiDb.Foundation

namespace Parser

/-! ### Keywords after a name -/

/-- A word without spaces that is not in the front is found after the space first. -/
theorem findWord_past {word front : List Char} (absent : ¬ word <:+: toUppercase front)
    (unspaced : ' ' ∉ word) (back : List Char) :
    findWord word (front ++ ' ' :: back) =
      (findWord word back).map (· + byteLength (toUppercase front ++ [' '])) := by
  have space : upperChar ' ' = [' '] := rfl
  unfold findWord
  rw [toUppercase_append, toUppercase_cons, space, List.singleton_append,
    find_past absent unspaced]

/-- A word that is in the front is found there first. -/
theorem findWord_inside {word front : List Char} (occurs : word <:+: toUppercase front)
    (back : List Char) :
    ∃ offset, findWord word (front ++ back) = some offset ∧
      offset + byteLength word ≤ byteLength (toUppercase front) := by
  unfold findWord
  rw [toUppercase_append]
  exact find_inside occurs (toUppercase back)

/-- A word in capitals is found where the text starts with it. -/
theorem findWord_start {word : List Char} (capital : toUppercase word = word) (back : List Char) :
    findWord word (word ++ back) = some 0 := by
  unfold findWord
  rw [toUppercase_append, capital, find_start]

/-- A word is missing exactly if it is not in the uppercased text. -/
theorem findWord_eq_none_iff {word text : List Char} :
    findWord word text = none ↔ ¬ word <:+: toUppercase text := find_eq_none_iff

/-- A word is on one side of a character that it does not contain, if anywhere. -/
theorem occurs_separated {word front back : List Char} {c : Char} (capital : upperChar c = [c])
    (other : c ∉ word) :
    word <:+: toUppercase (front ++ c :: back) ↔
      word <:+: toUppercase front ∨ word <:+: toUppercase back := by
  rw [toUppercase_append, toUppercase_cons, capital, List.singleton_append,
    infix_separated_iff other]

/-- Uppercasing an ASCII text keeps its length in bytes. -/
theorem byteLength_toUppercase {text : List Char} (ascii : Ascii text) :
    byteLength (toUppercase text) = byteLength text := by
  rw [ascii.toUppercase.bytes, ascii.toUppercase_length, ascii.bytes]

/-! ### Names -/

/-- An ASCII letter, a digit or an underscore. -/
def isNameChar (c : Char) : Bool := c.isAlphanum || c = '_'

/-- A nonempty name of ASCII letters, digits and underscores. -/
structure Name where
  chars : List Char
  nonempty : chars ≠ []
  word : ∀ c ∈ chars, isNameChar c = true

theorem isNameChar_ascii {c : Char} (name : isNameChar c = true) : c.toNat < 128 := by
  unfold isNameChar Char.isAlphanum Char.isAlpha Char.isUpper Char.isLower Char.isDigit at name
  simp only [Bool.or_eq_true, decide_eq_true_eq, Bool.and_eq_true, ge_iff_le,
    UInt32.le_iff_toNat_le] at name
  change c.val.toNat < 128
  rcases name with ((⟨-, below⟩ | ⟨-, below⟩) | ⟨-, below⟩) | rfl
  · exact Nat.lt_of_le_of_lt below (by decide)
  · exact Nat.lt_of_le_of_lt below (by decide)
  · exact Nat.lt_of_le_of_lt below (by decide)
  · decide

theorem isNameChar_not_whitespace {c : Char} (name : isNameChar c = true) :
    isWhitespace c = false :=
  @forall_ascii (fun c => isNameChar c = true → isWhitespace c = false) (by decide) c
    (isNameChar_ascii name) name

namespace Name

variable (name : Name)

/-- The name as a text. -/
def text : String := String.ofList name.chars

theorem ascii : Ascii name.chars := fun c member => isNameChar_ascii (name.word c member)

theorem trimmed : Trimmed name.chars :=
  trimmed_of_none fun c member => isNameChar_not_whitespace (name.word c member)

theorem not_mem {c : Char} (other : isNameChar c = false) : c ∉ name.chars := by
  intro member
  rw [name.word c member] at other
  cases other

end Name

/-! ### Literals -/

/-- An integer, or a text without quote characters. -/
inductive Literal where
  | integer (n : Int64)
  | text (chars : List Char) (unquoted : '\'' ∉ chars ∧ '"' ∉ chars)

namespace Literal

/-- The characters of the literal in a statement. -/
def written : Literal → List Char
  | integer n => decimal n
  | text chars _ => '\'' :: chars ++ ['\'']

/-- The value that the literal stands for. -/
def value : Literal → Value
  | integer n => .integer n
  | text chars _ => .text (String.ofList chars)

variable (literal : Literal)

theorem written_ne_nil : literal.written ≠ [] := by
  cases literal with
  | integer n => exact decimal_ne_nil n
  | text chars _ => exact nofun

theorem trimmed : Trimmed literal.written := by
  cases literal with
  | integer n =>
      refine trimmed_of_none fun c member => ?_
      rcases mem_decimal member with rfl | digit
      · decide
      · exact isNameChar_not_whitespace (by simp [isNameChar, Char.isAlphanum, digit])
  | text chars _ =>
      have quote : Trimmed ['\''] := trimmed_of_ends rfl rfl rfl rfl
      exact @Trimmed.between ['\''] ['\''] quote quote nofun nofun chars

theorem trimMatches_sublist (c : Char) (chars : List Char) :
    (trimMatches c chars).Sublist chars :=
  (List.rdropWhile_prefix _ _).sublist.trans (List.dropWhile_sublist _)

theorem trimMatches_absent {chars : List Char} {c : Char} (absent : c ∉ chars) :
    trimMatches c chars = chars := by
  have front : chars.dropWhile (· = c) = chars := by
    cases chars with
    | nil => rfl
    | cons head rest =>
        have different : head ≠ c := fun same => absent (same ▸ List.mem_cons_self)
        exact List.dropWhile_cons_of_neg (by simpa using different)
  unfold trimMatches
  rw [front, List.rdropWhile_eq_self_iff]
  intro nonempty
  rw [decide_eq_true_eq]
  exact fun same => absent (same ▸ List.getLast_mem nonempty)

theorem trimMatches_quoted {chars : List Char} (unquoted : '\'' ∉ chars) :
    trimMatches '\'' ('\'' :: chars ++ ['\'']) = chars := by
  have front : ('\'' :: chars ++ ['\'']).dropWhile (· = '\'') =
      (chars ++ ['\'']).dropWhile (· = '\'') := rfl
  unfold trimMatches
  rw [front]
  cases chars with
  | nil => rfl
  | cons head rest =>
      have different : head ≠ '\'' := fun same => unquoted (same ▸ List.mem_cons_self)
      rw [List.cons_append, List.dropWhile_cons_of_neg (by simpa using different), ← List.cons_append,
        List.rdropWhile_concat_pos _ _ _ (by decide), List.rdropWhile_eq_self_iff]
      intro nonempty
      rw [decide_eq_true_eq]
      exact fun same => unquoted (same ▸ List.getLast_mem nonempty)

/-- A literal is read as the value it stands for. -/
theorem valueOf_written : valueOf literal.written = literal.value := by
  cases literal with
  | integer n =>
      unfold valueOf
      rw [show written (integer n) = decimal n from rfl, readInt64_decimal]
      rfl
  | text chars unquoted =>
      have unread : readInt64 (written (text chars unquoted)) = none := rfl
      unfold valueOf
      rw [unread]
      dsimp only
      rw [show written (text chars unquoted) = '\'' :: chars ++ ['\''] from rfl,
        trimMatches_quoted unquoted.1, trimMatches_absent unquoted.2]
      rfl

/-- What is read as a literal is not shorter than it, its quotes apart. -/
theorem written_le {raw : List Char} (read : valueOf raw = literal.value) :
    byteLength literal.written ≤ byteLength raw + 2 := by
  cases literal with
  | integer n =>
      unfold valueOf at read
      rcases readRaw : readInt64 raw with _ | m
      · rw [readRaw] at read
        cases read
      · rw [readRaw] at read
        obtain rfl : m = n := Value.integer.inj read
        have ascii : Ascii (decimal m) := fun c member => by
          rcases mem_decimal member with rfl | digit
          · decide
          · exact isNameChar_ascii (by simp [isNameChar, Char.isAlphanum, digit])
        have short := readInt64_shortest readRaw
        have bytes : raw.length ≤ byteLength raw := length_le_byteLength raw
        rw [show written (integer m) = decimal m from rfl, ascii.bytes]
        omega
  | text chars unquoted =>
      unfold valueOf at read
      rcases readRaw : readInt64 raw with _ | m
      · rw [readRaw] at read
        have same := String.ofList_injective (Value.text.inj read)
        have part : chars.Sublist raw := by
          rw [← same]
          exact (trimMatches_sublist _ _).trans (trimMatches_sublist _ _)
        have bytes := byteLength_sublist part
        have quote : byteLength ['\''] = 1 := by decide
        rw [show written (text chars unquoted) = ['\''] ++ chars ++ ['\''] from rfl,
          byteLength_append, byteLength_append, quote]
        omega
      · rw [readRaw] at read
        cases read

end Literal

end Parser

end MukhiDb.Model
