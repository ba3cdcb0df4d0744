import MukhiDb.Parser.Literals

/-!
Contract: INSERT statements as they are written, and what they are parsed as.

Owns: the values of a list cut at its commas; and the names and texts for which an
INSERT statement is parsed as it is meant.

Does not own: names and literals.
-/

namespace MukhiDb.Model

open MukhiDb.Foundation

namespace Parser

/-! ### Values between commas -/

/-- The values of a text cut at its commas. -/
def valuesOf (text : List Char) : List Value := (text.splitOn ',').map fun v => valueOf (trim v)

theorem valuesOf_comma (front back : List Char) :
    valuesOf (front ++ ',' :: back) = valuesOf front ++ valuesOf back := by
  unfold valuesOf
  rw [List.splitOn_append_cons_self, List.map_append]

theorem valuesOf_space (text : List Char) : valuesOf (' ' :: text) = valuesOf text := by
  unfold valuesOf
  rw [List.splitOn_cons_eq_if_modifyHead, if_neg (by decide)]
  cases text.splitOn ',' with
  | nil => rfl
  | cons head rest => rfl

theorem valuesOf_length_pos (text : List Char) : 0 < (valuesOf text).length := by
  unfold valuesOf
  rw [List.length_map]
  exact List.length_pos_iff.mpr (List.splitOn_ne_nil ',' text)

/-- A literal without a comma is one value. -/
theorem valuesOf_literal {literal : Literal} (uncut : ',' ∉ literal.written) :
    valuesOf literal.written = [literal.value] := by
  unfold valuesOf
  rw [List.splitOn_eq_singleton uncut, List.map_singleton, literal.trimmed.trim,
    literal.valueOf_written]

/-- A literal with a comma is cut into several values. -/
theorem valuesOf_cut {literal : Literal} (cut : ',' ∈ literal.written) :
    2 ≤ (valuesOf literal.written).length := by
  obtain ⟨front, back, whole⟩ := List.append_of_mem cut
  have frontPositive := valuesOf_length_pos front
  have backPositive := valuesOf_length_pos back
  rw [whole, valuesOf_comma, List.length_append]
  omega

/-- Literals with commas between them. -/
def listed (literals : List Literal) : List Char :=
  [',', ' '].intercalate (literals.map Literal.written)

theorem listed_cons (first second : Literal) (rest : List Literal) :
    listed (first :: second :: rest) = first.written ++ [',', ' '] ++ listed (second :: rest) :=
  List.intercalate_cons_cons

theorem listed_ne_nil (first : Literal) (rest : List Literal) : listed (first :: rest) ≠ [] := by
  cases rest with
  | nil =>
      rw [show listed [first] = first.written from List.intercalate_singleton]
      exact first.written_ne_nil
  | cons second rest =>
      rw [listed_cons]
      exact fun empty => first.written_ne_nil
        (List.append_eq_nil_iff.mp (List.append_eq_nil_iff.mp empty).1).1

theorem listed_trimmed (first : Literal) (rest : List Literal) : Trimmed (listed (first :: rest)) := by
  induction rest generalizing first with
  | nil =>
      rw [show listed [first] = first.written from List.intercalate_singleton]
      exact first.trimmed
  | cons second rest inductionHypothesis =>
      rw [listed_cons]
      exact first.trimmed.between (inductionHypothesis second) first.written_ne_nil
        (listed_ne_nil second rest) _

/-- The list is cut into what each of its literals is cut into. -/
theorem valuesOf_listed (first : Literal) (rest : List Literal) :
    valuesOf (listed (first :: rest)) =
      (first :: rest).flatMap fun literal => valuesOf literal.written := by
  induction rest generalizing first with
  | nil =>
      rw [show listed [first] = first.written from List.intercalate_singleton, List.flatMap_singleton]
  | cons second rest inductionHypothesis =>
      rw [listed_cons, List.append_assoc, List.flatMap_cons, ← inductionHypothesis]
      change valuesOf (first.written ++ ',' :: ' ' :: listed (second :: rest)) = _
      rw [valuesOf_comma, valuesOf_space]

theorem flatMap_length_le (literals : List Literal) :
    literals.length ≤ (literals.flatMap fun literal => valuesOf literal.written).length := by
  induction literals with
  | nil => exact Nat.le_refl 0
  | cons literal rest inductionHypothesis =>
      have positive := valuesOf_length_pos literal.written
      rw [List.flatMap_cons, List.length_append, List.length_cons]
      omega

/-- The literals are read back exactly if none of them has a comma. -/
theorem flatMap_valuesOf_iff (literals : List Literal) :
    literals.flatMap (fun literal => valuesOf literal.written) = literals.map Literal.value ↔
      ∀ literal ∈ literals, ',' ∉ literal.written := by
  constructor
  · intro same
    induction literals with
    | nil => exact fun _ impossible => absurd impossible List.not_mem_nil
    | cons literal rest inductionHypothesis =>
        rw [List.flatMap_cons, List.map_cons] at same
        have uncut : ',' ∉ literal.written := by
          intro cut
          have lengths := congrArg List.length same
          have several := valuesOf_cut cut
          have others := flatMap_length_le rest
          rw [List.length_append, List.length_cons, List.length_map] at lengths
          omega
        rw [valuesOf_literal uncut] at same
        intro other member
        rcases List.mem_cons.mp member with rfl | member
        · exact uncut
        · exact inductionHypothesis (List.cons.inj same).2 other member
  · intro uncut
    induction literals with
    | nil => rfl
    | cons literal rest inductionHypothesis =>
        rw [List.flatMap_cons, List.map_cons, valuesOf_literal (uncut literal List.mem_cons_self),
          inductionHypothesis fun other member => uncut other (List.mem_cons_of_mem _ member)]
        rfl

/-! ### INSERT INTO -/

/-- What follows `INSERT INTO`. -/
def insertTail (table : Name) (literals : List Literal) : List Char :=
  table.chars ++ ' ' :: (valuesWord ++ ' ' :: '(' :: listed literals ++ [')'])

/-- `INSERT INTO <table> VALUES (<v1>, ..., <vn>)`. -/
def insertText (table : Name) (literals : List Literal) : String :=
  String.ofList (insertIntoWords ++ ' ' :: insertTail table literals)

section Insert

variable (table : Name) (literals : List Literal)

theorem insertIntoWords_trimmed : Trimmed insertIntoWords :=
  trimmed_of_ends rfl rfl rfl rfl

theorem insertTail_trimmed : Trimmed (insertTail table literals) := by
  have whole : insertTail table literals =
      table.chars ++ (' ' :: (valuesWord ++ ' ' :: '(' :: listed literals)) ++ [')'] := by
    simp [insertTail, List.append_assoc]
  rw [whole]
  exact table.trimmed.between (trimmed_of_ends rfl rfl rfl rfl) table.nonempty (List.cons_ne_nil _ _) _

/-- The statement is parsed as an INSERT. -/
theorem parse_insertText :
    parse (insertText table literals) =
      parseInsert (insertIntoWords ++ ' ' :: insertTail table literals) := by
  have trimmed : Trimmed (insertIntoWords ++ ' ' :: insertTail table literals) := by
    have whole : insertIntoWords ++ ' ' :: insertTail table literals =
        insertIntoWords ++ (' ' :: (table.chars ++ ' ' :: (valuesWord ++ ' ' :: '(' :: listed literals)))
          ++ [')'] := by
      simp [insertTail, List.append_assoc]
    rw [whole]
    exact insertIntoWords_trimmed.between (trimmed_of_ends rfl rfl rfl rfl) (List.cons_ne_nil _ _)
      (List.cons_ne_nil _ _) _
  have upper : toUppercase (insertIntoWords ++ ' ' :: insertTail table literals) =
      insertIntoWords ++ toUppercase (' ' :: insertTail table literals) := by
    rw [toUppercase_append]
    rfl
  have notCreate : ¬ createTableWords.isPrefixOf
      (toUppercase (insertIntoWords ++ ' ' :: insertTail table literals)) = true := by
    rw [upper]
    exact nofun
  have starts : insertIntoWords.isPrefixOf
      (toUppercase (insertIntoWords ++ ' ' :: insertTail table literals)) = true := by
    rw [upper]
    exact List.isPrefixOf_iff_prefix.mpr (List.prefix_append _ _)
  unfold parse insertText
  rw [String.toList_ofList, trimmed.trim]
  unfold parseTrimmed
  dsimp only
  rw [if_neg notCreate, if_pos starts]

/-- The values are what is between the parentheses. -/
theorem insert_range :
    (getRange (insertTail table literals)
      ((find ['('] (insertTail table literals)).getD (byteLength (insertTail table literals)) + 1)
      ((rfindChar ')' (insertTail table literals)).getD (byteLength (insertTail table literals)))).getD
        [] = listed literals := by
  have opened : insertTail table literals =
      (table.chars ++ ' ' :: (valuesWord ++ [' '])) ++ '(' :: (listed literals ++ [')']) := by
    simp [insertTail, List.append_assoc]
  have closed : insertTail table literals =
      ((table.chars ++ ' ' :: (valuesWord ++ [' '])) ++ ['('] ++ listed literals) ++ [')'] := by
    simp [insertTail, List.append_assoc]
  have absent : '(' ∉ table.chars ++ ' ' :: (valuesWord ++ [' ']) := by
    rw [List.mem_append]
    rintro (member | member)
    · exact table.not_mem (by decide) member
    · exact absurd member (by decide)
  have start : find ['('] (insertTail table literals) =
      some (byteLength (table.chars ++ ' ' :: (valuesWord ++ [' ']))) := by
    rw [opened]
    exact find_char absent _
  have stop : rfindChar ')' (insertTail table literals) = some (byteLength
      ((table.chars ++ ' ' :: (valuesWord ++ [' '])) ++ ['('] ++ listed literals)) := by
    rw [closed]
    exact rfindChar_last _ ')'
  have paren : byteLength (table.chars ++ ' ' :: (valuesWord ++ [' '])) + 1 =
      byteLength ((table.chars ++ ' ' :: (valuesWord ++ [' '])) ++ ['(']) :=
    (byteLength_append _ ['(']).symm
  rw [start, stop, Option.getD_some, Option.getD_some, paren, closed, getRange_append]
  rfl

/-- What follows `INSERT INTO` is the table name up to VALUES, and the values. -/
theorem parseInsert_insertText (first : Literal) (rest : List Literal) {front back : List Char}
    (cut : insertTail table (first :: rest) = front ++ back)
    (found : (findWord valuesWord (insertTail table (first :: rest))).getD
      (byteLength (insertTail table (first :: rest))) = byteLength front) :
    parseInsert (insertIntoWords ++ ' ' :: insertTail table (first :: rest)) =
      .ok (.insert (String.ofList (trim front)) (valuesOf (listed (first :: rest)))) := by
  have sliced : sliceTo (insertTail table (first :: rest)) (byteLength front) = .ok front := by
    rw [cut]
    exact sliceTo_append front back
  unfold parseInsert
  rw [sliceFrom_append, ok_bind]
  dsimp only
  rw [trim_space, (insertTail_trimmed table (first :: rest)).trim, found, sliced, ok_bind]
  rw [insert_range, (listed_trimmed first rest).trim]
  rfl

/-- Without VALUES in the name, the name is what stands before VALUES. -/
theorem insert_named (first : Literal) (rest : List Literal)
    (absent : ¬ valuesWord <:+: toUppercase table.chars) :
    parse (insertText table (first :: rest)) =
      .ok (.insert table.text (valuesOf (listed (first :: rest)))) := by
  have cut : insertTail table (first :: rest) =
      (table.chars ++ [' ']) ++ (valuesWord ++ ' ' :: '(' :: listed (first :: rest) ++ [')']) := by
    simp [insertTail, List.append_assoc]
  have found : findWord valuesWord (insertTail table (first :: rest)) =
      some (byteLength (table.chars ++ [' '])) := by
    unfold insertTail
    rw [findWord_past absent (by decide), List.append_assoc, findWord_start (by decide),
      byteLength_append, byteLength_toUppercase table.ascii, ← byteLength_append, Option.map_some,
      Nat.zero_add]
  rw [parse_insertText, parseInsert_insertText table first rest cut (by rw [found]; rfl),
    trim_append_space table.trimmed table.nonempty]
  rfl

/-- With VALUES in the name, the name is cut off there. -/
theorem insert_misnamed (first : Literal) (rest : List Literal)
    (occurs : valuesWord <:+: toUppercase table.chars) :
    ∃ other values, parse (insertText table (first :: rest)) = .ok (.insert other values) ∧
      other ≠ table.text := by
  obtain ⟨offset, found, inside⟩ := findWord_inside occurs
    (' ' :: (valuesWord ++ ' ' :: '(' :: listed (first :: rest) ++ [')']))
  have six : byteLength valuesWord = 6 := by decide
  rw [byteLength_toUppercase table.ascii, table.ascii.bytes, six] at inside
  have short : (table.chars.take offset).length = offset := List.length_take_of_le (by omega)
  have bytes : byteLength (table.chars.take offset) = offset :=
    (table.ascii.sublist (List.take_sublist _ _)).bytes.trans short
  have cut : insertTail table (first :: rest) = table.chars.take offset ++ (table.chars.drop offset ++
      ' ' :: (valuesWord ++ ' ' :: '(' :: listed (first :: rest) ++ [')'])) := by
    rw [← List.append_assoc, List.take_append_drop]
    rfl
  refine ⟨_, _, (parse_insertText table _).trans (parseInsert_insertText table first rest cut ?_), ?_⟩
  · rw [bytes, show findWord valuesWord (insertTail table (first :: rest)) = some offset from found]
    rfl
  · intro same
    have lengths := congrArg List.length (String.ofList_injective same)
    have le := (trim_sublist (table.chars.take offset)).length_le
    omega

/-- An INSERT statement is parsed with its table name and its values exactly if the name does
not contain VALUES, in capitals or not, and no text among the values contains a comma. -/
theorem insert_parsed_iff (nonempty : literals ≠ []) :
    parse (insertText table literals) = .ok (.insert table.text (literals.map Literal.value)) ↔
      ¬ valuesWord <:+: toUppercase table.chars ∧ ∀ literal ∈ literals, ',' ∉ literal.written := by
  rcases literals with _ | ⟨first, rest⟩
  · exact absurd rfl nonempty
  by_cases occurs : valuesWord <:+: toUppercase table.chars
  · refine iff_of_false ?_ fun both => both.1 occurs
    intro parsed
    obtain ⟨other, values, parsed', different⟩ := insert_misnamed table first rest occurs
    exact different (Statement.insert.inj (Except.ok.inj (parsed'.symm.trans parsed))).1
  · rw [insert_named table first rest occurs, valuesOf_listed, and_iff_right occurs,
      ← flatMap_valuesOf_iff]
    constructor
    · exact fun parsed => (Statement.insert.inj (Except.ok.inj parsed)).2
    · exact fun values => by rw [values]

end Insert

/-- The table name `t`. -/
def tableT : Name := ⟨['t'], nofun, List.forall_mem_singleton.mpr rfl⟩

/-- `INSERT INTO t VALUES (-7, 'a b')`. -/
theorem insert_parsed_two :
    parse (insertText tableT [.integer (-7), .text ['a', ' ', 'b'] (by decide)]) =
      .ok (.insert "t" [.integer (-7), .text "a b"]) :=
  (insert_parsed_iff tableT [.integer (-7), .text ['a', ' ', 'b'] (by decide)] nofun).mpr
    ⟨by decide, by decide⟩

/-- `INSERT INTO t VALUES ('a,b')` gives two values. -/
theorem insert_comma_parsed :
    parse (insertText tableT [.text ['a', ',', 'b'] (by decide)]) ≠
      .ok (.insert tableT.text [.text "a,b"]) := by
  have parsed : parse (insertText tableT [.text ['a', ',', 'b'] (by decide)]) =
      .ok (.insert "t" [.text "a", .text "b"]) := rfl
  rw [parsed]
  exact fun same => nomatch (Statement.insert.inj (Except.ok.inj same)).2

end Parser

end MukhiDb.Model
