import Mathlib.Data.List.Forall2
import MukhiDb.Foundation.Pieces
import MukhiDb.Parser.Literals
import MukhiDb.Parser.Slices

/-!
Contract: CREATE TABLE statements as they are written, and what they are parsed as.

Owns: the name and the definitions that a statement is cut into; the spelling of
column types in any letter case; that a statement written in the expected form is
parsed as its table; and exactly when every definition becomes a column.

Does not own: names, and creating a table.
-/

namespace MukhiDb.Model

open MukhiDb.Foundation

namespace Parser

/-! ### Letter case -/

/-- A text spells a word in capitals with any mix of letter case. -/
def Cased (capitals text : List Char) : Prop := text.map Char.toUpper = capitals

theorem ascii_of_toUpper {c : Char} (ascii : c.toUpper.toNat < 128) : c.toNat < 128 := by
  unfold Char.toUpper at ascii
  split at ascii
  · next lower => exact Nat.lt_of_le_of_lt (UInt32.le_iff_toNat_le.mp lower.2) (by decide)
  · exact ascii

theorem isWhitespace_toUpper {c : Char} (ascii : c.toNat < 128) :
    isWhitespace c.toUpper = isWhitespace c :=
  @forall_ascii (fun c => isWhitespace c.toUpper = isWhitespace c) (by decide) c ascii

namespace Cased

variable {capitals text : List Char} (cased : Cased capitals text) (ascii : Ascii capitals)

include cased ascii

theorem ascii_text : Ascii text := by
  subst cased
  exact fun c member => ascii_of_toUpper (ascii c.toUpper (List.mem_map_of_mem member))

theorem toUppercase : toUppercase text = capitals :=
  (toUppercase_ascii (cased.ascii_text ascii)).trans cased

theorem trimmed (capitalsTrimmed : Trimmed capitals) : Trimmed text := by
  have textAscii := cased.ascii_text ascii
  subst cased
  constructor
  · intro c first
    rw [← isWhitespace_toUpper (textAscii c (List.mem_of_head? first))]
    exact capitalsTrimmed.first c.toUpper (by rw [List.head?_map, first]; rfl)
  · intro c last
    rw [← isWhitespace_toUpper (textAscii c (List.mem_of_getLast? last))]
    exact capitalsTrimmed.last c.toUpper (by rw [List.getLast?_map, last]; rfl)

theorem byteLength : byteLength text = capitals.length := by
  rw [(cased.ascii_text ascii).bytes, ← cased, List.length_map]

end Cased

/-! ### Cutting the statement -/

/-- The columns of a list of definitions. -/
def columnsOf (text : List Char) : List Column := (text.splitOn ',').filterMap parseColumn

theorem trim_trimmed (text : List Char) : Trimmed (trim text) := by
  constructor
  · intro c first
    obtain ⟨tail, whole⟩ := List.rdropWhile_prefix isWhitespace (l := text.dropWhile isWhitespace)
    have head : (text.dropWhile isWhitespace).head? = some c := by
      rw [← whole, List.head?_append]
      exact congrArg (Option.or · tail.head?) first
    have unspaced := List.head?_dropWhile_not isWhitespace text
    rw [head] at unspaced
    exact unspaced
  · intro c last
    have nonempty : trim text ≠ [] := by
      intro empty
      rw [empty] at last
      cases last
    have unspaced := List.rdropWhile_last_not isWhitespace (text.dropWhile isWhitespace) nonempty
    rw [List.getLast?_eq_some_getLast nonempty] at last
    rw [← Option.some.inj last]
    exact Bool.eq_false_iff.mpr unspaced

theorem parseColumn_trim (colDef : List Char) : parseColumn (trim colDef) = parseColumn colDef := by
  unfold parseColumn
  rw [(trim_trimmed colDef).trim]

theorem columnsOf_pieces (text : List Char) :
    columnsOf text = (pieces ',' text).filterMap parseColumn := by
  unfold columnsOf pieces
  rw [List.filterMap_map]
  exact List.filterMap_congr fun colDef _ => (parseColumn_trim colDef).symm

/-- What stands in front of a character is sliced off, or the whole text. -/
theorem sliceTo_find (c : Char) (text : List Char) :
    sliceTo text ((find [c] text).getD (byteLength text)) = .ok (text.takeWhile (· ≠ c)) := by
  by_cases member : c ∈ text
  · obtain ⟨front, back, rfl, absent⟩ := List.eq_append_cons_of_mem member
    rw [find_char absent, Option.getD_some, sliceTo_append, takeWhile_ne absent]
  · have passed : ∀ other ∈ text, decide (other ≠ c) = true := fun other inside =>
      decide_eq_true fun same => member (same ▸ inside)
    have missing : find [c] text = none :=
      find_eq_none_iff.mpr fun occurs => member (occurs.subset List.mem_cons_self)
    have whole := sliceTo_append text []
    rw [List.append_nil] at whole
    rw [missing, Option.getD_none, whole, List.takeWhile_eq_self_iff.mpr passed]

/-- The name stands in front of the first parenthesis, and the definitions between it and the
last one. -/
theorem parseCreateTable_eq {words : List Char} (length : byteLength words = 12)
    (tail : List Char) :
    parseCreateTable (words ++ tail) =
      .ok (.createTable (String.ofList (trim ((trim tail).takeWhile (· ≠ '('))))
        (columnsOf (trim (between '(' ')' (trim tail))))) := by
  have twelve : byteLength createTableWords = byteLength words := by
    rw [length]
    decide
  unfold parseCreateTable
  rw [twelve, sliceFrom_append, ok_bind]
  dsimp only
  rw [sliceTo_find, ok_bind, getRange_between (by decide) (by decide)]
  rfl

/-- A text whose capitals start with CREATE TABLE is parsed as such. -/
theorem parseTrimmed_createTable {text : List Char}
    (starts : createTableWords.isPrefixOf (toUppercase text) = true) :
    parseTrimmed text = parseCreateTable text := if_pos starts

/-! ### Statements as they are expected -/

/-- The name of a type. -/
def typeWord : DataType → List Char
  | .integer => integerWord
  | .text => textWord

theorem typeWord_ascii (dataType : DataType) : Ascii (typeWord dataType) := by
  cases dataType <;> exact ascii_of_all rfl

theorem typeWord_trimmed (dataType : DataType) : Trimmed (typeWord dataType) := by
  cases dataType <;> exact trimmed_of_ends rfl rfl rfl rfl

theorem trim_gap {gap : List Char} (white : ∀ c ∈ gap, isWhitespace c = true) (back : List Char) :
    trim (gap ++ back) = trim back := by
  unfold trim
  rw [List.dropWhile_append_of_pos white]

/-- A text is split at its first space. -/
theorem splitOnce_space {front : List Char} (absent : ' ' ∉ front) (back : List Char) :
    splitOnce (front ++ ' ' :: back) = some (front, back) := by
  unfold splitOnce
  rw [dropWhile_ne absent, takeWhile_ne absent]

/-- The name of a type is read as the type. -/
theorem parseType_word {name : List Char} {dataType : DataType}
    (same : toUppercase (trim name) = typeWord dataType) : parseType name = some dataType := by
  unfold parseType
  rw [same]
  cases dataType <;> rfl

/-- A column as it is written: its name, one space or more, and its type in any letter case. -/
structure ColumnText where
  name : Name
  dataType : DataType
  moreSpaces : Nat
  word : List Char
  cased : Cased (typeWord dataType) word

namespace ColumnText

variable (text : ColumnText)

/-- The column that is meant. -/
def column : Column := ⟨text.name.text, text.dataType⟩

/-- The definition of the column. -/
def written : List Char :=
  text.name.chars ++ ' ' :: (List.replicate text.moreSpaces ' ' ++ text.word)

theorem word_trimmed : Trimmed text.word :=
  text.cased.trimmed (typeWord_ascii _) (typeWord_trimmed _)

theorem word_ne_nil : text.word ≠ [] := by
  intro empty
  have same := text.cased
  rw [empty] at same
  revert same
  cases text.dataType <;> exact nofun

theorem written_ne_nil : text.written ≠ [] := fun empty =>
  text.name.nonempty (List.append_eq_nil_iff.mp empty).1

theorem trimmed : Trimmed text.written := by
  have whole : text.written =
      text.name.chars ++ (' ' :: List.replicate text.moreSpaces ' ') ++ text.word := by
    simp [written]
  rw [whole]
  exact text.name.trimmed.between text.word_trimmed text.name.nonempty text.word_ne_nil _

theorem word_uncut : ',' ∉ text.word := by
  intro member
  have upper : ',' ∈ text.word.map Char.toUpper := List.mem_map.mpr ⟨',', member, rfl⟩
  have spelled : text.word.map Char.toUpper = typeWord text.dataType := text.cased
  rw [spelled] at upper
  revert upper
  cases text.dataType <;> decide

theorem uncut : ',' ∉ text.written := by
  simp [written, text.name.not_mem (show isNameChar ',' = false by decide), text.word_uncut]

/-- The definition is read as the column that is meant. -/
theorem parseColumn_written : parseColumn text.written = some text.column := by
  have unspaced : ' ' ∉ text.name.chars := text.name.not_mem (by decide)
  have type : parseType (List.replicate text.moreSpaces ' ' ++ text.word) = some text.dataType := by
    apply parseType_word
    rw [trim_gap (fun c member => by rw [List.eq_of_mem_replicate member]; rfl), text.word_trimmed.trim, text.cased.toUppercase (typeWord_ascii _)]
  unfold parseColumn
  rw [text.trimmed.trim, written, splitOnce_space unspaced]
  dsimp only
  rw [type]
  rfl

end ColumnText

/-- The definitions of columns with commas between them. -/
def definitionsText (columns : List ColumnText) : List Char :=
  [',', ' '].intercalate (columns.map ColumnText.written)

/-- What follows CREATE TABLE. -/
def createTail (table : List Char) (columns : List ColumnText) : List Char :=
  table ++ ' ' :: '(' :: (definitionsText columns ++ [')'])

/-- `CREATE TABLE <name> (<c1> <type1>, ..., <cn> <typen>)`, with these words for the first two. -/
def createText (words table : List Char) (columns : List ColumnText) : String :=
  String.ofList (words ++ ' ' :: createTail table columns)

section Create

variable {words table : List Char} {columns : List ColumnText}

/-- The definitions are cut into what was joined. -/
theorem columnsOf_definitions (nonempty : columns ≠ []) :
    columnsOf (trim (definitionsText columns)) = columns.map ColumnText.column := by
  have texts : columns.map ColumnText.written ≠ [] := by simpa using nonempty
  have trimmed : Trimmed (definitionsText columns) :=
    (intercalate_trimmed texts (List.forall_mem_map.mpr fun text _ =>
      ⟨text.trimmed, text.written_ne_nil⟩)).1
  have cut : pieces ',' (definitionsText columns) = columns.map ColumnText.written :=
    pieces_join (by decide) texts (List.forall_mem_map.mpr fun text _ => ⟨text.trimmed, text.uncut⟩)
  have each : parseColumn ∘ ColumnText.written = some ∘ ColumnText.column :=
    funext ColumnText.parseColumn_written
  rw [trimmed.trim, columnsOf_pieces, cut, List.filterMap_map, each, List.filterMap_eq_map]

/-- What follows the words: the name, up to the parenthesis, and the definitions. -/
theorem createTail_parts (trimmed : Trimmed table) (unopened : '(' ∉ table) :
    ∃ front, trim (' ' :: createTail table columns) =
        front ++ '(' :: (definitionsText columns ++ [')']) ∧ '(' ∉ front ∧ trim front = table := by
  have closed : Trimmed [')'] := trimmed_of_ends rfl rfl rfl rfl
  rw [trim_space]
  by_cases nameless : table = []
  · subst nameless
    have opened : Trimmed ['('] := trimmed_of_ends rfl rfl rfl rfl
    refine ⟨[], ?_, List.not_mem_nil, rfl⟩
    exact (opened.between closed nofun nofun (definitionsText columns)).trim
  · refine ⟨table ++ [' '], ?_, by simp [unopened], trim_append_space trimmed nameless⟩
    have whole : createTail table columns =
        table ++ (' ' :: '(' :: definitionsText columns) ++ [')'] := by
      simp [createTail]
    rw [whole, (trimmed.between closed nameless nofun _).trim]
    simp

/-- The statement starts with CREATE TABLE, and ends with a parenthesis. -/
theorem parse_createText (cased : Cased createTableWords words) :
    parse (createText words table columns) =
      parseCreateTable (words ++ ' ' :: createTail table columns) := by
  have ascii : Ascii createTableWords := ascii_of_all rfl
  have wordsTrimmed : Trimmed words := cased.trimmed ascii (trimmed_of_ends rfl rfl rfl rfl)
  have wordsNonempty : words ≠ [] := by
    rintro rfl
    cases cased
  have whole : words ++ ' ' :: createTail table columns =
      words ++ (' ' :: (table ++ ' ' :: '(' :: definitionsText columns)) ++ [')'] := by
    simp [createTail]
  have trimmed : Trimmed (words ++ ' ' :: createTail table columns) := by
    rw [whole]
    exact wordsTrimmed.between (trimmed_of_ends rfl rfl rfl rfl) wordsNonempty
      (List.cons_ne_nil _ _) _
  have starts : createTableWords.isPrefixOf
      (toUppercase (words ++ ' ' :: createTail table columns)) = true := by
    rw [toUppercase_append, cased.toUppercase ascii]
    exact List.isPrefixOf_iff_prefix.mpr (List.prefix_append _ _)
  unfold parse createText
  rw [String.toList_ofList, trimmed.trim, parseTrimmed_createTable starts]

/-- A CREATE TABLE statement is parsed as the table that is meant, whatever the letter case of its
words and types and the number of spaces in its columns. -/
theorem createTable_parsed (cased : Cased createTableWords words) (trimmed : Trimmed table)
    (unopened : '(' ∉ table) (nonempty : columns ≠ []) :
    parse (createText words table columns) =
      .ok (.createTable (String.ofList table) (columns.map ColumnText.column)) := by
  have length : byteLength words = 12 := cased.byteLength (ascii_of_all rfl)
  obtain ⟨front, rest, absent, named⟩ := @createTail_parts table columns trimmed unopened
  rw [parse_createText cased, parseCreateTable_eq length, rest, takeWhile_ne absent, named,
    between_brackets absent List.not_mem_nil, columnsOf_definitions nonempty]

end Create

/-- `crEATE tABle users (id   Integer, name TEXT)`. -/
theorem createTable_parsed_users :
    parse "crEATE tABle users (id   Integer, name TEXT)" =
      .ok (.createTable "users" [⟨"id", .integer⟩, ⟨"name", .text⟩]) :=
  @createTable_parsed "crEATE tABle".toList "users".toList
    [⟨⟨['i', 'd'], nofun, List.all_eq_true.mp rfl⟩, .integer, 2, "Integer".toList, rfl⟩,
      ⟨⟨['n', 'a', 'm', 'e'], nofun, List.all_eq_true.mp rfl⟩, .text, 0, "TEXT".toList, rfl⟩]
    rfl (trimmed_of_ends rfl rfl rfl rfl) (by decide) nofun

/-! ### Texts that are parsed as CREATE TABLE -/

/-- Every statement that is returned is of the kind. -/
def Yields (kind : Statement → Prop) (computed : Except Fault Statement) : Prop :=
  ∀ statement, computed = .ok statement → kind statement

section Yields

variable {kind : Statement → Prop}

theorem yields_pure {statement : Statement} (holds : kind statement) :
    Yields kind (pure statement) := by
  intro other same
  cases same
  exact holds

theorem yields_bind {α : Type} {first : Except Fault α} {next : α → Except Fault Statement}
    (each : ∀ value, Yields kind (next value)) : Yields kind (first >>= next) := by
  intro statement returned
  obtain ⟨value, -, rest⟩ := ok_of_bind returned
  exact each value statement rest

end Yields

/-- The statement creates no table. -/
def NotCreate (statement : Statement) : Prop :=
  ∀ tableName columns, statement ≠ .createTable tableName columns

theorem selectFrom_notCreate (remainder : List Char) : Yields NotCreate (selectFrom remainder) := by
  unfold selectFrom
  split
  · exact yields_bind fun _ => yields_bind fun _ => yields_bind fun _ => yields_pure nofun
  · exact yields_pure nofun

theorem selectJoin_notCreate (tableName : List Char) (join : JoinClause) (remainder : List Char) :
    Yields NotCreate (selectJoin tableName join remainder) := by
  unfold selectJoin
  split
  · exact yields_bind fun _ => yields_bind fun _ => yields_pure nofun
  · exact yields_pure nofun

theorem parseSelect_notCreate (input : List Char) : Yields NotCreate (parseSelect input) := by
  unfold parseSelect
  refine yields_bind fun sliced => ?_
  dsimp only
  split
  · refine yields_bind fun parts => ?_
    split
    · exact selectJoin_notCreate _ _ _
    · exact selectFrom_notCreate _
  · exact selectFrom_notCreate _

theorem parseInsert_notCreate (input : List Char) : Yields NotCreate (parseInsert input) :=
  yields_bind fun _ => yields_bind fun _ => yields_pure nofun

/-- Only a text whose capitals start with CREATE TABLE becomes a CREATE TABLE statement. -/
theorem parse_eq_createTable {input tableName : String} {columns : List Column}
    (parsed : parse input = .ok (.createTable tableName columns)) :
    parseCreateTable (trim input.toList) = .ok (.createTable tableName columns) := by
  unfold parse parseTrimmed at parsed
  dsimp only at parsed
  split at parsed
  · exact parsed
  split at parsed
  · exact absurd rfl (parseInsert_notCreate _ _ parsed tableName columns)
  split at parsed
  · exact absurd rfl (parseSelect_notCreate _ _ parsed tableName columns)
  split at parsed
  · cases parsed
  split at parsed
  · cases parsed
  split at parsed
  · cases parsed
  · cases parsed

/-- What follows CREATE TABLE in a text. -/
def createRest (input : String) : List Char :=
  trim (after (trim input.toList) (byteLength createTableWords))

/-- A CREATE TABLE statement has the name in front of the first parenthesis, and the columns of
the definitions between it and the last one. -/
theorem createTable_parts {input tableName : String} {columns : List Column}
    (parsed : parse input = .ok (.createTable tableName columns)) :
    tableName = String.ofList (trim ((createRest input).takeWhile (· ≠ '('))) ∧
      columns = columnsOf (trim (between '(' ')' (createRest input))) := by
  have created := parse_eq_createTable parsed
  have boundary := (returns_parseCreateTable _).mp ⟨_, created⟩
  obtain ⟨words, tail, whole, length⟩ := boundary_iff.mp boundary
  have twelve : byteLength words = 12 := by
    rw [← length]
    decide
  have rest : createRest input = trim tail := by
    unfold createRest
    rw [whole, length, after_append]
  rw [whole, parseCreateTable_eq twelve] at created
  rw [rest]
  have same := Statement.createTable.inj (Except.ok.inj created)
  exact ⟨same.1.symm, same.2.symm⟩

/-- The name of a table that is parsed stands alone: it is trimmed, and has no parenthesis. -/
theorem createTable_name {input tableName : String} {columns : List Column}
    (parsed : parse input = .ok (.createTable tableName columns)) :
    Trimmed tableName.toList ∧ '(' ∉ tableName.toList := by
  rw [(createTable_parts parsed).1, String.toList_ofList]
  refine ⟨trim_trimmed _, fun member => ?_⟩
  have front := (trim_sublist _).subset member
  have passed := List.mem_takeWhile_imp front
  simp at passed

/-! ### Definitions and their columns -/

/-- The comma-separated definitions between the parentheses of a CREATE TABLE statement. -/
def definitions (input : String) : List (List Char) :=
  let inside := trim (between '(' ')' (createRest input))
  if inside = [] then [] else pieces ',' inside

/-- A definition is a name, a gap and a type in any letter case, for this column. -/
structure Separated (gap definition : List Char) (column : Column) : Prop where
  named : column.name.toList ≠ [] ∧ Trimmed column.name.toList
  typed : ∃ word, definition = column.name.toList ++ gap ++ word ∧ Trimmed word ∧
    toUppercase word = typeWord column.dataType

/-- The definition is `<name> <type>` with white space between, for this column. -/
def Defines (definition : List Char) (column : Column) : Prop :=
  ∃ gap, gap ≠ [] ∧ (∀ c ∈ gap, isWhitespace c = true) ∧ Separated gap definition column

/-- The definition is `<name> <type>`, where the name has no space and a space follows it. -/
def Spaced (definition : List Char) : Prop :=
  ∃ column : Column, ' ' ∉ column.name.toList ∧
    ∃ gap, (∀ c ∈ gap, isWhitespace c = true) ∧ Separated (' ' :: gap) definition column

/-- A definition with a space behind its name becomes its column. -/
theorem parseColumn_spaced {definition : List Char} (trimmed : Trimmed definition)
    (spaced : Spaced definition) :
    ∃ column, parseColumn definition = some column ∧ Defines definition column := by
  obtain ⟨column, unspaced, gap, white, separated⟩ := spaced
  obtain ⟨word, whole, wordTrimmed, spelled⟩ := separated.typed
  refine ⟨column, ?_, ' ' :: gap, List.cons_ne_nil _ _,
    List.forall_mem_cons.mpr ⟨rfl, white⟩, separated⟩
  have type : parseType (gap ++ word) = some column.dataType := by
    apply parseType_word
    rw [trim_gap white, wordTrimmed.trim, spelled]
  unfold parseColumn
  rw [trimmed.trim, whole, List.append_assoc, List.cons_append, splitOnce_space unspaced]
  dsimp only
  rw [type, String.ofList_toList]
  rfl

theorem splitOnce_eq_some {text name back : List Char} (split : splitOnce text = some (name, back)) :
    text = name ++ ' ' :: back ∧ ' ' ∉ name := by
  unfold splitOnce at split
  by_cases member : ' ' ∈ text
  · obtain ⟨front, rest, rfl, absent⟩ := List.eq_append_cons_of_mem member
    rw [dropWhile_ne absent, takeWhile_ne absent] at split
    cases split
    exact ⟨rfl, absent⟩
  · have none : text.dropWhile (· ≠ ' ') = [] :=
      List.dropWhile_eq_nil_iff.mpr fun c inside => decide_eq_true fun same => member (same ▸ inside)
    rw [none] at split
    cases split

/-- The column of a definition has what stands in front of the first space as its name. -/
theorem parseColumn_name {definition : List Char} {column : Column} (trimmed : Trimmed definition)
    (parsed : parseColumn definition = some column) :
    ∃ back, definition = column.name.toList ++ ' ' :: back ∧ ' ' ∉ column.name.toList := by
  unfold parseColumn at parsed
  rw [trimmed.trim] at parsed
  rcases split : splitOnce definition with _ | ⟨name, back⟩
  · rw [split] at parsed
    cases parsed
  · rw [split] at parsed
    obtain ⟨dataType, -, rfl⟩ := Option.map_eq_some_iff.mp parsed
    rw [String.toList_ofList]
    exact ⟨back, splitOnce_eq_some split⟩

/-- A definition that becomes the column it defines has a space behind its name. -/
theorem spaced_of_parseColumn {definition : List Char} {column : Column}
    (trimmed : Trimmed definition) (parsed : parseColumn definition = some column)
    (defines : Defines definition column) : Spaced definition := by
  obtain ⟨gap, nonempty, white, separated⟩ := defines
  obtain ⟨word, whole, wordTrimmed, spelled⟩ := separated.typed
  obtain ⟨back, cut, unspaced⟩ := parseColumn_name trimmed parsed
  cases gap with
  | nil => exact absurd rfl nonempty
  | cons c gap =>
      have behind : c :: gap ++ word = ' ' :: back := by
        rw [cut, List.append_assoc] at whole
        exact (List.append_cancel_left whole).symm
      obtain rfl : c = ' ' := (List.cons.inj behind).1
      exact ⟨column, unspaced, gap, (List.forall_mem_cons.mp white).2, separated⟩

/-- Filtering that relates every value to its result has dropped none. -/
theorem forall₂_filterMap {α β : Type} {relation : α → β → Prop} {read : α → Option β}
    {values : List α} (related : List.Forall₂ relation values (values.filterMap read)) :
    ∀ value ∈ values, ∃ result, read value = some result ∧ relation value result := by
  induction values with
  | nil => exact fun _ member => absurd member List.not_mem_nil
  | cons value rest inductionHypothesis =>
      rcases found : read value with _ | result
      · rw [List.filterMap_cons_none found] at related
        have lengths := related.length_eq
        have short := List.length_filterMap_le read rest
        rw [List.length_cons] at lengths
        omega
      · rw [List.filterMap_cons_some found] at related
        cases related with
        | cons head tail =>
            exact List.forall_mem_cons.mpr ⟨⟨result, found, head⟩, inductionHypothesis tail⟩

theorem filterMap_forall₂ {α β : Type} {relation : α → β → Prop} {read : α → Option β}
    {values : List α}
    (each : ∀ value ∈ values, ∃ result, read value = some result ∧ relation value result) :
    List.Forall₂ relation values (values.filterMap read) := by
  induction values with
  | nil => exact .nil
  | cons value rest inductionHypothesis =>
      obtain ⟨⟨result, found, related⟩, others⟩ := List.forall_mem_cons.mp each
      rw [List.filterMap_cons_some found]
      exact .cons related (inductionHypothesis others)

theorem definitions_trimmed {input : String} {definition : List Char}
    (member : definition ∈ definitions input) : Trimmed definition := by
  unfold definitions at member
  dsimp only at member
  split at member
  · exact absurd member List.not_mem_nil
  · obtain ⟨piece, -, rfl⟩ := List.mem_map.mp member
    exact trim_trimmed piece

/-- The columns are what is left of the definitions. -/
theorem columns_eq {input tableName : String} {columns : List Column}
    (parsed : parse input = .ok (.createTable tableName columns)) :
    columns = (definitions input).filterMap parseColumn := by
  rw [(createTable_parts parsed).2]
  unfold definitions
  dsimp only
  split
  · next blank =>
      rw [blank]
      rfl
  · exact columnsOf_pieces _

/-- The columns of a parsed table correspond to its definitions, one to one and in order, exactly
when in every definition a space follows the name. -/
theorem columns_define_iff {input tableName : String} {columns : List Column}
    (parsed : parse input = .ok (.createTable tableName columns)) :
    List.Forall₂ Defines (definitions input) columns ↔
      ∀ definition ∈ definitions input, Spaced definition := by
  rw [columns_eq parsed]
  constructor
  · intro related definition member
    obtain ⟨column, read, defines⟩ := forall₂_filterMap related definition member
    exact spaced_of_parseColumn (definitions_trimmed member) read defines
  · intro spaced
    exact filterMap_forall₂ fun definition member =>
      parseColumn_spaced (definitions_trimmed member) (spaced definition member)

/-- `CREATE TABLE t (a INTEGER, b  text)`. -/
theorem columns_define_iff_two :
    List.Forall₂ Defines (definitions "CREATE TABLE t (a INTEGER, b  text)")
      [⟨"a", .integer⟩, ⟨"b", .text⟩] := by
  refine (@columns_define_iff _ "t" _ rfl).mpr ?_
  have written : definitions "CREATE TABLE t (a INTEGER, b  text)" =
      ["a INTEGER".toList, "b  text".toList] := rfl
  rw [written]
  refine List.forall_mem_cons.mpr ⟨?_, List.forall_mem_singleton.mpr ?_⟩
  · exact ⟨⟨"a", .integer⟩, by decide, [], nofun,
      ⟨by decide, trimmed_of_ends rfl rfl rfl rfl⟩,
      "INTEGER".toList, rfl, trimmed_of_ends rfl rfl rfl rfl, rfl⟩
  · exact ⟨⟨"b", .text⟩, by decide, [' '], List.forall_mem_singleton.mpr rfl,
      ⟨by decide, trimmed_of_ends rfl rfl rfl rfl⟩,
      "text".toList, rfl, trimmed_of_ends rfl rfl rfl rfl, rfl⟩

/-- Of `a INTEGER, b REAL` only the first definition becomes a column. -/
theorem real_column_dropped :
    parse "CREATE TABLE t (a INTEGER, b REAL)" = .ok (.createTable "t" [⟨"a", .integer⟩]) ∧
      ¬ ∀ (input tableName : String) (columns : List Column),
        parse input = .ok (.createTable tableName columns) →
          List.Forall₂ Defines (definitions input) columns := by
  have parsed : parse "CREATE TABLE t (a INTEGER, b REAL)" =
      .ok (.createTable "t" [⟨"a", .integer⟩]) := rfl
  refine ⟨parsed, fun always => ?_⟩
  have lengths := (always _ _ _ parsed).length_eq
  have two : (definitions "CREATE TABLE t (a INTEGER, b REAL)").length = 2 := rfl
  rw [two] at lengths
  cases lengths

end Parser

end MukhiDb.Model
