import Mathlib.Data.List.Infix
import MukhiDb.Model.Parser

/-!
Contract: the texts that the parser accepts without a slicing panic.

Owns: the texts whose keywords stand where they stand in the uppercased copy, of which
the parser fails on those that start with SELECT and have no FROM; that the texts whose
characters keep their bytes are such texts, the ASCII texts among them; and, for every
text, the offsets that have to be character boundaries.

Does not own: which statement is returned.
-/

namespace MukhiDb.Model

open MukhiDb.Foundation

namespace Parser

/-! ### Where the text is cut -/

/-- Where the uppercased text has a word first, and some bytes after that, the text itself can
be cut. -/
def WordFits (word : List Char) (past : Nat) (text : List Char) : Prop :=
  ∀ offset, findWord word text = some offset → Boundary text (offset + past)

/-- What `INSERT INTO` is followed by. -/
def insertRest (input : List Char) : List Char := trim (after input (byteLength insertIntoWords))

/-- What JOIN at `j` is followed by. -/
def joinRest (afterFrom : List Char) (j : Nat) : List Char :=
  trim (after afterFrom (j + byteLength joinWord))

/-- What ON is followed by. -/
def onRest (afterJoin : List Char) : List Char :=
  trim ((getFrom afterJoin
    ((findWord onWord afterJoin).getD (byteLength afterJoin) + byteLength onWord)).getD [])

/-- The ON condition, and the rest from WHERE on. -/
def onParts (afterOn : List Char) : List Char × List Char :=
  match findWord whereWord afterOn with
  | some w => (trim (before afterOn w), trim (after afterOn w))
  | none => (afterOn, [])

/-- WHERE can be cut out. -/
def WhereFits (text : List Char) : Prop :=
  WordFits whereWord 0 text ∧ WordFits whereWord (byteLength whereWord) text

/-- A join clause whose JOIN is at `j` can be cut up. -/
structure JoinFits (afterFrom : List Char) (j : Nat) : Prop where
  table : Boundary afterFrom j
  join : Boundary afterFrom (j + byteLength joinWord)
  on : WordFits onWord 0 (joinRest afterFrom j)
  condition : WordFits whereWord 0 (onRest (joinRest afterFrom j))
  rest : WordFits whereWord (byteLength whereWord) (onParts (onRest (joinRest afterFrom j))).2
  unjoined : find ['='] (onParts (onRest (joinRest afterFrom j))).1 = none →
    WordFits whereWord 0 (onParts (onRest (joinRest afterFrom j))).2

/-- What follows FROM can be cut up. -/
def FromFits (afterFrom : List Char) : Prop :=
  match findWord joinWord afterFrom with
  | some j => JoinFits afterFrom j
  | none => WhereFits afterFrom

/-- A SELECT statement has FROM and can be cut up. -/
def SelectFits (input : List Char) : Prop :=
  ∃ fromPos, findWord fromWord input = some fromPos ∧
    Boundary input (fromPos + byteLength fromWord) ∧
    FromFits (trim (after input (fromPos + byteLength fromWord)))

/-- A statement can be cut up. -/
def StatementFits (input : List Char) : Prop :=
  if createTableWords.isPrefixOf (toUppercase input) then
    Boundary input (byteLength createTableWords)
  else if insertIntoWords.isPrefixOf (toUppercase input) then
    Boundary input (byteLength insertIntoWords) ∧ WordFits valuesWord 0 (insertRest input)
  else if selectWord.isPrefixOf (toUppercase input) then SelectFits input
  else True

/-! ### Parsers that return -/

variable {text : List Char}

theorem wordFits_missing {word : List Char} {past : Nat} (missing : findWord word text = none) :
    WordFits word past text := by
  intro offset found
  rw [missing] at found
  cases found

theorem wordFits_found {word : List Char} {past offset : Nat}
    (found : findWord word text = some offset) :
    WordFits word past text ↔ Boundary text (offset + past) := by
  constructor
  · exact fun fits => fits offset found
  · intro boundary other same
    obtain rfl := Option.some.inj (found.symm.trans same)
    exact boundary

/-- The part in front of a word, or the whole text without it. -/
theorem boundary_findWord {word : List Char} :
    Boundary text ((findWord word text).getD (byteLength text)) ↔ WordFits word 0 text := by
  rcases found : findWord word text with _ | offset
  · exact iff_of_true (boundary_byteLength text) (wordFits_missing found)
  · exact (@wordFits_found text word 0 offset found).symm

/-- The part in front of a pattern, or the whole text without it. -/
theorem boundary_find (pattern : List Char) :
    Boundary text ((find pattern text).getD (byteLength text)) := by
  rcases found : find pattern text with _ | offset
  · exact boundary_byteLength text
  · exact (find_boundary found).1

theorem returns_parseOps (cond : List Char) (ops : List (Char × CompOp)) :
    Returns (parseOps cond ops) := by
  induction ops with
  | nil => exact returns_pure none
  | cons entry rest inductionHypothesis =>
      obtain ⟨sym, op⟩ := entry
      unfold parseOps
      split
      · next pos found =>
          have boundaries := find_boundary found
          exact returns_sliceTo_bind.mpr ⟨boundaries.1,
            returns_sliceFrom_bind.mpr ⟨boundaries.2, returns_pure _⟩⟩
      · exact inductionHypothesis

theorem returns_parseWhere_bind {cond : List Char} {next : Option Expr → Except Fault Statement}
    (always : ∀ clause, Returns (next clause)) : Returns (parseWhere cond >>= next) := by
  obtain ⟨clause, parsed⟩ := returns_parseOps cond [('=', .eq), ('>', .gt), ('<', .lt)]
  exact returns_bind.mpr ⟨clause, parsed, always clause⟩

/-- The ON condition gives a clause exactly if it has an equals sign. -/
theorem parseOn_cases (rightTable onCond : List Char) :
    (∃ join, parseOn rightTable onCond = .ok (some join) ∧ find ['='] onCond ≠ none) ∨
      (parseOn rightTable onCond = .ok none ∧ find ['='] onCond = none) := by
  unfold parseOn
  rcases found : find ['='] onCond with _ | eq
  · exact Or.inr ⟨rfl, rfl⟩
  · obtain ⟨first, second⟩ := find_boundary found
    rw [show byteLength ['='] = 1 by decide] at second
    dsimp only
    rw [sliceTo_ok first, sliceFrom_ok second]
    exact Or.inl ⟨_, rfl, nofun⟩

theorem splitWhere_ok {afterOn : List Char} (fits : WordFits whereWord 0 afterOn) :
    splitWhere afterOn = .ok (onParts afterOn) := by
  unfold splitWhere onParts
  rcases found : findWord whereWord afterOn with _ | w
  · rfl
  · have boundary : Boundary afterOn w := fits w found
    dsimp only
    rw [sliceTo_ok boundary, sliceFrom_ok boundary]
    rfl

theorem returns_splitWhere_bind {afterOn : List Char} {α : Type}
    {next : List Char × List Char → Except Fault α} :
    Returns (splitWhere afterOn >>= next) ↔
      WordFits whereWord 0 afterOn ∧ Returns (next (onParts afterOn)) := by
  by_cases fits : WordFits whereWord 0 afterOn
  · rw [splitWhere_ok fits, and_iff_right fits]
    rfl
  · rcases found : findWord whereWord afterOn with _ | w
    · exact absurd (wordFits_missing found) fits
    · have off : ¬ Boundary afterOn w := fun boundary => fits ((wordFits_found found).mpr boundary)
      unfold splitWhere
      rw [found]
      dsimp only
      rw [sliceTo_panics off]
      exact iff_of_false (not_returns_error _) fun both => fits both.1

theorem returns_selectFrom : Returns (selectFrom text) ↔ WhereFits text := by
  unfold selectFrom WhereFits
  rcases found : findWord whereWord text with _ | w
  · exact iff_of_true (returns_pure _) ⟨wordFits_missing found, wordFits_missing found⟩
  · dsimp only
    rw [returns_sliceTo_bind, returns_sliceFrom_bind, wordFits_found found, wordFits_found found,
      and_iff_left (returns_parseWhere_bind fun _ => returns_pure _)]
    rfl

theorem returns_selectJoin (tableName : List Char) (join : JoinClause) :
    Returns (selectJoin tableName join text) ↔ WordFits whereWord (byteLength whereWord) text := by
  unfold selectJoin
  rcases found : findWord whereWord text with _ | w
  · exact iff_of_true (returns_pure _) (wordFits_missing found)
  · dsimp only
    rw [returns_sliceFrom_bind, wordFits_found found,
      and_iff_left (returns_parseWhere_bind fun _ => returns_pure _)]

section Join

variable {afterFrom : List Char} {j : Nat}

/-- A join clause that can be cut up is parsed, with or without an equals sign. -/
theorem parseJoin_ok (table : Boundary afterFrom j)
    (join : Boundary afterFrom (j + byteLength joinWord))
    (on : WordFits onWord 0 (joinRest afterFrom j))
    (condition : WordFits whereWord 0 (onRest (joinRest afterFrom j))) :
    ∃ clause, parseJoin afterFrom j = .ok (trim (before afterFrom j), clause,
        (onParts (onRest (joinRest afterFrom j))).2) ∧
      (clause = none ↔ find ['='] (onParts (onRest (joinRest afterFrom j))).1 = none) := by
  have split := splitWhere_ok condition
  unfold parseJoin
  rw [sliceTo_ok table, ok_bind, sliceFrom_ok join, ok_bind]
  dsimp only
  change ∃ clause, (do
    let rightTable ← sliceTo (joinRest afterFrom j)
      ((findWord onWord (joinRest afterFrom j)).getD (byteLength (joinRest afterFrom j)))
    let parts ← splitWhere (onRest (joinRest afterFrom j))
    let clause ← parseOn (trim rightTable) parts.1
    pure (trim (before afterFrom j), clause, parts.2)) = _ ∧ _
  rw [sliceTo_ok (boundary_findWord.mpr on), ok_bind, split, ok_bind]
  rcases parseOn_cases (trim (before (joinRest afterFrom j) _))
    (onParts (onRest (joinRest afterFrom j))).1 with ⟨clause, parsed, found⟩ | ⟨parsed, missing⟩
  · rw [parsed]
    exact ⟨_, rfl, iff_of_false (Option.some_ne_none _) found⟩
  · rw [parsed]
    exact ⟨_, rfl, iff_of_true rfl missing⟩

theorem returns_parseJoin : Returns (parseJoin afterFrom j) ↔
    Boundary afterFrom j ∧ Boundary afterFrom (j + byteLength joinWord) ∧
      WordFits onWord 0 (joinRest afterFrom j) ∧
      WordFits whereWord 0 (onRest (joinRest afterFrom j)) := by
  unfold parseJoin
  rw [returns_sliceTo_bind]
  refine and_congr_right fun _ => ?_
  dsimp only
  rw [returns_sliceFrom_bind]
  refine and_congr_right fun _ => ?_
  rw [returns_sliceTo_bind]
  refine and_congr boundary_findWord ?_
  rw [returns_splitWhere_bind]
  refine and_iff_left ?_
  rw [returns_bind]
  rcases parseOn_cases _ _ with ⟨join, parsed, -⟩ | ⟨parsed, -⟩
  · exact ⟨_, parsed, returns_pure _⟩
  · exact ⟨_, parsed, returns_pure _⟩

/-- A join clause that can be cut up, with the WHERE clause after it. -/
theorem returns_joined :
    Returns (parseJoin afterFrom j >>= fun parts =>
      match parts.2.1 with
      | some join => selectJoin parts.1 join parts.2.2
      | none => selectFrom parts.2.2) ↔ JoinFits afterFrom j := by
  constructor
  · intro returned
    obtain ⟨parts, parsed, returned⟩ := returns_bind.mp returned
    obtain ⟨table, join, on, condition⟩ := returns_parseJoin.mp ⟨parts, parsed⟩
    obtain ⟨clause, parsed', equals⟩ := parseJoin_ok table join on condition
    obtain rfl := Except.ok.inj (parsed.symm.trans parsed')
    rcases clause with _ | clause
    · obtain ⟨first, second⟩ := returns_selectFrom.mp returned
      exact ⟨table, join, on, condition, second, fun _ => first⟩
    · exact ⟨table, join, on, condition, (returns_selectJoin _ clause).mp returned,
        fun missing => by cases equals.mpr missing⟩
  · intro fits
    obtain ⟨clause, parsed, equals⟩ :=
      parseJoin_ok fits.table fits.join fits.on fits.condition
    refine returns_bind.mpr ⟨_, parsed, ?_⟩
    rcases clause with _ | clause
    · exact returns_selectFrom.mpr ⟨fits.unjoined (equals.mp rfl), fits.rest⟩
    · exact (returns_selectJoin _ clause).mpr fits.rest

/-- What follows FROM, with or without a join. -/
theorem returns_afterFrom :
    Returns (match findWord joinWord afterFrom with
      | some j => parseJoin afterFrom j >>= fun parts =>
          match parts.2.1 with
          | some join => selectJoin parts.1 join parts.2.2
          | none => selectFrom parts.2.2
      | none => selectFrom afterFrom) ↔ FromFits afterFrom := by
  unfold FromFits
  rcases findWord joinWord afterFrom with _ | j
  · exact returns_selectFrom
  · exact returns_joined

end Join

theorem returns_parseSelect (input : List Char) : Returns (parseSelect input) ↔ SelectFits input := by
  unfold parseSelect SelectFits
  rcases found : findWord fromWord input with _ | fromPos
  · have past : ¬ Boundary input (byteLength input + byteLength fromWord) := fun boundary => by
      have inside := boundary_le boundary
      have four : byteLength fromWord = 4 := by decide
      omega
    rw [Option.getD_none]
    dsimp only
    rw [sliceFrom_panics past]
    exact iff_of_false (not_returns_error _) fun ⟨_, impossible, _⟩ => by cases impossible
  · rw [Option.getD_some]
    dsimp only
    rw [returns_sliceFrom_bind]
    constructor
    · exact fun both => ⟨fromPos, rfl, both.1, returns_afterFrom.mp both.2⟩
    · rintro ⟨other, same, boundary, fits⟩
      obtain rfl := Option.some.inj same
      exact ⟨boundary, returns_afterFrom.mpr fits⟩

theorem returns_parseInsert (input : List Char) :
    Returns (parseInsert input) ↔
      Boundary input (byteLength insertIntoWords) ∧ WordFits valuesWord 0 (insertRest input) := by
  unfold parseInsert insertRest
  rw [returns_sliceFrom_bind]
  refine and_congr_right fun _ => ?_
  dsimp only
  rw [returns_sliceTo_bind, boundary_findWord]
  exact and_iff_left (returns_pure _)

theorem returns_parseCreateTable (input : List Char) :
    Returns (parseCreateTable input) ↔ Boundary input (byteLength createTableWords) := by
  unfold parseCreateTable
  rw [returns_sliceFrom_bind]
  refine and_iff_left ?_
  dsimp only
  rw [returns_sliceTo_bind]
  exact ⟨boundary_find _, returns_pure _⟩

theorem returns_parseTrimmed (input : List Char) :
    Returns (parseTrimmed input) ↔ StatementFits input := by
  unfold parseTrimmed StatementFits
  dsimp only
  split
  · exact returns_parseCreateTable _
  split
  · exact returns_parseInsert _
  split
  · exact returns_parseSelect _
  refine iff_of_true ?_ trivial
  split
  · exact returns_pure _
  split
  · exact returns_pure _
  split
  · exact returns_pure _
  · exact returns_pure _

/-- The parser returns a statement exactly if a SELECT has FROM, and every offset at which the
text is cut is a character boundary of it. -/
theorem parse_returns_iff (input : String) :
    (∃ statement, parse input = .ok statement) ↔ StatementFits (trim input.toList) :=
  returns_parseTrimmed (trim input.toList)

/-! ### Keywords in place -/

/-- Letters of the text spell a word, which starts at the byte at which it starts in the
uppercased copy, and is nowhere in that copy before. -/
structure StartsInPlace (word text front letters back : List Char) : Prop where
  parts : text = front ++ letters ++ back
  spelled : toUppercase letters = word
  ahead : byteLength (toUppercase front) = byteLength front
  first : ¬ word <:+: (toUppercase front ++ word).dropLast

/-- The word ends in place too. -/
structure InPlace (word text front letters back : List Char) : Prop extends
    StartsInPlace word text front letters back where
  bytes : byteLength letters = byteLength word

instance (word text front letters back : List Char) :
    Decidable (InPlace word text front letters back) :=
  decidable_of_iff ((text = front ++ letters ++ back ∧ toUppercase letters = word ∧
    byteLength (toUppercase front) = byteLength front ∧
    ¬ word <:+: (toUppercase front ++ word).dropLast) ∧ byteLength letters = byteLength word)
    ⟨fun ⟨⟨parts, spelled, ahead, first⟩, bytes⟩ => ⟨⟨parts, spelled, ahead, first⟩, bytes⟩,
      fun ⟨⟨parts, spelled, ahead, first⟩, bytes⟩ => ⟨⟨parts, spelled, ahead, first⟩, bytes⟩⟩

/-- If the uppercased copy has the word, then the word is in place, and so is what the text
after it is read for. -/
def Placed (word : List Char) (next : List Char → Prop) (text : List Char) : Prop :=
  word <:+: toUppercase text →
    ∃ front letters back, InPlace word text front letters back ∧ next (trim back)

/-- VALUES, of which only the start is used. -/
def ValuesPlaced (text : List Char) : Prop :=
  valuesWord <:+: toUppercase text →
    ∃ front letters back, StartsInPlace valuesWord text front letters back

/-- WHERE. -/
def WherePlaced : List Char → Prop := Placed whereWord fun _ => True

/-- ON, with WHERE after it. -/
def OnPlaced : List Char → Prop := Placed onWord WherePlaced

/-- What follows FROM: JOIN with ON and WHERE, or WHERE alone. -/
structure FromPlaced (text : List Char) : Prop where
  joined : Placed joinWord OnPlaced text
  unjoined : ¬ joinWord <:+: toUppercase text → WherePlaced text

/-- The keywords that a statement is read for are in place. -/
structure KeywordsPlaced (text : List Char) : Prop where
  createTable : createTableWords <+: toUppercase text →
    ∃ letters back, InPlace createTableWords text [] letters back
  insert : insertIntoWords <+: toUppercase text → ∃ letters back,
    InPlace insertIntoWords text [] letters back ∧ ValuesPlaced (trim back)
  select : selectWord <+: toUppercase text → Placed fromWord FromPlaced text

/-- A SELECT has FROM. -/
def HasFrom (text : List Char) : Prop :=
  selectWord <+: toUppercase text → fromWord <:+: toUppercase text

/-- A text that uppercases to a word without white space has none either. -/
theorem unspaced_letters {letters word : List Char} (spelled : toUppercase letters = word)
    (unspaced : ∀ c ∈ word, isWhitespace c = false) : ∀ c ∈ letters, isWhitespace c = false := by
  intro c member
  rcases white : isWhitespace c with _ | _
  · rfl
  · have kept : c ∈ word := by
      rw [← spelled]
      exact List.mem_flatMap.mpr ⟨c, member, upperChar_whitespace white ▸ List.mem_cons_self⟩
    exact white.symm.trans (unspaced c kept)

/-- Letters at the start of a text stay when the text is trimmed. -/
theorem trim_letters {letters : List Char} (nonempty : letters ≠ [])
    (unspaced : ∀ c ∈ letters, isWhitespace c = false) (back : List Char) :
    ∃ back', trim (letters ++ back) = letters ++ back' := by
  have front : (letters ++ back).dropWhile isWhitespace = letters ++ back := by
    obtain ⟨c, rest, rfl⟩ := List.exists_cons_of_ne_nil nonempty
    rw [List.cons_append, List.dropWhile_cons_of_neg]
    rw [unspaced c List.mem_cons_self]
    exact Bool.false_ne_true
  unfold trim
  rw [front]
  clear front
  induction back using List.reverseRecOn with
  | nil =>
      refine ⟨[], ?_⟩
      rw [List.append_nil, List.rdropWhile_eq_self_iff]
      intro nonempty
      rw [unspaced _ (List.getLast_mem nonempty)]
      exact Bool.false_ne_true
  | append_singleton back c inductionHypothesis =>
      rw [← List.append_assoc]
      by_cases white : isWhitespace c = true
      · rw [List.rdropWhile_concat_pos _ _ _ white]
        exact inductionHypothesis
      · rw [List.rdropWhile_concat_neg _ _ _ white]
        exact ⟨back ++ [c], List.append_assoc _ _ _⟩

section InPlace

variable {word front letters back : List Char}

theorem StartsInPlace.findWord (placed : StartsInPlace word text front letters back) :
    findWord word text = some (byteLength front) := by
  unfold Parser.findWord
  rw [placed.parts, toUppercase_append, toUppercase_append, placed.spelled, find_at placed.first,
    placed.ahead]

theorem StartsInPlace.boundary (placed : StartsInPlace word text front letters back) :
    Boundary text (byteLength front) := by
  rw [placed.parts, List.append_assoc]
  exact boundary_append _ _

theorem StartsInPlace.fits (placed : StartsInPlace word text front letters back) :
    WordFits word 0 text :=
  (wordFits_found placed.findWord).mpr placed.boundary

namespace InPlace

variable (placed : InPlace word text front letters back)

include placed

theorem boundary_past : Boundary text (byteLength front + byteLength word) := by
  rw [placed.parts, ← placed.bytes, ← byteLength_append]
  exact boundary_append _ _

theorem fits_past : WordFits word (byteLength word) text :=
  (wordFits_found placed.findWord).mpr placed.boundary_past

theorem after_word : after text (byteLength front + byteLength word) = back := by
  rw [placed.parts, ← placed.bytes, ← byteLength_append]
  exact after_append _ _

/-- The rest from a word on has the word in place. -/
theorem rest (unspaced : ∀ c ∈ word, isWhitespace c = false) (nonempty : word ≠ []) :
    ∃ back', InPlace word (trim (after text (byteLength front))) [] letters back' := by
  have some : letters ≠ [] := by
    rintro rfl
    exact nonempty placed.spelled.symm
  obtain ⟨back', trimmed⟩ := trim_letters some (unspaced_letters placed.spelled unspaced) back
  refine ⟨back', ⟨⟨?_, placed.spelled, rfl, fun earlier => ?_⟩, placed.bytes⟩⟩
  · rw [placed.parts, List.append_assoc, after_append, trimmed]
    rfl
  · have shorter := earlier.length_le
    have positive := List.length_pos_of_ne_nil nonempty
    rw [show toUppercase [] = [] from rfl, List.nil_append, List.length_dropLast] at shorter
    omega

end InPlace

theorem missing_findWord (missing : ¬ word <:+: toUppercase text) : findWord word text = none :=
  find_eq_none_iff.mpr missing

theorem Placed.fits {next : List Char → Prop} (placed : Placed word next text) :
    WordFits word 0 text ∧ WordFits word (byteLength word) text := by
  by_cases found : word <:+: toUppercase text
  · obtain ⟨front, letters, back, place, -⟩ := placed found
    exact ⟨place.fits, place.fits_past⟩
  · exact ⟨wordFits_missing (missing_findWord found), wordFits_missing (missing_findWord found)⟩

theorem ValuesPlaced.fits (placed : ValuesPlaced text) : WordFits valuesWord 0 text := by
  by_cases found : valuesWord <:+: toUppercase text
  · obtain ⟨front, letters, back, place⟩ := placed found
    exact place.fits
  · exact wordFits_missing (missing_findWord found)

end InPlace

theorem whereWord_unspaced : ∀ c ∈ whereWord, isWhitespace c = false := by
  have all : whereWord.all (fun c => !isWhitespace c) = true := rfl
  exact fun c member => by simpa using List.all_eq_true.mp all c member

theorem whereFits_nil : WhereFits [] :=
  ⟨wordFits_missing rfl, wordFits_missing rfl⟩

/-- What remains after the ON condition starts with WHERE, or is nothing. -/
theorem WherePlaced.rest (placed : WherePlaced text) : WhereFits (onParts text).2 := by
  unfold onParts
  by_cases found : whereWord <:+: toUppercase text
  · obtain ⟨front, letters, back, place, -⟩ := placed found
    obtain ⟨back', rest⟩ := place.rest whereWord_unspaced (List.cons_ne_nil _ _)
    rw [place.findWord]
    exact ⟨rest.fits, rest.fits_past⟩
  · rw [missing_findWord found]
    exact whereFits_nil

/-- The ON condition is what follows ON, and nothing without ON. -/
theorem OnPlaced.whereFits (placed : OnPlaced text) :
    WordFits whereWord 0 (onRest text) ∧ WhereFits (onParts (onRest text)).2 := by
  unfold onRest
  by_cases found : onWord <:+: toUppercase text
  · obtain ⟨front, letters, back, place, later⟩ := placed found
    have rest := place.after_word
    unfold after at rest
    rw [place.findWord, Option.getD_some, rest]
    exact ⟨(Placed.fits later).1, later.rest⟩
  · have past : getFrom text (byteLength text + byteLength onWord) = none := by
      unfold getFrom
      refine Option.map_eq_none_iff.mpr (Option.not_isSome_iff_eq_none.mp fun boundary => ?_)
      have inside : _ ≤ byteLength text := boundary_le boundary
      have four : byteLength onWord = 4 := by decide
      omega
    rw [missing_findWord found, Option.getD_none, past]
    exact ⟨whereFits_nil.1, whereFits_nil⟩

theorem FromPlaced.fits (placed : FromPlaced text) : FromFits text := by
  unfold FromFits
  by_cases found : joinWord <:+: toUppercase text
  · obtain ⟨front, letters, back, place, later⟩ := placed.joined found
    have rest : joinRest text (byteLength front) = trim back := congrArg trim place.after_word
    obtain ⟨condition, unjoined, past⟩ := later.whereFits
    rw [place.findWord]
    exact
      { table := place.boundary
        join := place.boundary_past
        on := rest ▸ (Placed.fits later).1
        condition := rest ▸ condition
        rest := rest ▸ past
        unjoined := fun _ => rest ▸ unjoined }
  · rw [missing_findWord found]
    exact Placed.fits (placed.unjoined found)

/-- A SELECT with its keywords in place is cut up if it has FROM. -/
theorem selectFits_placed (placed : Placed fromWord FromPlaced text) :
    SelectFits text ↔ fromWord <:+: toUppercase text := by
  unfold SelectFits
  by_cases found : fromWord <:+: toUppercase text
  · obtain ⟨front, letters, back, place, later⟩ := placed found
    refine iff_of_true ⟨byteLength front, place.findWord, place.boundary_past, ?_⟩ found
    rw [place.after_word]
    exact later.fits
  · rw [missing_findWord found]
    exact iff_of_false (fun ⟨_, impossible, _⟩ => by cases impossible) found

/-- A text does not start in two ways. -/
theorem not_isPrefixOf {first second : Char} {front back : List Char} (different : first ≠ second)
    (starts : (first :: front).isPrefixOf text = true) : ¬ (second :: back) <+: text := by
  rintro ⟨rest', same⟩
  obtain ⟨rest, rfl⟩ := List.isPrefixOf_iff_prefix.mp starts
  exact different (List.cons.inj same).1.symm

/-- With the keywords in place only FROM can be missed. -/
theorem statementFits_placed (placed : KeywordsPlaced text) : StatementFits text ↔ HasFrom text := by
  unfold StatementFits HasFrom
  split
  · next starts =>
      refine iff_of_true ?_ fun other => absurd other (not_isPrefixOf (by decide) starts)
      obtain ⟨letters, back, place⟩ := placed.createTable (List.isPrefixOf_iff_prefix.mp starts)
      have boundary := place.boundary_past
      rwa [byteLength_nil, Nat.zero_add] at boundary
  split
  · next starts =>
      refine iff_of_true ?_ fun other => absurd other (not_isPrefixOf (by decide) starts)
      obtain ⟨letters, back, place, later⟩ := placed.insert (List.isPrefixOf_iff_prefix.mp starts)
      have boundary := place.boundary_past
      have rest := place.after_word
      rw [byteLength_nil, Nat.zero_add] at boundary rest
      refine ⟨boundary, ?_⟩
      unfold insertRest
      rw [rest]
      exact later.fits
  split
  · next starts =>
      have begins := List.isPrefixOf_iff_prefix.mp starts
      rw [selectFits_placed (placed.select begins)]
      exact ⟨fun occurs _ => occurs, fun has => has begins⟩
  · next starts =>
      exact iff_of_true trivial fun begins => absurd (List.isPrefixOf_iff_prefix.mpr begins) starts

/-- Every character uppercases to one of as many bytes. -/
def Kept (text : List Char) : Prop :=
  ∀ c ∈ text, ∃ upper, upperChar c = [upper] ∧ upper.utf8Size = c.utf8Size

namespace Kept

theorem sublist {part : List Char} (kept : Kept text) (sub : part.Sublist text) : Kept part :=
  fun c member => kept c (sub.subset member)

theorem bytes (kept : Kept text) : byteLength (toUppercase text) = byteLength text := by
  induction text with
  | nil => rfl
  | cons c rest inductionHypothesis =>
      obtain ⟨upper, single, size⟩ := kept c List.mem_cons_self
      rw [toUppercase_cons, single, List.singleton_append, byteLength_cons, byteLength_cons, size,
        inductionHypothesis (kept.sublist (List.sublist_cons_self c rest))]

/-- A cut of the uppercased copy is one of the text. -/
theorem split {front back : List Char} (kept : Kept text) (whole : toUppercase text = front ++ back) :
    ∃ front' back', text = front' ++ back' ∧ toUppercase front' = front ∧
      toUppercase back' = back := by
  induction text generalizing front with
  | nil =>
      obtain ⟨rfl, rfl⟩ := List.append_eq_nil_iff.mp whole.symm
      exact ⟨[], [], rfl, rfl, rfl⟩
  | cons c rest inductionHypothesis =>
      obtain ⟨upper, single, -⟩ := kept c List.mem_cons_self
      rcases front with _ | ⟨head, front⟩
      · exact ⟨[], c :: rest, rfl, rfl, whole⟩
      · rw [toUppercase_cons, single] at whole
        obtain ⟨rfl, tail⟩ := List.cons.inj whole
        obtain ⟨front', back', rfl, rfl, rfl⟩ :=
          inductionHypothesis (kept.sublist (List.sublist_cons_self c rest)) tail
        exact ⟨c :: front', back', rfl, by rw [toUppercase_cons, single]; rfl, rfl⟩

/-- What the uppercased copy has first is in place. -/
theorem inPlace {word ahead behind : List Char} (kept : Kept text)
    (whole : toUppercase text = ahead ++ word ++ behind)
    (first : ¬ word <:+: (ahead ++ word).dropLast) :
    ∃ front letters back, InPlace word text front letters back ∧ toUppercase front = ahead ∧
      Kept back := by
  obtain ⟨start, back, rfl, spelled, -⟩ := kept.split whole
  have startKept := kept.sublist (List.sublist_append_left start back)
  obtain ⟨front, letters, rfl, rfl, rfl⟩ := startKept.split spelled
  exact ⟨front, letters, back,
    { parts := rfl
      spelled := rfl
      bytes := (startKept.sublist (List.sublist_append_right _ _)).bytes.symm
      ahead := (startKept.sublist (List.sublist_append_left _ _)).bytes
      first := first }, rfl, kept.sublist (List.sublist_append_right _ _)⟩

theorem placed {word : List Char} {next : List Char → Prop} (kept : Kept text)
    (nonempty : word ≠ []) (later : ∀ back, Kept back → next back) : Placed word next text := by
  intro occurs
  obtain ⟨offset, found, -⟩ := find_inside occurs []
  rw [List.append_nil] at found
  obtain ⟨ahead, behind, whole, -, first⟩ := find_eq_first nonempty found
  obtain ⟨front, letters, back, place, -, backKept⟩ := kept.inPlace whole first
  exact ⟨front, letters, back, place, later _ (backKept.sublist (trim_sublist back))⟩

theorem placed_start {word : List Char} (kept : Kept text) (nonempty : word ≠ [])
    (starts : word <+: toUppercase text) :
    ∃ letters back, InPlace word text [] letters back ∧ Kept back := by
  obtain ⟨behind, whole⟩ := starts
  obtain ⟨front, letters, back, place, empty, backKept⟩ := @inPlace text word [] behind kept whole.symm
    fun earlier => by
      have shorter := earlier.length_le
      have positive := List.length_pos_of_ne_nil nonempty
      rw [List.nil_append, List.length_dropLast] at shorter
      omega
  have none : byteLength front = 0 := by rw [← place.ahead, empty, byteLength_nil]
  have length := length_le_byteLength front
  obtain rfl := List.length_eq_zero_iff.mp (by omega : front.length = 0)
  exact ⟨letters, back, place, backKept⟩

theorem keywordsPlaced (kept : Kept text) : KeywordsPlaced text where
  createTable starts := by
    obtain ⟨letters, back, place, -⟩ := kept.placed_start (by decide) starts
    exact ⟨letters, back, place⟩
  insert starts := by
    obtain ⟨letters, back, place, backKept⟩ := kept.placed_start (by decide) starts
    refine ⟨letters, back, place, fun occurs => ?_⟩
    have valuesKept := @placed _ valuesWord (fun _ => True) (backKept.sublist (trim_sublist back))
      (by decide) fun _ _ => trivial
    obtain ⟨front, values, back, place, -⟩ := valuesKept occurs
    exact ⟨front, values, back, place.toStartsInPlace⟩
  select _ := by
    have whereKept : ∀ text, Kept text → WherePlaced text :=
      fun _ kept => kept.placed (by decide) fun _ _ => trivial
    have onKept : ∀ text, Kept text → OnPlaced text :=
      fun _ kept => kept.placed (by decide) whereKept
    exact kept.placed (by decide) fun text kept =>
      ⟨kept.placed (by decide) onKept, fun _ => whereKept text kept⟩

end Kept

/-- ASCII texts keep their bytes. -/
theorem kept_ascii (ascii : Ascii text) : Kept text := by
  intro c member
  have code := ascii c member
  refine ⟨c.toUpper, upperChar_ascii code, ?_⟩
  rw [utf8Size_ascii code, utf8Size_ascii (toNat_toUpper_lt code)]

/-- Of the texts that keep their bytes the parser fails on those that start with SELECT and
have no FROM. -/
theorem parse_returns_kept (input : String) (kept : Kept (trim input.toList)) :
    (∃ statement, parse input = .ok statement) ↔ HasFrom (trim input.toList) :=
  (parse_returns_iff input).trans (statementFits_placed kept.keywordsPlaced)

/-- Of the ASCII texts the parser fails on those that start with SELECT and have no FROM. -/
theorem parse_returns_ascii (input : String) (ascii : Ascii (trim input.toList)) :
    (∃ statement, parse input = .ok statement) ↔
      (selectWord.isPrefixOf (toUppercase (trim input.toList)) = true →
        findWord fromWord (trim input.toList) ≠ none) := by
  refine (parse_returns_kept input (kept_ascii ascii)).trans ?_
  unfold HasFrom findWord
  rw [List.isPrefixOf_iff_prefix, Ne, find_eq_none_iff, not_not]

end Parser

end MukhiDb.Model
