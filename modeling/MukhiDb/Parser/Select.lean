import MukhiDb.Parser.Literals
import MukhiDb.Parser.Slices

/-!
Contract: SELECT statements as they are written, and what they are parsed as.

Owns: conditions, and the operator that one is cut at; how much of the text the clauses
of a statement take up; and the names and literals for which a SELECT statement, with a
join or without, is parsed as it is meant.

Does not own: names and literals.
-/

namespace MukhiDb.Model

open MukhiDb.Foundation

namespace Parser

/-! ### Conditions -/

/-- The symbol of a comparison operator. -/
def symbol : CompOp → Char
  | .eq => '='
  | .lt => '<'
  | .gt => '>'

/-- No operator that is looked for before this one is in the text. -/
def FirstIn (text : List Char) : CompOp → Prop
  | .eq => True
  | .gt => '=' ∉ text
  | .lt => '=' ∉ text ∧ '>' ∉ text

/-- `<column> <op> <literal>`. -/
def conditionText (column : Name) (op : CompOp) (literal : Literal) : List Char :=
  column.chars ++ ' ' :: symbol op :: ' ' :: literal.written

theorem parseOps_found {sym : Char} {op : CompOp} {rest : List (Char × CompOp)}
    {front : List Char} (absent : sym ∉ front) (back : List Char) :
    parseOps (front ++ sym :: back) ((sym, op) :: rest) =
      .ok (some ⟨String.ofList (trim front), op, valueOf (trim back)⟩) := by
  have past : byteLength front + byteLength [sym] = byteLength (front ++ [sym]) :=
    (byteLength_append _ _).symm
  have cut : front ++ sym :: back = front ++ [sym] ++ back := by
    rw [List.append_assoc, List.singleton_append]
  unfold parseOps
  rw [find_char absent back]
  dsimp only
  rw [sliceTo_append, ok_bind, past, cut, sliceFrom_append, ok_bind]
  rfl

theorem parseOps_missing {sym : Char} {op : CompOp} {rest : List (Char × CompOp)}
    {cond : List Char} (absent : sym ∉ cond) :
    parseOps cond ((sym, op) :: rest) = parseOps cond rest := by
  have missing : find [sym] cond = none :=
    find_eq_none_iff.mpr fun occurs => absent (occurs.subset List.mem_cons_self)
  conv => lhs; unfold parseOps
  rw [missing]

/-- The condition is cut at the first symbol of the list that is in it. -/
theorem parseOps_mem {sym : Char} {op : CompOp} {rest : List (Char × CompOp)} {cond : List Char}
    (member : sym ∈ cond) :
    ∃ clause : Expr, parseOps cond ((sym, op) :: rest) = .ok (some clause) ∧ clause.op = op := by
  obtain ⟨front, back, rfl, absent⟩ := List.eq_append_cons_of_mem member
  exact ⟨_, parseOps_found absent back, rfl⟩

/-- An operator symbol of a condition is its own, or one in the literal. -/
theorem mem_conditionText {sym : Char} (operator : isNameChar sym = false) (unspaced : sym ≠ ' ')
    (column : Name) (op : CompOp) (literal : Literal) :
    sym ∈ conditionText column op literal ↔ sym = symbol op ∨ sym ∈ literal.written := by
  have absent := column.not_mem operator
  simp [conditionText, absent, unspaced]

/-- A condition is parsed as it is meant exactly if no operator that is looked for before its own
is in the literal. -/
theorem parseWhere_conditionText (column : Name) (op : CompOp) (literal : Literal) :
    ∃ clause : Expr, parseWhere (conditionText column op literal) = .ok (some clause) ∧
      (clause = ⟨column.text, op, literal.value⟩ ↔ FirstIn literal.written op) := by
  have meant : ∀ rest : List (Char × CompOp),
      parseOps (conditionText column op literal) ((symbol op, op) :: rest) =
        .ok (some ⟨column.text, op, literal.value⟩) := by
    intro rest
    have absent : symbol op ∉ column.chars ++ [' '] := by
      have other : isNameChar (symbol op) = false := by cases op <;> decide
      have unspaced : symbol op ≠ ' ' := by cases op <;> decide
      simp [column.not_mem other, unspaced]
    have cut : conditionText column op literal =
        (column.chars ++ [' ']) ++ symbol op :: (' ' :: literal.written) := by
      simp [conditionText]
    rw [cut, parseOps_found absent, trim_append_space column.trimmed column.nonempty, trim_space,
      literal.trimmed.trim, literal.valueOf_written]
    rfl
  have equals := @mem_conditionText '=' (by decide) (by decide) column op literal
  have greater := @mem_conditionText '>' (by decide) (by decide) column op literal
  unfold parseWhere
  cases op with
  | eq => exact ⟨_, meant _, iff_of_true rfl trivial⟩
  | gt =>
      by_cases shadowed : '=' ∈ literal.written
      · obtain ⟨clause, parsed, other⟩ := parseOps_mem (equals.mpr (Or.inr shadowed))
        refine ⟨clause, parsed, iff_of_false ?_ fun first => first shadowed⟩
        rintro rfl
        cases other
      · have missing : '=' ∉ conditionText column .gt literal := fun member =>
          (equals.mp member).elim nofun shadowed
        rw [parseOps_missing missing]
        exact ⟨_, meant _, iff_of_true rfl shadowed⟩
  | lt =>
      by_cases shadowed : '=' ∈ literal.written
      · obtain ⟨clause, parsed, other⟩ := parseOps_mem (equals.mpr (Or.inr shadowed))
        refine ⟨clause, parsed, iff_of_false ?_ fun first => first.1 shadowed⟩
        rintro rfl
        cases other
      have missing : '=' ∉ conditionText column .lt literal := fun member =>
        (equals.mp member).elim nofun shadowed
      rw [parseOps_missing missing]
      by_cases shadowed' : '>' ∈ literal.written
      · obtain ⟨clause, parsed, other⟩ := parseOps_mem (greater.mpr (Or.inr shadowed'))
        refine ⟨clause, parsed, iff_of_false ?_ fun first => first.2 shadowed'⟩
        rintro rfl
        cases other
      · have missing' : '>' ∉ conditionText column .lt literal := fun member =>
          (greater.mp member).elim nofun shadowed'
        rw [parseOps_missing missing']
        exact ⟨_, meant _, iff_of_true rfl ⟨shadowed, shadowed'⟩⟩

/-! ### How much of the text the clauses take up -/

/-- The column and the value of a condition lie in its text, next to the symbol. -/
theorem parseOps_size {cond : List Char} {ops : List (Char × CompOp)} {clause : Expr}
    (parsed : parseOps cond ops = .ok (some clause)) :
    ∃ raw, valueOf raw = clause.value ∧
      byteLength clause.column.toList + 1 + byteLength raw ≤ byteLength cond := by
  induction ops with
  | nil => cases parsed
  | cons entry rest inductionHypothesis =>
      obtain ⟨sym, op⟩ := entry
      unfold parseOps at parsed
      rcases found : find [sym] cond with _ | pos
      · rw [found] at parsed
        exact inductionHypothesis parsed
      · have boundaries := find_boundary found
        rw [found] at parsed
        dsimp only at parsed
        rw [sliceTo_ok boundaries.1, ok_bind, sliceFrom_ok boundaries.2, ok_bind] at parsed
        obtain rfl := Option.some.inj (Except.ok.inj parsed)
        refine ⟨trim (after cond (pos + byteLength [sym])), rfl, ?_⟩
        have inside := find_le found
        have column := byteLength_trim_le (before cond pos)
        have columnSize := byteLength_before_le cond pos
        have raw := byteLength_trim_le (after cond (pos + byteLength [sym]))
        have rawSize := byteLength_after_le cond (pos + byteLength [sym])
        have one : 0 < byteLength [sym] := sym.utf8Size_pos
        rw [String.toList_ofList]
        omega

/-- Without a join clause, the table and the condition lie in what remains. -/
theorem selectFrom_size {remainder : List Char} {name : String} {join : Option JoinClause}
    {clause : Option Expr} (parsed : selectFrom remainder = .ok (.select name join clause)) :
    join = none ∧ ∀ condition, clause = some condition → ∃ raw, valueOf raw = condition.value ∧
      byteLength name.toList + 5 + byteLength condition.column.toList + 1 + byteLength raw ≤
        byteLength remainder := by
  unfold selectFrom at parsed
  rcases found : findWord whereWord remainder with _ | w
  · rw [found] at parsed
    obtain ⟨-, rfl, rfl⟩ := Statement.select.inj (Except.ok.inj parsed)
    exact ⟨rfl, nofun⟩
  · have five : byteLength whereWord = 5 := by decide
    have fits := returns_selectFrom.mp ⟨_, by unfold selectFrom; exact parsed⟩
    have front : Boundary remainder w := (wordFits_found found).mp fits.1
    have back : Boundary remainder (w + byteLength whereWord) := (wordFits_found found).mp fits.2
    rw [found] at parsed
    dsimp only at parsed
    rw [sliceTo_ok front, ok_bind, sliceFrom_ok back, ok_bind] at parsed
    obtain ⟨whole, read, parsed⟩ := ok_of_bind parsed
    obtain ⟨rfl, rfl, rfl⟩ := Statement.select.inj (Except.ok.inj parsed)
    refine ⟨rfl, fun condition same => ?_⟩
    subst same
    obtain ⟨raw, value, size⟩ := parseOps_size read
    refine ⟨raw, value, ?_⟩
    have inside := boundary_le back
    have table := byteLength_trim_le (before remainder w)
    have tableSize := byteLength_before_le remainder w
    have cond := byteLength_trim_le (after remainder (w + byteLength whereWord))
    have condSize := byteLength_after_le remainder (w + byteLength whereWord)
    rw [String.toList_ofList]
    omega

theorem selectJoin_eq_ok {tableName remainder : List Char} {clause : JoinClause} {name : String}
    {join : Option JoinClause} {condition : Option Expr}
    (parsed : selectJoin tableName clause remainder = .ok (.select name join condition)) :
    name = String.ofList tableName ∧ join = some clause := by
  unfold selectJoin at parsed
  rcases found : findWord whereWord remainder with _ | w
  · rw [found] at parsed
    obtain ⟨rfl, rfl, -⟩ := Statement.select.inj (Except.ok.inj parsed)
    exact ⟨rfl, rfl⟩
  · rw [found] at parsed
    dsimp only at parsed
    obtain ⟨cond, -, parsed⟩ := ok_of_bind parsed
    obtain ⟨whole, -, parsed⟩ := ok_of_bind parsed
    obtain ⟨rfl, rfl, -⟩ := Statement.select.inj (Except.ok.inj parsed)
    exact ⟨rfl, rfl⟩

/-- Both columns of a join clause lie in the ON condition, next to the equals sign. -/
theorem parseOn_size {rightTable onCond : List Char} {clause : JoinClause}
    (parsed : parseOn rightTable onCond = .ok (some clause)) :
    byteLength clause.leftCol.toList + 1 + byteLength clause.rightCol.toList ≤
      byteLength onCond := by
  unfold parseOn at parsed
  rcases found : find ['='] onCond with _ | eq
  · rw [found] at parsed
    cases parsed
  · have boundaries := find_boundary found
    have one : byteLength ['='] = 1 := by decide
    rw [one] at boundaries
    rw [found] at parsed
    dsimp only at parsed
    rw [sliceTo_ok boundaries.1, ok_bind, sliceFrom_ok boundaries.2, ok_bind] at parsed
    obtain rfl := Option.some.inj (Except.ok.inj parsed)
    have inside := find_le found
    have left := byteLength_trim_le (before onCond eq)
    have leftSize := byteLength_before_le onCond eq
    have right := byteLength_trim_le (after onCond (eq + 1))
    have rightSize := byteLength_after_le onCond (eq + 1)
    rw [String.toList_ofList, String.toList_ofList]
    omega

/-- The table before JOIN, and what remains after the ON condition. -/
theorem parseJoin_size {afterFrom : List Char} {j : Nat}
    {parts : List Char × Option JoinClause × List Char}
    (parsed : parseJoin afterFrom j = .ok parts) :
    byteLength parts.1 ≤ j ∧ byteLength parts.2.2 ≤ byteLength afterFrom - 8 := by
  obtain ⟨table, join, on, condition⟩ := returns_parseJoin.mp ⟨parts, parsed⟩
  obtain ⟨clause, parsed', -⟩ := parseJoin_ok table join on condition
  obtain rfl := Except.ok.inj (parsed'.symm.trans parsed)
  have name := byteLength_trim_le (before afterFrom j)
  have nameSize := byteLength_before_le afterFrom j
  have joined : byteLength (joinRest afterFrom j) ≤ byteLength afterFrom - 4 := by
    have size := byteLength_after_le afterFrom (j + byteLength joinWord)
    have four : byteLength joinWord = 4 := by decide
    exact (byteLength_trim_le _).trans (size.trans (by omega))
  have on : byteLength (onRest (joinRest afterFrom j)) ≤ byteLength (joinRest afterFrom j) - 4 := by
    have size := byteLength_after_le (joinRest afterFrom j)
      ((findWord onWord (joinRest afterFrom j)).getD (byteLength (joinRest afterFrom j)) +
        byteLength onWord)
    have four : byteLength onWord = 4 := by decide
    exact (byteLength_trim_le _).trans (size.trans (by omega))
  have rest : byteLength (onParts (onRest (joinRest afterFrom j))).2 ≤
      byteLength (onRest (joinRest afterFrom j)) := by
    unfold onParts
    split
    · next w _ =>
        have size := byteLength_after_le (onRest (joinRest afterFrom j)) w
        exact (byteLength_trim_le _).trans (size.trans (Nat.sub_le _ _))
    · exact Nat.zero_le _
  refine ⟨name.trans nameSize, ?_⟩
  dsimp only
  omega

/-- The table is what is in front of WHERE. -/
theorem selectFrom_name {remainder : List Char} {name : String} {join : Option JoinClause}
    {clause : Option Expr} {w : Nat} (found : findWord whereWord remainder = some w)
    (parsed : selectFrom remainder = .ok (.select name join clause)) :
    byteLength name.toList ≤ w := by
  have fits := returns_selectFrom.mp ⟨_, parsed⟩
  have front : Boundary remainder w := (wordFits_found found).mp fits.1
  have back : Boundary remainder (w + byteLength whereWord) := (wordFits_found found).mp fits.2
  unfold selectFrom at parsed
  rw [found] at parsed
  dsimp only at parsed
  rw [sliceTo_ok front, ok_bind, sliceFrom_ok back, ok_bind] at parsed
  obtain ⟨whole, -, parsed⟩ := ok_of_bind parsed
  obtain ⟨rfl, -, -⟩ := Statement.select.inj (Except.ok.inj parsed)
  rw [String.toList_ofList]
  exact (byteLength_trim_le _).trans (byteLength_before_le _ _)

/-! ### SELECT -/

/-- `SELECT * FROM` and what follows. -/
def selectText (afterFrom : List Char) : String :=
  String.ofList (selectWord ++ [' ', '*'] ++ ' ' :: (fromWord ++ ' ' :: afterFrom))

theorem selectWord_trimmed : Trimmed selectWord :=
  trimmed_of_ends rfl rfl rfl rfl

/-- What follows FROM is parsed with a join if JOIN is in it, and else without. -/
theorem parse_selectText {afterFrom : List Char} (trimmed : Trimmed afterFrom)
    (nonempty : afterFrom ≠ []) :
    parse (selectText afterFrom) =
      match findWord joinWord afterFrom with
      | some j => parseJoin afterFrom j >>= fun parts =>
          match parts.2.1 with
          | some join => selectJoin parts.1 join parts.2.2
          | none => selectFrom parts.2.2
      | none => selectFrom afterFrom := by
  have whole : Trimmed (selectWord ++ [' ', '*'] ++ ' ' :: (fromWord ++ ' ' :: afterFrom)) := by
    have ends : selectWord ++ [' ', '*'] ++ ' ' :: (fromWord ++ ' ' :: afterFrom) =
        selectWord ++ ([' ', '*', ' '] ++ fromWord ++ [' ']) ++ afterFrom := by
      simp [List.append_assoc]
    rw [ends]
    exact selectWord_trimmed.between trimmed nofun nonempty _
  have upper : toUppercase (selectWord ++ [' ', '*'] ++ ' ' :: (fromWord ++ ' ' :: afterFrom)) =
      selectWord ++ (' ' :: '*' :: toUppercase (' ' :: (fromWord ++ ' ' :: afterFrom))) := by
    rw [toUppercase_append]
    rfl
  have found : findWord fromWord (selectWord ++ [' ', '*'] ++ ' ' :: (fromWord ++ ' ' :: afterFrom)) =
      some (byteLength (selectWord ++ [' ', '*', ' '])) := by
    rw [findWord_past (by decide) (by decide), findWord_start (by decide)]
    rfl
  have cut : selectWord ++ [' ', '*'] ++ ' ' :: (fromWord ++ ' ' :: afterFrom) =
      (selectWord ++ [' ', '*', ' '] ++ fromWord) ++ ' ' :: afterFrom := by
    simp [List.append_assoc]
  unfold parse selectText
  rw [String.toList_ofList, whole.trim]
  unfold parseTrimmed
  dsimp only
  rw [upper, if_neg nofun, if_neg nofun,
    if_pos (List.isPrefixOf_iff_prefix.mpr (List.prefix_append _ _))]
  unfold parseSelect
  rw [found, Option.getD_some]
  dsimp only
  rw [← byteLength_append, cut, sliceFrom_append, ok_bind, trim_space]
  have unchanged := trimmed.trim
  generalize trim afterFrom = rest at unchanged
  subst unchanged
  rfl

theorem whereWord_trimmed : Trimmed whereWord :=
  trimmed_of_ends rfl rfl rfl rfl

theorem conditionText_trimmed (column : Name) (op : CompOp) (literal : Literal) :
    Trimmed (conditionText column op literal) := by
  have whole : conditionText column op literal =
      column.chars ++ [' ', symbol op, ' '] ++ literal.written := by
    simp [conditionText]
  rw [whole]
  exact column.trimmed.between literal.trimmed column.nonempty literal.written_ne_nil _

/-! ### Without a join -/

/-- `<table> WHERE <condition>`. -/
def fromText (table : Name) (condition : List Char) : List Char :=
  table.chars ++ ' ' :: (whereWord ++ ' ' :: condition)

section Plain

variable (table column : Name) (op : CompOp) (literal : Literal)

theorem fromText_trimmed :
    Trimmed (fromText table (conditionText column op literal)) := by
  have whole : fromText table (conditionText column op literal) = table.chars ++
      (' ' :: (whereWord ++ ' ' :: (column.chars ++ [' ', symbol op, ' ']))) ++ literal.written := by
    simp [fromText, conditionText]
  rw [whole]
  exact table.trimmed.between literal.trimmed table.nonempty literal.written_ne_nil _

theorem fromText_ne_nil (condition : List Char) : fromText table condition ≠ [] := by
  unfold fromText
  exact List.append_ne_nil_of_right_ne_nil _ (List.cons_ne_nil _ _)

/-- JOIN is in a name or in the literal, if anywhere. -/
theorem findWord_join_fromText :
    findWord joinWord (fromText table (conditionText column op literal)) = none ↔
      ¬ joinWord <:+: toUppercase table.chars ∧ ¬ joinWord <:+: toUppercase column.chars ∧
        ¬ joinWord <:+: toUppercase literal.written := by
  have whereAbsent : ¬ joinWord <:+: toUppercase whereWord := by decide
  have symbolAbsent : ¬ joinWord <:+: toUppercase [symbol op] := by cases op <;> decide
  have whole : fromText table (conditionText column op literal) = table.chars ++ ' ' ::
      (whereWord ++ ' ' :: (column.chars ++ ' ' :: ([symbol op] ++ ' ' :: literal.written))) := rfl
  rw [findWord_eq_none_iff, whole, occurs_separated rfl (by decide), occurs_separated rfl (by decide),
    occurs_separated rfl (by decide), occurs_separated rfl (by decide)]
  simp only [whereAbsent, symbolAbsent, false_or, not_or]

/-- Without WHERE in its name, the table is what stands before WHERE. -/
theorem selectFrom_fromText (absent : ¬ whereWord <:+: toUppercase table.chars) :
    selectFrom (fromText table (conditionText column op literal)) =
      parseWhere (conditionText column op literal) >>= fun clause =>
        pure (.select table.text none clause) := by
  have found : findWord whereWord (fromText table (conditionText column op literal)) =
      some (byteLength (table.chars ++ [' '])) := by
    unfold fromText
    rw [findWord_past absent (by decide), findWord_start (by decide), byteLength_append,
      byteLength_toUppercase table.ascii, ← byteLength_append, Option.map_some, Nat.zero_add]
  have front : fromText table (conditionText column op literal) =
      (table.chars ++ [' ']) ++ (whereWord ++ ' ' :: conditionText column op literal) := by
    simp [fromText]
  have back : fromText table (conditionText column op literal) =
      (table.chars ++ [' '] ++ whereWord) ++ ' ' :: conditionText column op literal := by
    simp [fromText]
  have tname : sliceTo (fromText table (conditionText column op literal))
      (byteLength (table.chars ++ [' '])) = .ok (table.chars ++ [' ']) := by
    rw [front]
    exact sliceTo_append _ _
  have cond : sliceFrom (fromText table (conditionText column op literal))
      (byteLength (table.chars ++ [' ']) + byteLength whereWord) =
        .ok (' ' :: conditionText column op literal) := by
    rw [← byteLength_append, back]
    exact sliceFrom_append _ _
  unfold selectFrom
  rw [found]
  dsimp only
  rw [tname, ok_bind, cond, ok_bind, trim_append_space table.trimmed table.nonempty, trim_space,
    (conditionText_trimmed column op literal).trim]
  rfl

/-- A join in the text without a join clause takes up too much for the rest to be as written. -/
theorem plain_misjoined {j : Nat}
    (found : findWord joinWord (fromText table (conditionText column op literal)) = some j) :
    parse (selectText (fromText table (conditionText column op literal))) ≠
      .ok (.select table.text none (some ⟨column.text, op, literal.value⟩)) := by
  intro parsed
  rw [parse_selectText (fromText_trimmed table column op literal) (fromText_ne_nil table _),
    found] at parsed
  dsimp only at parsed
  obtain ⟨parts, joined, parsed⟩ := ok_of_bind parsed
  rcases clause : parts.2.1 with _ | join
  · rw [clause] at parsed
    obtain ⟨raw, value, size⟩ := (selectFrom_size parsed).2 _ rfl
    have small := (parseJoin_size joined).2
    have written := literal.written_le value
    have whole : byteLength (fromText table (conditionText column op literal)) =
        byteLength table.chars + 10 + byteLength column.chars + byteLength literal.written := by
      have five : byteLength whereWord = 5 := by decide
      have space : (' ' : Char).utf8Size = 1 := by decide
      have sign : (symbol op).utf8Size = 1 := by cases op <;> decide
      simp only [fromText, conditionText, byteLength_append, byteLength_cons, five, space, sign]
      omega
    rw [show table.text.toList = table.chars from String.toList_ofList,
      show (Expr.column ⟨column.text, op, literal.value⟩).toList = column.chars from
        String.toList_ofList] at size
    omega
  · rw [clause] at parsed
    cases (selectJoin_eq_ok parsed).2

/-- A SELECT statement without a join is parsed as it is meant exactly if JOIN is nowhere in it,
in capitals or not, WHERE not in the table name, and no operator that is looked for earlier in
the literal. -/
theorem plain_parsed_iff :
    parse (selectText (fromText table (conditionText column op literal))) =
        .ok (.select table.text none (some ⟨column.text, op, literal.value⟩)) ↔
      ¬ joinWord <:+: toUppercase table.chars ∧ ¬ joinWord <:+: toUppercase column.chars ∧
        ¬ joinWord <:+: toUppercase literal.written ∧ ¬ whereWord <:+: toUppercase table.chars ∧
        FirstIn literal.written op := by
  have missing := findWord_join_fromText table column op literal
  rcases found : findWord joinWord (fromText table (conditionText column op literal)) with _ | j
  · obtain ⟨tableFree, columnFree, literalFree⟩ := missing.mp found
    rw [and_iff_right tableFree, and_iff_right columnFree, and_iff_right literalFree,
      parse_selectText (fromText_trimmed table column op literal) (fromText_ne_nil table _), found]
    dsimp only
    by_cases occurs : whereWord <:+: toUppercase table.chars
    · refine iff_of_false ?_ fun both => both.1 occurs
      intro parsed
      obtain ⟨w, foundWhere, inside⟩ := findWord_inside occurs
        (' ' :: (whereWord ++ ' ' :: conditionText column op literal))
      have short := selectFrom_name foundWhere parsed
      have five : byteLength whereWord = 5 := by decide
      rw [byteLength_toUppercase table.ascii, five] at inside
      rw [show table.text.toList = table.chars from String.toList_ofList] at short
      omega
    · obtain ⟨clause, parsed, meant⟩ := parseWhere_conditionText column op literal
      rw [and_iff_right occurs, ← meant, selectFrom_fromText table column op literal occurs, parsed,
        ok_bind]
      constructor
      · exact fun same => Option.some.inj (Statement.select.inj (Except.ok.inj same)).2.2
      · exact fun same => by rw [same]; rfl
  · refine iff_of_false (plain_misjoined table column op literal found) ?_
    rintro ⟨tableFree, columnFree, literalFree, -⟩
    rw [missing.mpr ⟨tableFree, columnFree, literalFree⟩] at found
    cases found

end Plain

/-! ### With a join -/

/-- `<table>.<column>`. -/
def qualifiedText (table column : Name) : List Char := table.chars ++ '.' :: column.chars

/-- `<left> = <right>`. -/
def onText (left right : List Char) : List Char := left ++ ' ' :: '=' :: ' ' :: right

/-- `<right table> ON <left column> = <right column> WHERE <condition>`. -/
def joinedText (right : Name) (leftCol rightCol condition : List Char) : List Char :=
  right.chars ++ (onWord ++ (onText leftCol rightCol ++ ' ' :: (whereWord ++ ' ' :: condition)))

/-- `<table> JOIN <right table> ON <left column> = <right column> WHERE <condition>`. -/
def joinText (table right : Name) (leftCol rightCol condition : List Char) : List Char :=
  table.chars ++ ' ' :: (joinWord ++ ' ' :: joinedText right leftCol rightCol condition)

theorem qualifiedText_ascii (table column : Name) : Ascii (qualifiedText table column) := by
  intro c member
  rcases List.mem_append.mp member with member | member
  · exact table.ascii c member
  · rcases List.mem_cons.mp member with rfl | member
    · decide
    · exact column.ascii c member

theorem qualifiedText_trimmed (table column : Name) : Trimmed (qualifiedText table column) := by
  have whole : qualifiedText table column = table.chars ++ ['.'] ++ column.chars := by
    simp [qualifiedText]
  rw [whole]
  exact table.trimmed.between column.trimmed table.nonempty column.nonempty _

theorem qualifiedText_ne_nil (table column : Name) : qualifiedText table column ≠ [] :=
  List.append_ne_nil_of_right_ne_nil _ (List.cons_ne_nil _ _)

theorem qualifiedText_not_mem {c : Char} (other : isNameChar c = false) (notDot : c ≠ '.')
    (table column : Name) : c ∉ qualifiedText table column := by
  simp [qualifiedText, table.not_mem other, column.not_mem other, notDot]

section Joined

variable (table right leftColumn rightColumn column : Name) (op : CompOp) (literal : Literal)

theorem onText_ascii : Ascii (onText (qualifiedText table leftColumn)
    (qualifiedText right rightColumn)) := by
  intro c member
  have symbols : Ascii [' ', '=', ' '] := ascii_of_all rfl
  rw [show onText (qualifiedText table leftColumn) (qualifiedText right rightColumn) =
    qualifiedText table leftColumn ++ ([' ', '=', ' '] ++ qualifiedText right rightColumn) from rfl,
    List.mem_append, List.mem_append] at member
  rcases member with member | member | member
  · exact qualifiedText_ascii table leftColumn c member
  · exact symbols c member
  · exact qualifiedText_ascii right rightColumn c member

theorem onText_trimmed : Trimmed (onText (qualifiedText table leftColumn)
    (qualifiedText right rightColumn)) := by
  have whole : onText (qualifiedText table leftColumn) (qualifiedText right rightColumn) =
      qualifiedText table leftColumn ++ [' ', '=', ' '] ++ qualifiedText right rightColumn := by
    simp [onText]
  rw [whole]
  exact (qualifiedText_trimmed table leftColumn).between (qualifiedText_trimmed right rightColumn)
    (qualifiedText_ne_nil _ _) (qualifiedText_ne_nil _ _) _

/-- WHERE is in one of the names of the ON condition, if anywhere. -/
theorem where_onText :
    whereWord <:+: toUppercase
        (onText (qualifiedText table leftColumn) (qualifiedText right rightColumn)) ↔
      (whereWord <:+: toUppercase table.chars ∨ whereWord <:+: toUppercase leftColumn.chars) ∨
        whereWord <:+: toUppercase right.chars ∨ whereWord <:+: toUppercase rightColumn.chars := by
  have equalsAbsent : ¬ whereWord <:+: toUppercase ['='] := by decide
  rw [show onText (qualifiedText table leftColumn) (qualifiedText right rightColumn) =
      qualifiedText table leftColumn ++ ' ' :: (['='] ++ ' ' :: qualifiedText right rightColumn) from
      rfl,
    occurs_separated rfl (by decide), occurs_separated rfl (by decide)]
  unfold qualifiedText
  rw [occurs_separated rfl (by decide), occurs_separated rfl (by decide)]
  simp only [equalsAbsent, false_or]

/-- A name has no space in capitals either. -/
theorem space_not_mem_toUppercase (name : Name) : ' ' ∉ toUppercase name.chars := by
  rw [toUppercase_ascii name.ascii]
  intro member
  obtain ⟨c, found, upper⟩ := List.mem_map.mp member
  exact @forall_ascii (fun c => isNameChar c = true → c.toUpper ≠ ' ') (by decide) c
    (isNameChar_ascii (name.word c found)) (name.word c found) upper

variable (condition : List Char)

/-- The text after JOIN, up to the last part of the condition. -/
theorem joinedText_trimmed (leftCol rightCol : List Char) :
    Trimmed (joinedText right leftCol rightCol (conditionText column op literal)) := by
  have whole : joinedText right leftCol rightCol (conditionText column op literal) =
      right.chars ++ (onWord ++ (onText leftCol rightCol ++ ' ' :: (whereWord ++ [' ']))) ++
        conditionText column op literal := by
    simp [joinedText]
  rw [whole]
  refine right.trimmed.between (conditionText_trimmed column op literal) right.nonempty ?_ _
  exact List.append_ne_nil_of_right_ne_nil _ (List.cons_ne_nil _ _)

theorem joinText_trimmed (leftCol rightCol : List Char) :
    Trimmed (joinText table right leftCol rightCol (conditionText column op literal)) := by
  have whole : joinText table right leftCol rightCol (conditionText column op literal) =
      table.chars ++ (' ' :: (joinWord ++ [' '])) ++
        joinedText right leftCol rightCol (conditionText column op literal) := by
    simp [joinText]
  rw [whole]
  refine table.trimmed.between (joinedText_trimmed right column op literal leftCol rightCol)
    table.nonempty ?_ _
  exact List.append_ne_nil_of_right_ne_nil _ (List.append_ne_nil_of_left_ne_nil (List.cons_ne_nil _ _) _)

/-- ON is found after the right table, whose name has no spaces. -/
theorem findWord_on_joinedText (leftCol rightCol : List Char) :
    findWord onWord (joinedText right leftCol rightCol condition) = some (byteLength right.chars) := by
  have capital : toUppercase onWord = onWord := by decide
  unfold findWord joinedText
  rw [toUppercase_append, toUppercase_append, capital]
  exact (find_first (space_not_mem_toUppercase right) ['O', 'N', ' '] _).trans
    (congrArg some (byteLength_toUppercase right.ascii))

/-- Without JOIN in its name, the left table is what stands before JOIN, and the right one what
stands before ON. -/
theorem parseJoin_joinText (leftCol rightCol : List Char) (leftTrimmed : Trimmed leftCol)
    (leftNonempty : leftCol ≠ []) :
    parseJoin (joinText table right leftCol rightCol (conditionText column op literal))
        (byteLength (table.chars ++ [' '])) =
      splitWhere (onText leftCol rightCol ++
          ' ' :: (whereWord ++ ' ' :: conditionText column op literal)) >>= fun parts =>
        parseOn right.chars parts.1 >>= fun join => pure (table.chars, join, parts.2) := by
  have front : joinText table right leftCol rightCol (conditionText column op literal) =
      (table.chars ++ [' ']) ++
        (joinWord ++ ' ' :: joinedText right leftCol rightCol (conditionText column op literal)) := by
    simp [joinText]
  have back : joinText table right leftCol rightCol (conditionText column op literal) =
      (table.chars ++ [' '] ++ joinWord) ++
        ' ' :: joinedText right leftCol rightCol (conditionText column op literal) := by
    simp [joinText]
  have tname : sliceTo (joinText table right leftCol rightCol (conditionText column op literal))
      (byteLength (table.chars ++ [' '])) = .ok (table.chars ++ [' ']) := by
    rw [front]
    exact sliceTo_append _ _
  have afterJoin : sliceFrom (joinText table right leftCol rightCol (conditionText column op literal))
      (byteLength (table.chars ++ [' ']) + byteLength joinWord) =
        .ok (' ' :: joinedText right leftCol rightCol (conditionText column op literal)) := by
    rw [← byteLength_append, back]
    exact sliceFrom_append _ _
  have rightTable : sliceTo (joinedText right leftCol rightCol (conditionText column op literal))
      (byteLength right.chars) = .ok right.chars := by
    unfold joinedText
    exact sliceTo_append _ _
  have afterOn : getFrom (joinedText right leftCol rightCol (conditionText column op literal))
      (byteLength right.chars + byteLength onWord) =
        some (onText leftCol rightCol ++ ' ' :: (whereWord ++ ' ' :: conditionText column op literal)) := by
    unfold joinedText
    rw [← byteLength_append, ← List.append_assoc]
    exact getFrom_append _ _
  have trimmed : Trimmed (onText leftCol rightCol ++
      ' ' :: (whereWord ++ ' ' :: conditionText column op literal)) := by
    have whole : onText leftCol rightCol ++
        ' ' :: (whereWord ++ ' ' :: conditionText column op literal) =
        leftCol ++ (' ' :: '=' :: ' ' :: rightCol ++ ' ' :: (whereWord ++ [' '])) ++
          conditionText column op literal := by
      simp [onText]
    rw [whole]
    exact leftTrimmed.between (conditionText_trimmed column op literal) leftNonempty
      (List.append_ne_nil_of_right_ne_nil _ (List.cons_ne_nil _ _)) _
  unfold parseJoin
  rw [tname, ok_bind, afterJoin, ok_bind]
  dsimp only
  rw [trim_space, (joinedText_trimmed right column op literal leftCol rightCol).trim,
    findWord_on_joinedText, Option.getD_some, rightTable, ok_bind, afterOn, Option.getD_some,
    trimmed.trim, trim_append_space table.trimmed table.nonempty, right.trimmed.trim]

end Joined

section JoinParsed

variable (table right leftColumn rightColumn column : Name) (op : CompOp) (literal : Literal)

/-- The join clause that is meant. -/
def joinClause : JoinClause :=
  ⟨right.text, String.ofList (qualifiedText table leftColumn),
    String.ofList (qualifiedText right rightColumn)⟩

/-- The statement with a join. -/
def joinSelect : String :=
  selectText (joinText table right (qualifiedText table leftColumn)
    (qualifiedText right rightColumn) (conditionText column op literal))

theorem joinText_ne_nil (leftCol rightCol condition : List Char) :
    joinText table right leftCol rightCol condition ≠ [] := by
  unfold joinText
  exact List.append_ne_nil_of_right_ne_nil _ (List.cons_ne_nil _ _)

/-- With JOIN in the name of the left table, the name is cut off there. -/
theorem join_misnamed (occurs : joinWord <:+: toUppercase table.chars) (clause : JoinClause)
    (condition : Option Expr) :
    parse (joinSelect table right leftColumn rightColumn column op literal) ≠
      .ok (.select table.text (some clause) condition) := by
  intro parsed
  obtain ⟨j, found, inside⟩ := findWord_inside occurs (' ' :: (joinWord ++ ' ' ::
    joinedText right (qualifiedText table leftColumn) (qualifiedText right rightColumn)
      (conditionText column op literal)))
  have four : byteLength joinWord = 4 := by decide
  rw [byteLength_toUppercase table.ascii, four] at inside
  unfold joinSelect at parsed
  rw [parse_selectText (joinText_trimmed table right column op literal _ _)
    (joinText_ne_nil table right _ _ _)] at parsed
  unfold joinText at parsed
  rw [found] at parsed
  dsimp only at parsed
  obtain ⟨parts, joined, parsed⟩ := ok_of_bind parsed
  rcases joins : parts.2.1 with _ | join
  · rw [joins] at parsed
    cases (selectFrom_size parsed).1
  · rw [joins] at parsed
    have short := (parseJoin_size joined).1
    have same := String.ofList_injective (selectJoin_eq_ok parsed).1
    rw [← same] at short
    omega

/-- Without JOIN in its name, the left table is in front of JOIN. -/
theorem parse_joinSelect (absent : ¬ joinWord <:+: toUppercase table.chars) :
    parse (joinSelect table right leftColumn rightColumn column op literal) =
      splitWhere (onText (qualifiedText table leftColumn) (qualifiedText right rightColumn) ++
          ' ' :: (whereWord ++ ' ' :: conditionText column op literal)) >>= fun parts =>
        parseOn right.chars parts.1 >>= fun join =>
          match join with
          | some join => selectJoin table.chars join parts.2
          | none => selectFrom parts.2 := by
  have found : findWord joinWord (joinText table right (qualifiedText table leftColumn)
      (qualifiedText right rightColumn) (conditionText column op literal)) =
        some (byteLength (table.chars ++ [' '])) := by
    unfold joinText
    rw [findWord_past absent (by decide), findWord_start (by decide), byteLength_append,
      byteLength_toUppercase table.ascii, ← byteLength_append, Option.map_some, Nat.zero_add]
  unfold joinSelect
  rw [parse_selectText (joinText_trimmed table right column op literal _ _)
    (joinText_ne_nil table right _ _ _), found]
  dsimp only
  rw [parseJoin_joinText table right column op literal _ _ (qualifiedText_trimmed table leftColumn)
    (qualifiedText_ne_nil table leftColumn), bind_assoc]
  refine bind_congr fun parts => ?_
  rw [bind_assoc]
  rfl

/-- With WHERE in a name of the ON condition, the condition is cut off there. -/
theorem join_miscut (absent : ¬ joinWord <:+: toUppercase table.chars)
    (occurs : whereWord <:+: toUppercase
      (onText (qualifiedText table leftColumn) (qualifiedText right rightColumn)))
    (condition : Option Expr) :
    parse (joinSelect table right leftColumn rightColumn column op literal) ≠
      .ok (.select table.text (some (joinClause table right leftColumn rightColumn)) condition) := by
  intro parsed
  rw [parse_joinSelect table right leftColumn rightColumn column op literal absent] at parsed
  have fits := (returns_splitWhere_bind.mp ⟨_, parsed⟩).1
  obtain ⟨parts, split, parsed⟩ := ok_of_bind parsed
  obtain ⟨join, on, parsed⟩ := ok_of_bind parsed
  rcases join with _ | join
  · cases (selectFrom_size parsed).1
  obtain rfl := Option.some.inj (selectJoin_eq_ok parsed).2
  have size := parseOn_size on
  obtain ⟨w, found, inside⟩ := findWord_inside occurs
    (' ' :: (whereWord ++ ' ' :: conditionText column op literal))
  rw [byteLength_toUppercase (onText_ascii table right leftColumn rightColumn)] at inside
  have short : byteLength parts.1 ≤ w := by
    obtain rfl := Except.ok.inj ((splitWhere_ok fits).symm.trans split)
    unfold onParts
    rw [found]
    exact (byteLength_trim_le _).trans (byteLength_before_le _ _)
  have five : byteLength whereWord = 5 := by decide
  have whole : byteLength (onText (qualifiedText table leftColumn) (qualifiedText right rightColumn)) =
      byteLength (qualifiedText table leftColumn) + 3 +
        byteLength (qualifiedText right rightColumn) := by
    have space : (' ' : Char).utf8Size = 1 := by decide
    have equals : ('=' : Char).utf8Size = 1 := by decide
    simp only [onText, byteLength_append, byteLength_cons, space, equals]
    omega
  rw [show (joinClause table right leftColumn rightColumn).leftCol.toList =
      qualifiedText table leftColumn from String.toList_ofList,
    show (joinClause table right leftColumn rightColumn).rightCol.toList =
      qualifiedText right rightColumn from String.toList_ofList] at size
  omega

/-- Without WHERE in its names, the ON condition ends before WHERE. -/
theorem splitWhere_onText (uncut : ¬ whereWord <:+: toUppercase
      (onText (qualifiedText table leftColumn) (qualifiedText right rightColumn))) :
    splitWhere (onText (qualifiedText table leftColumn) (qualifiedText right rightColumn) ++
        ' ' :: (whereWord ++ ' ' :: conditionText column op literal)) =
      .ok (onText (qualifiedText table leftColumn) (qualifiedText right rightColumn),
        whereWord ++ ' ' :: conditionText column op literal) := by
  have ascii := onText_ascii table right leftColumn rightColumn
  have trimmed := onText_trimmed table right leftColumn rightColumn
  have nonempty : onText (qualifiedText table leftColumn) (qualifiedText right rightColumn) ≠ [] :=
    List.append_ne_nil_of_right_ne_nil _ (List.cons_ne_nil _ _)
  generalize onText (qualifiedText table leftColumn) (qualifiedText right rightColumn) = on at *
  have found : findWord whereWord (on ++ ' ' :: (whereWord ++ ' ' :: conditionText column op literal)) =
      some (byteLength (on ++ [' '])) := by
    rw [findWord_past uncut (by decide), findWord_start (by decide), byteLength_append,
      byteLength_toUppercase ascii, ← byteLength_append, Option.map_some, Nat.zero_add]
  have cut : on ++ ' ' :: (whereWord ++ ' ' :: conditionText column op literal) =
      (on ++ [' ']) ++ (whereWord ++ ' ' :: conditionText column op literal) := by
    simp
  have rest : Trimmed (whereWord ++ ' ' :: conditionText column op literal) := by
    have whole : whereWord ++ ' ' :: conditionText column op literal =
        whereWord ++ [' '] ++ conditionText column op literal := by
      simp
    rw [whole]
    exact whereWord_trimmed.between (conditionText_trimmed column op literal) nofun
      (List.append_ne_nil_of_right_ne_nil _ (List.cons_ne_nil _ _)) _
  unfold splitWhere
  rw [found]
  dsimp only
  rw [cut, sliceTo_append, ok_bind, sliceFrom_append, ok_bind, trim_append_space trimmed nonempty,
    rest.trim]
  rfl

/-- The ON condition is cut at its equals sign. -/
theorem parseOn_onText :
    parseOn right.chars
        (onText (qualifiedText table leftColumn) (qualifiedText right rightColumn)) =
      .ok (some (joinClause table right leftColumn rightColumn)) := by
  have absent : '=' ∉ qualifiedText table leftColumn ++ [' '] := by
    simp [qualifiedText_not_mem (show isNameChar '=' = false by decide) (by decide)]
  have front : onText (qualifiedText table leftColumn) (qualifiedText right rightColumn) =
      (qualifiedText table leftColumn ++ [' ']) ++ '=' :: (' ' :: qualifiedText right rightColumn) := by
    simp [onText]
  have back : onText (qualifiedText table leftColumn) (qualifiedText right rightColumn) =
      (qualifiedText table leftColumn ++ [' '] ++ ['=']) ++ (' ' :: qualifiedText right rightColumn) := by
    simp [onText]
  have found : find ['='] (onText (qualifiedText table leftColumn) (qualifiedText right rightColumn)) =
      some (byteLength (qualifiedText table leftColumn ++ [' '])) := by
    rw [front]
    exact find_char absent _
  have leftCol : sliceTo (onText (qualifiedText table leftColumn) (qualifiedText right rightColumn))
      (byteLength (qualifiedText table leftColumn ++ [' '])) =
        .ok (qualifiedText table leftColumn ++ [' ']) := by
    rw [front]
    exact sliceTo_append _ _
  have rightCol : sliceFrom (onText (qualifiedText table leftColumn) (qualifiedText right rightColumn))
      (byteLength (qualifiedText table leftColumn ++ [' ']) + 1) =
        .ok (' ' :: qualifiedText right rightColumn) := by
    have past : byteLength (qualifiedText table leftColumn ++ [' ']) + 1 =
        byteLength (qualifiedText table leftColumn ++ [' '] ++ ['=']) := (byteLength_append _ ['=']).symm
    rw [past, back]
    exact sliceFrom_append _ _
  unfold parseOn
  rw [found]
  dsimp only
  rw [leftCol, ok_bind, rightCol, ok_bind, trim_space, (qualifiedText_trimmed right rightColumn).trim,
    trim_append_space (qualifiedText_trimmed table leftColumn) (qualifiedText_ne_nil table leftColumn)]
  rfl

/-- After the join clause, the condition is what follows WHERE. -/
theorem selectJoin_where (clause : JoinClause) :
    selectJoin table.chars clause (whereWord ++ ' ' :: conditionText column op literal) =
      parseWhere (conditionText column op literal) >>= fun condition =>
        pure (.select table.text (some clause) condition) := by
  unfold selectJoin
  rw [findWord_start (by decide)]
  dsimp only
  rw [Nat.zero_add, sliceFrom_append, ok_bind, trim_space,
    (conditionText_trimmed column op literal).trim]
  rfl

/-- Without JOIN and WHERE in the names, the join clause is the one that is meant. -/
theorem parse_joined (absent : ¬ joinWord <:+: toUppercase table.chars)
    (uncut : ¬ whereWord <:+: toUppercase
      (onText (qualifiedText table leftColumn) (qualifiedText right rightColumn))) :
    parse (joinSelect table right leftColumn rightColumn column op literal) =
      parseWhere (conditionText column op literal) >>= fun clause =>
        pure (.select table.text (some (joinClause table right leftColumn rightColumn)) clause) := by
  rw [parse_joinSelect table right leftColumn rightColumn column op literal absent,
    splitWhere_onText table right leftColumn rightColumn column op literal uncut, ok_bind,
    parseOn_onText, ok_bind]
  exact selectJoin_where table column op literal _

/-- A SELECT statement with a join is parsed as it is meant exactly if JOIN is not in the name of
the left table, in capitals or not, WHERE not in a name up to the ON condition, and no operator
that is looked for earlier in the literal. -/
theorem join_parsed_iff :
    parse (joinSelect table right leftColumn rightColumn column op literal) =
        .ok (.select table.text (some (joinClause table right leftColumn rightColumn))
          (some ⟨column.text, op, literal.value⟩)) ↔
      ¬ joinWord <:+: toUppercase table.chars ∧ ¬ whereWord <:+: toUppercase table.chars ∧
        ¬ whereWord <:+: toUppercase leftColumn.chars ∧ ¬ whereWord <:+: toUppercase right.chars ∧
        ¬ whereWord <:+: toUppercase rightColumn.chars ∧ FirstIn literal.written op := by
  have names := where_onText table right leftColumn rightColumn
  by_cases occurs : joinWord <:+: toUppercase table.chars
  · exact iff_of_false (join_misnamed table right leftColumn rightColumn column op literal occurs _ _)
      fun all => all.1 occurs
  by_cases cut : whereWord <:+: toUppercase
      (onText (qualifiedText table leftColumn) (qualifiedText right rightColumn))
  · refine iff_of_false
      (join_miscut table right leftColumn rightColumn column op literal occurs cut _) ?_
    rintro ⟨-, tableFree, leftFree, rightFree, columnFree, -⟩
    rcases names.mp cut with (found | found) | found | found
    · exact tableFree found
    · exact leftFree found
    · exact rightFree found
    · exact columnFree found
  · have free := not_or.mp (mt names.mpr cut)
    obtain ⟨tableFree, leftFree⟩ := not_or.mp free.1
    obtain ⟨rightFree, columnFree⟩ := not_or.mp free.2
    obtain ⟨clause, parsed, meant⟩ := parseWhere_conditionText column op literal
    rw [and_iff_right occurs, and_iff_right tableFree, and_iff_right leftFree,
      and_iff_right rightFree, and_iff_right columnFree, ← meant,
      parse_joined table right leftColumn rightColumn column op literal occurs cut, parsed, ok_bind]
    constructor
    · exact fun same => Option.some.inj (Statement.select.inj (Except.ok.inj same)).2.2
    · exact fun same => by rw [same]; rfl

/-- A SELECT statement is parsed as it is meant exactly if the words and operators that are looked
for first are not in its names or its literal: JOIN, in capitals or not, nowhere in a statement
without a join, and with one not in the left table; WHERE not in a name in front of WHERE; and in
the literal no equals sign after `<` or `>`, and no `>` after `<`. -/
theorem select_parsed_iff :
    (parse (selectText (fromText table (conditionText column op literal))) =
        .ok (.select table.text none (some ⟨column.text, op, literal.value⟩)) ↔
      ¬ joinWord <:+: toUppercase table.chars ∧ ¬ joinWord <:+: toUppercase column.chars ∧
        ¬ joinWord <:+: toUppercase literal.written ∧ ¬ whereWord <:+: toUppercase table.chars ∧
        FirstIn literal.written op) ∧
    (parse (joinSelect table right leftColumn rightColumn column op literal) =
        .ok (.select table.text (some (joinClause table right leftColumn rightColumn))
          (some ⟨column.text, op, literal.value⟩)) ↔
      ¬ joinWord <:+: toUppercase table.chars ∧ ¬ whereWord <:+: toUppercase table.chars ∧
        ¬ whereWord <:+: toUppercase leftColumn.chars ∧ ¬ whereWord <:+: toUppercase right.chars ∧
        ¬ whereWord <:+: toUppercase rightColumn.chars ∧ FirstIn literal.written op) :=
  ⟨plain_parsed_iff table column op literal,
    join_parsed_iff table right leftColumn rightColumn column op literal⟩

end JoinParsed

/-- `SELECT * FROM t WHERE c > 'a=b'` is cut at the equals sign. -/
theorem select_equals_parsed :
    parse (selectText (fromText ⟨['t'], nofun, List.forall_mem_singleton.mpr rfl⟩
      (conditionText ⟨['c'], nofun, List.forall_mem_singleton.mpr rfl⟩ .gt
        (.text ['a', '=', 'b'] (by decide))))) ≠
      .ok (.select "t" none (some ⟨"c", .gt, .text "a=b"⟩)) := by
  have parsed : parse (selectText (fromText ⟨['t'], nofun, List.forall_mem_singleton.mpr rfl⟩
      (conditionText ⟨['c'], nofun, List.forall_mem_singleton.mpr rfl⟩ .gt
        (.text ['a', '=', 'b'] (by decide))))) =
        .ok (.select "t" none (some ⟨"c > 'a", .eq, .text "b"⟩)) := rfl
  rw [parsed]
  intro same
  have clause := Option.some.inj (Statement.select.inj (Except.ok.inj same)).2.2
  cases congrArg Expr.op clause

end Parser

end MukhiDb.Model
