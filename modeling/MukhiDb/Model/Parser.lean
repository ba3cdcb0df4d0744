import MukhiDb.Foundation.Decimal
import MukhiDb.Foundation.Text
import MukhiDb.Model.Statement

/-!
Contract: parsing a text into a statement (`parser.rs`).

Owns: `parse` and the parsers of the statements, on characters with byte offsets:
keywords are searched for in an uppercased copy, and the offsets found there cut the
text itself, with the panics of slicing.

Does not own: running a statement.
-/

namespace MukhiDb.Model

open MukhiDb.Foundation

namespace Parser

/-! ### Keywords -/

def createTableWords : List Char := ['C', 'R', 'E', 'A', 'T', 'E', ' ', 'T', 'A', 'B', 'L', 'E']

def insertIntoWords : List Char := ['I', 'N', 'S', 'E', 'R', 'T', ' ', 'I', 'N', 'T', 'O']

def selectWord : List Char := ['S', 'E', 'L', 'E', 'C', 'T']

def beginWord : List Char := ['B', 'E', 'G', 'I', 'N']

def commitWord : List Char := ['C', 'O', 'M', 'M', 'I', 'T']

def rollbackWord : List Char := ['R', 'O', 'L', 'L', 'B', 'A', 'C', 'K']

def valuesWord : List Char := ['V', 'A', 'L', 'U', 'E', 'S']

def fromWord : List Char := ['F', 'R', 'O', 'M']

def joinWord : List Char := ['J', 'O', 'I', 'N']

/-- `" ON "`. -/
def onWord : List Char := [' ', 'O', 'N', ' ']

def whereWord : List Char := ['W', 'H', 'E', 'R', 'E']

def integerWord : List Char := ['I', 'N', 'T', 'E', 'G', 'E', 'R']

def textWord : List Char := ['T', 'E', 'X', 'T']

/-- Where a keyword is first found in the uppercased text. -/
def findWord (word text : List Char) : Option Nat := find word (toUppercase text)

/-! ### Values -/

/-- `trim_matches`. -/
def trimMatches (c : Char) (text : List Char) : List Char :=
  (text.dropWhile (· = c)).rdropWhile (· = c)

/-- An integer, or the text without the quotes around it. -/
def valueOf (raw : List Char) : Value :=
  match readInt64 raw with
  | some n => .integer n
  | none => .text (String.ofList (trimMatches '"' (trimMatches '\'' raw)))

/-! ### CREATE TABLE -/

/-- `splitn(2, ' ')`, if there are two parts. -/
def splitOnce (text : List Char) : Option (List Char × List Char) :=
  match text.dropWhile (· ≠ ' ') with
  | [] => none
  | _ :: back => some (text.takeWhile (· ≠ ' '), back)

/-- The data type with a name. -/
def parseType (name : List Char) : Option DataType :=
  if toUppercase (trim name) = integerWord then some .integer
  else if toUppercase (trim name) = textWord then some .text
  else none

/-- One column definition. -/
def parseColumn (colDef : List Char) : Option Column :=
  match splitOnce (trim colDef) with
  | some (name, dataType) => (parseType dataType).map fun dataType => ⟨String.ofList name, dataType⟩
  | none => none

/-- `parse_create_table`. -/
def parseCreateTable (input : List Char) : Except Fault Statement := do
  let rest := trim (← sliceFrom input (byteLength createTableWords))
  let parenStart := (find ['('] rest).getD (byteLength rest)
  let tableName := trim (← sliceTo rest parenStart)
  let parenEnd := (rfindChar ')' rest).getD (byteLength rest)
  let colsStr := trim ((getRange rest (parenStart + 1) parenEnd).getD [])
  pure (.createTable (String.ofList tableName) ((colsStr.splitOn ',').filterMap parseColumn))

/-! ### INSERT INTO -/

/-- `parse_insert`. -/
def parseInsert (input : List Char) : Except Fault Statement := do
  let rest := trim (← sliceFrom input (byteLength insertIntoWords))
  let valuesKeyword := (findWord valuesWord rest).getD (byteLength rest)
  let tableName := trim (← sliceTo rest valuesKeyword)
  let parenStart := (find ['('] rest).getD (byteLength rest)
  let parenEnd := (rfindChar ')' rest).getD (byteLength rest)
  let valsStr := trim ((getRange rest (parenStart + 1) parenEnd).getD [])
  pure (.insert (String.ofList tableName) ((valsStr.splitOn ',').map fun v => valueOf (trim v)))

/-! ### SELECT -/

/-- The loop of `parse_where` over the operators. -/
def parseOps (cond : List Char) : List (Char × CompOp) → Except Fault (Option Expr)
  | [] => pure none
  | (sym, op) :: rest =>
      match find [sym] cond with
      | some pos => do
          let col := trim (← sliceTo cond pos)
          let raw := trim (← sliceFrom cond (pos + byteLength [sym]))
          pure (some ⟨String.ofList col, op, valueOf raw⟩)
      | none => parseOps cond rest

/-- `parse_where`. -/
def parseWhere (cond : List Char) : Except Fault (Option Expr) :=
  parseOps cond [('=', .eq), ('>', .gt), ('<', .lt)]

/-- The ON condition, cut at its `=`. -/
def parseOn (rightTable onCond : List Char) : Except Fault (Option JoinClause) :=
  match find ['='] onCond with
  | some eq => do
      let leftCol := trim (← sliceTo onCond eq)
      let rightCol := trim (← sliceFrom onCond (eq + 1))
      pure (some ⟨String.ofList rightTable, String.ofList leftCol, String.ofList rightCol⟩)
  | none => pure none

/-- The ON condition and what follows it from WHERE on. -/
def splitWhere (afterOn : List Char) : Except Fault (List Char × List Char) :=
  match findWord whereWord afterOn with
  | some w => do
      let onCond := trim (← sliceTo afterOn w)
      let rest := trim (← sliceFrom afterOn w)
      pure (onCond, rest)
  | none => pure (afterOn, [])

/-- The left table, the join clause and what follows it, when JOIN was found at `j`. -/
def parseJoin (afterFrom : List Char) (j : Nat) :
    Except Fault (List Char × Option JoinClause × List Char) := do
  let tname := trim (← sliceTo afterFrom j)
  let afterJoin := trim (← sliceFrom afterFrom (j + byteLength joinWord))
  let onPos := (findWord onWord afterJoin).getD (byteLength afterJoin)
  let rightTable := trim (← sliceTo afterJoin onPos)
  let afterOn := trim ((getFrom afterJoin (onPos + byteLength onWord)).getD [])
  let (onCond, rest) ← splitWhere afterOn
  let join ← parseOn rightTable onCond
  pure (tname, join, rest)

/-- The table and the WHERE clause without a join. -/
def selectFrom (remainder : List Char) : Except Fault Statement :=
  match findWord whereWord remainder with
  | some w => do
      let tname := trim (← sliceTo remainder w)
      let cond := trim (← sliceFrom remainder (w + byteLength whereWord))
      let whereClause ← parseWhere cond
      pure (.select (String.ofList tname) none whereClause)
  | none => pure (.select (String.ofList (trim remainder)) none none)

/-- The WHERE clause after a join. -/
def selectJoin (tableName : List Char) (join : JoinClause) (remainder : List Char) :
    Except Fault Statement :=
  match findWord whereWord remainder with
  | some w => do
      let cond := trim (← sliceFrom remainder (w + byteLength whereWord))
      let whereClause ← parseWhere cond
      pure (.select (String.ofList tableName) (some join) whereClause)
  | none => pure (.select (String.ofList tableName) (some join) none)

/-- `parse_select`. -/
def parseSelect (input : List Char) : Except Fault Statement := do
  let fromPos := (findWord fromWord input).getD (byteLength input)
  let afterFrom := trim (← sliceFrom input (fromPos + byteLength fromWord))
  match findWord joinWord afterFrom with
  | some j => do
      let (tableName, join, remainder) ← parseJoin afterFrom j
      match join with
      | some join => selectJoin tableName join remainder
      | none => selectFrom remainder
  | none => selectFrom afterFrom

/-! ### Statements -/

/-- `parse`, on the trimmed text. -/
def parseTrimmed (input : List Char) : Except Fault Statement :=
  let upper := toUppercase input
  if createTableWords.isPrefixOf upper then parseCreateTable input
  else if insertIntoWords.isPrefixOf upper then parseInsert input
  else if selectWord.isPrefixOf upper then parseSelect input
  else if upper = beginWord then pure .begin
  else if upper = commitWord then pure .commit
  else if upper = rollbackWord then pure .rollback
  else pure (.unknown (String.ofList input))

/-- `parse`: a raw SQL text into a statement. -/
def parse (input : String) : Except Fault Statement := parseTrimmed (trim input.toList)

end Parser

end MukhiDb.Model
