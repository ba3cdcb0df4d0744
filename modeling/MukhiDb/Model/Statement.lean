import MukhiDb.Model.Row

/-!
Contract: statements and the clauses of a query (`types.rs`, `parser.rs`).

Owns: comparison operators, WHERE conditions, JOIN clauses and the statements that
the parser returns.

Does not own: how a text is parsed, and what a statement does.
-/

namespace MukhiDb.Model

/-- Comparison operators for WHERE clauses. -/
inductive CompOp where
  | eq
  | lt
  | gt
deriving DecidableEq, Repr

/-- A single WHERE condition: column <op> value. -/
structure Expr where
  column : String
  op : CompOp
  value : Value
deriving DecidableEq

/-- JOIN clause: FROM <left> JOIN <right> ON <left_col> = <right_col> -/
structure JoinClause where
  rightTable : String
  leftCol : String
  rightCol : String
deriving DecidableEq

/-- All the SQL statements. -/
inductive Statement where
  | createTable (tableName : String) (columns : List Column)
  | insert (tableName : String) (values : List Value)
  | select (tableName : String) (join : Option JoinClause) (whereClause : Option Expr)
  | begin
  | commit
  | rollback
  | unknown (command : String)
deriving DecidableEq

end MukhiDb.Model
