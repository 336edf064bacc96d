/-
  Clauses, queries and alias requests.
-/
import QueryCatalog.Input.Expr

namespace QueryCatalog.Input

/-- An alias or a stored query, as a source of rows or as an item of a select list. -/
inductive Reference where
  | aliased (lookup : Lookup)
  | subquery (lookup : Lookup)
deriving DecidableEq, Repr, Inhabited

/-- The columns of a select list. -/
inductive Columns where
  | all
  | list (items : List Reference)
deriving DecidableEq, Repr, Inhabited

/-- A second source, with the condition that pairs its rows. -/
structure Join where
  source : Reference
  condition : Cond
  kind : String
deriving Inhabited

/-- The select list and the sources. -/
structure Select where
  columns : Columns
  source : Reference
  join : Option Join
deriving Inhabited

/-- An item of an order. -/
structure OrderItem where
  operand : Expr
  direction : String
deriving Inhabited

/-- How many rows are given, and how many are left out before them. -/
structure Limit where
  rows : UInt64
  offset : UInt64
deriving DecidableEq, Repr, Inhabited

/-- A query. -/
structure Query where
  select : Select
  filter : Option Cond
  groups : Option (List Expr)
  having : Option Cond
  order : Option (List OrderItem)
  limit : Option Limit
deriving Inhabited

/-- What an alias stands for. -/
inductive Target where
  | expr (value : Expr)
  | cond (condition : Cond)
deriving Inhabited

/-- A request for a new alias. -/
structure AliasRequest where
  name : String
  target : Target
deriving Inhabited

end QueryCatalog.Input
