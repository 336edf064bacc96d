/-
  Resolved clauses and queries.

  A query is written as its clauses in statement order, one blank between them, absent ones left out,
  and a semicolon at the end.
-/
import QueryCatalog.Input.Query
import QueryCatalog.Sql.Expr

namespace QueryCatalog.Sql

/-! ## Clauses -/

/-- A source of rows. -/
inductive Source where
  /-- An alias of a table. -/
  | table (target : Alias)
  /-- A stored query, called by its name. -/
  | subquery (query : StoredQuery)
deriving DecidableEq, Repr, Inhabited

/-- An item of a select list. -/
inductive SelectItem where
  | aliased (target : Alias)
  | subquery (subquery : ScalarSubquery)
deriving DecidableEq, Repr, Inhabited

/-- The columns of a select list. -/
inductive Columns where
  | all
  | list (items : List SelectItem)
deriving DecidableEq, Repr, Inhabited

/-- A second source, with the condition that pairs its rows. -/
structure Join where
  kind : JoinKind
  source : Source
  condition : Cond
deriving Inhabited

/-- The select list and the sources. -/
structure Select where
  columns : Columns
  source : Source
  join : Option Join
deriving Inhabited

/-- An item of an order. -/
structure OrderItem where
  operand : Expr
  direction : Direction
deriving Inhabited

/-- A resolved query. -/
structure Query where
  select : Select
  filter : Option Cond
  groups : Option (List Expr)
  having : Option Cond
  order : Option (List OrderItem)
  limit : Option Input.Limit
deriving Inhabited

/-! ## Text -/

/-- The source as it stands in a statement. -/
def Source.render : Source → String
  | .table target => target.body.target
  | .subquery query =>
    "(" ++ query.body.statement ++ ") AS " ++ Text.quotedName query.body.name

/-- The item as it stands in a select list. -/
def SelectItem.render : SelectItem → String
  | .aliased target => target.body.target ++ " AS " ++ Text.quotedName target.body.name
  | .subquery s => s.render ++ " AS " ++ Text.quotedName s.query.body.name

/-- The columns as they stand in a select list. -/
def Columns.render : Columns → String
  | .all => "*"
  | .list items => Text.joined ", " (items.map SelectItem.render)

/-- The join as it stands in a statement. -/
def Join.render (j : Join) : String :=
  Keyword.text j.kind ++ " JOIN " ++ j.source.render ++ " ON " ++ j.condition.render

/-- The select list and the sources as they stand in a statement. -/
def Select.render (s : Select) : String :=
  "SELECT " ++ s.columns.render ++ " FROM " ++ s.source.render ++
    (match s.join with
      | some j => " " ++ j.render
      | none => "")

/-- The filter as it stands in a statement. -/
def renderFilter (condition : Cond) : String := "WHERE " ++ condition.render

/-- The grouping as it stands in a statement. -/
def renderGroups (items : List Expr) : String := "GROUP BY " ++ Text.joined ", " (renderExprs items)

/-- The filter on groups as it stands in a statement. -/
def renderHaving (condition : Cond) : String := "HAVING " ++ condition.render

/-- The item as it stands in an order. -/
def OrderItem.render (item : OrderItem) : String :=
  item.operand.render ++ " " ++ Keyword.text item.direction

/-- The order as it stands in a statement. -/
def renderOrder (items : List OrderItem) : String :=
  "ORDER BY " ++ Text.joined ", " (items.map OrderItem.render)

/-- The limit as it stands in a statement. -/
def renderLimit (limit : Input.Limit) : String :=
  "LIMIT " ++ toString limit.rows.toNat ++ " OFFSET " ++ toString limit.offset.toNat

/-- The clauses in statement order; an absent clause is the empty text. -/
def Query.clauses (q : Query) : List String :=
  [ q.select.render,
    (q.filter.map renderFilter).getD "",
    (q.groups.map renderGroups).getD "",
    (q.having.map renderHaving).getD "",
    (q.order.map renderOrder).getD "",
    (q.limit.map renderLimit).getD "" ]

/-- The query as a statement. -/
def Query.render (q : Query) : String :=
  Text.trimEnd (Text.joined " " (q.clauses.filter fun clause => !clause.isEmpty)) ++ ";"

/-! ## Aggregates and columns -/

/-- Whether the item is an aggregate. -/
def SelectItem.isAggregate : SelectItem → Bool
  | .aliased target => target.body.isAggregate
  | .subquery _ => false

/-- Whether the pairing condition holds an aggregate. -/
def Join.isAggregate (j : Join) : Bool := j.condition.isAggregate

/-- Whether the select list holds an aggregate. -/
def Select.isAggregate (s : Select) : Bool :=
  match s.columns with
  | .all => false
  | .list items => items.any SelectItem.isAggregate

/-- Whether the order holds an aggregate. -/
def isAggregateOrder (items : List OrderItem) : Bool := items.any fun item => item.operand.isAggregate

/-- Whether a clause that allows aggregates holds one. -/
def Query.isAggregate (q : Query) : Bool :=
  q.select.isAggregate || q.having.any Cond.isAggregate || q.order.any isAggregateOrder

/-- The number of columns, or -1 for all columns of the sources. -/
def Columns.count : Columns → Int64
  | .all => -1
  | .list items => Int64.ofNat items.length

/-- What a query is compiled to: its statement and the number of its columns. -/
structure Compiled where
  sql : String
  columnCount : Int64
deriving DecidableEq, Repr, Inhabited

/-- The query compiled. -/
def Query.compiled (q : Query) : Compiled := ⟨q.render, q.select.columns.count⟩

/-! ## Inspection -/

/-- A clause as it is inspected: what it is, and its text. -/
def inspected (label : String) (text : String) : String := label ++ "(" ++ text ++ ")"

/-- The source as it is inspected. -/
def Source.inspect (s : Source) : String := inspected "ResolvedSource" s.render

/-- The item as it is inspected. -/
def SelectItem.inspect (i : SelectItem) : String := inspected "ResolvedSelectItem" i.render

/-- The columns as they are inspected. -/
def Columns.inspect : Columns → String
  | .all => inspected "SelectList" "*"
  | .list items =>
    inspected "SelectList" ("[" ++ Text.joined ", " (items.map SelectItem.inspect) ++ "]")

/-- The join as it is inspected. -/
def Join.inspect (j : Join) : String := inspected "JoinClause" j.render

/-- The select list and the sources as they are inspected. -/
def Select.inspect (s : Select) : String := inspected "SelectClause" s.render

/-- The filter as it is inspected. -/
def inspectFilter (condition : Cond) : String := inspected "WhereClause" (renderFilter condition)

/-- The grouping as it is inspected. -/
def inspectGroups (items : List Expr) : String := inspected "GroupByClause" (renderGroups items)

/-- The filter on groups as it is inspected. -/
def inspectHaving (condition : Cond) : String := inspected "HavingClause" (renderHaving condition)

/-- The item as it is inspected. -/
def OrderItem.inspect (item : OrderItem) : String := inspected "OrderByItem" item.render

/-- The order as it is inspected. -/
def inspectOrder (items : List OrderItem) : String := inspected "OrderByClause" (renderOrder items)

/-- The limit as it is inspected. -/
def inspectLimit (limit : Input.Limit) : String := inspected "LimitClause" (renderLimit limit)

/-- The query as it is inspected. -/
def Query.inspect (q : Query) : String := inspected "ResolvedQuery" q.render

/-- The clauses behind the sources as they are inspected. -/
def Query.inspectClauses (q : Query) : List (Option String) :=
  [ q.filter.map inspectFilter, q.groups.map inspectGroups, q.having.map inspectHaving,
    q.order.map inspectOrder, q.limit.map inspectLimit ]

end QueryCatalog.Sql
