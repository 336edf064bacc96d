/-
  Resolved expressions and conditions: keywords are keywords and references are entities.

  Three readings of a resolved tree: the text it is written as, whether it holds an aggregate, and the
  columns it touches by name.  An alias is written as the fragment it stands for and is an aggregate
  if its flag says so; the columns behind it are not its own.  What stands inside a stored query
  counts for neither.
-/
import QueryCatalog.Literal
import QueryCatalog.Statement.Limit

namespace QueryCatalog.Sql

/-- A stored query as a single value: the query and its statement limited to one row. -/
structure ScalarSubquery where
  query : StoredQuery
  sql : String
deriving DecidableEq, Repr, Inhabited

mutual

/-- A value. -/
inductive Expr where
  | literal (value : Literal)
  | binary (left : Expr) (operation : Arithmetic) (right : Expr)
  | call (function : SqlFunction) (args : List Arg)
  | interval (value : Int64) (unit : DateUnit)
  | conditional (branches : List Branch) (otherwise : Expr)
  | column (table column : String)
  | aliased (target : Alias)
  | subquery (subquery : ScalarSubquery)

/-- An argument of a call. -/
inductive Arg where
  | star
  | expr (value : Expr)

/-- A branch of a conditional expression. -/
inductive Branch where
  | mk (condition : Cond) (result : Expr)

/-- A truth value. -/
inductive Cond where
  | negation (operand : Cond)
  | connective (left : Cond) (operation : Connective) (right : Cond)
  | comparison (left : Expr) (operation : Comparison) (right : Expr)
  | between (value lower upper : Expr) (negated : Bool)
  | isNull (value : Expr) (negated : Bool)
  | member (value : Expr) (source : MemberSource) (negated : Bool)
  | existence (query : StoredQuery) (negated : Bool)
  | aliased (target : Alias)

/-- Where a membership test looks. -/
inductive MemberSource where
  | list (items : List Expr)
  | query (query : StoredQuery)

end

instance : Inhabited Expr := ⟨.literal .null⟩

instance : Inhabited Cond := ⟨.aliased default⟩

/-! ## Text -/

/-- The word that negates a test. -/
def notText (negated : Bool) : String := if negated then "NOT " else ""

/-- A single-value subquery as it stands in a statement. -/
def ScalarSubquery.render (s : ScalarSubquery) : String := "(" ++ s.sql ++ ")"

mutual

/-- The value as it stands in a statement. -/
def Expr.render : Expr → String
  | .literal value => value.sql
  | .binary left operation right =>
    "(" ++ left.render ++ " " ++ Keyword.text operation ++ " " ++ right.render ++ ")"
  | .call function args => Keyword.text function ++ "(" ++ Text.joined ", " (renderArgs args) ++ ")"
  | .interval value unit => "INTERVAL " ++ toString value.toInt ++ " " ++ Keyword.text unit
  | .conditional branches otherwise =>
    "CASE " ++ Text.joined " " (renderBranches branches) ++ " ELSE " ++ otherwise.render ++ " END"
  | .column table column => Text.quotedName table ++ "." ++ Text.quotedName column
  | .aliased target => target.body.target
  | .subquery subquery => subquery.render

/-- The argument as it stands in a call. -/
def Arg.render : Arg → String
  | .star => "*"
  | .expr value => value.render

/-- The branch as it stands in a conditional expression. -/
def Branch.render : Branch → String
  | .mk condition result => "WHEN " ++ condition.render ++ " THEN " ++ result.render

/-- The truth value as it stands in a statement. -/
def Cond.render : Cond → String
  | .negation operand => "(NOT " ++ operand.render ++ ")"
  | .connective left operation right =>
    "(" ++ left.render ++ " " ++ Keyword.text operation ++ " " ++ right.render ++ ")"
  | .comparison left operation right =>
    "(" ++ left.render ++ " " ++ Keyword.text operation ++ " " ++ right.render ++ ")"
  | .between value lower upper negated =>
    "(" ++ value.render ++ " " ++ notText negated ++ "BETWEEN " ++ lower.render ++ " AND " ++
      upper.render ++ ")"
  | .isNull value negated => "(" ++ value.render ++ " IS " ++ notText negated ++ "NULL)"
  | .member value source negated =>
    "(" ++ value.render ++ " " ++ notText negated ++ "IN (" ++ source.render ++ "))"
  | .existence query negated =>
    "(" ++ notText negated ++ "EXISTS (" ++ query.body.statement ++ "))"
  | .aliased target => target.body.target

/-- The source as it stands in a membership test. -/
def MemberSource.render : MemberSource → String
  | .list items => Text.joined ", " (renderExprs items)
  | .query query => query.body.statement

/-- The texts of some values. -/
def renderExprs : List Expr → List String
  | [] => []
  | e :: es => e.render :: renderExprs es

/-- The texts of some arguments. -/
def renderArgs : List Arg → List String
  | [] => []
  | a :: as => a.render :: renderArgs as

/-- The texts of some branches. -/
def renderBranches : List Branch → List String
  | [] => []
  | b :: bs => b.render :: renderBranches bs

end

/-! ## Aggregates -/

mutual

/-- Whether the value holds an aggregate. -/
def Expr.isAggregate : Expr → Bool
  | .literal _ => false
  | .binary left _ right => left.isAggregate || right.isAggregate
  | .call function args => function.isAggregate || anyArg args
  | .interval _ _ => false
  | .conditional branches otherwise => anyBranch branches || otherwise.isAggregate
  | .column _ _ => false
  | .aliased target => target.body.isAggregate
  | .subquery _ => false

/-- Whether the argument holds an aggregate. -/
def Arg.isAggregate : Arg → Bool
  | .star => false
  | .expr value => value.isAggregate

/-- Whether the branch holds an aggregate. -/
def Branch.isAggregate : Branch → Bool
  | .mk condition result => condition.isAggregate || result.isAggregate

/-- Whether the truth value holds an aggregate. -/
def Cond.isAggregate : Cond → Bool
  | .negation operand => operand.isAggregate
  | .connective left _ right => left.isAggregate || right.isAggregate
  | .comparison left _ right => left.isAggregate || right.isAggregate
  | .between value lower upper _ => value.isAggregate || lower.isAggregate || upper.isAggregate
  | .isNull value _ => value.isAggregate
  | .member value source _ => value.isAggregate || source.isAggregate
  | .existence _ _ => false
  | .aliased target => target.body.isAggregate

/-- Whether the source holds an aggregate. -/
def MemberSource.isAggregate : MemberSource → Bool
  | .list items => anyExpr items
  | .query _ => false

/-- Whether one of the values holds an aggregate. -/
def anyExpr : List Expr → Bool
  | [] => false
  | e :: es => e.isAggregate || anyExpr es

/-- Whether one of the arguments holds an aggregate. -/
def anyArg : List Arg → Bool
  | [] => false
  | a :: as => a.isAggregate || anyArg as

/-- Whether one of the branches holds an aggregate. -/
def anyBranch : List Branch → Bool
  | [] => false
  | b :: bs => b.isAggregate || anyBranch bs

end

/-! ## Columns -/

/-- A column by its table and its name. -/
abbrev ColumnName := String × String

mutual

/-- The columns that the value touches by name, from left to right. -/
def Expr.columns : Expr → List ColumnName
  | .literal _ => []
  | .binary left _ right => left.columns ++ right.columns
  | .call _ args => columnsOfArgs args
  | .interval _ _ => []
  | .conditional branches otherwise => columnsOfBranches branches ++ otherwise.columns
  | .column table column => [(table, column)]
  | .aliased _ => []
  | .subquery _ => []

/-- The columns that the argument touches by name. -/
def Arg.columns : Arg → List ColumnName
  | .star => []
  | .expr value => value.columns

/-- The columns that the branch touches by name. -/
def Branch.columns : Branch → List ColumnName
  | .mk condition result => condition.columns ++ result.columns

/-- The columns that the truth value touches by name, from left to right. -/
def Cond.columns : Cond → List ColumnName
  | .negation operand => operand.columns
  | .connective left _ right => left.columns ++ right.columns
  | .comparison left _ right => left.columns ++ right.columns
  | .between value lower upper _ => value.columns ++ lower.columns ++ upper.columns
  | .isNull value _ => value.columns
  | .member value source _ => value.columns ++ source.columns
  | .existence _ _ => []
  | .aliased _ => []

/-- The columns that the source touches by name. -/
def MemberSource.columns : MemberSource → List ColumnName
  | .list items => columnsOfExprs items
  | .query _ => []

/-- The columns that some values touch by name. -/
def columnsOfExprs : List Expr → List ColumnName
  | [] => []
  | e :: es => e.columns ++ columnsOfExprs es

/-- The columns that some arguments touch by name. -/
def columnsOfArgs : List Arg → List ColumnName
  | [] => []
  | a :: as => a.columns ++ columnsOfArgs as

/-- The columns that some branches touch by name. -/
def columnsOfBranches : List Branch → List ColumnName
  | [] => []
  | b :: bs => b.columns ++ columnsOfBranches bs

end

/-! ## Inspection -/

/-- The subquery as it is inspected. -/
def ScalarSubquery.inspect (s : ScalarSubquery) : String :=
  "ScalarSubquery(" ++ s.query.body.name ++ ": " ++ s.sql ++ ")"

/-- An alias as it is inspected inside a tree. -/
def inspectAlias (target : Alias) : String :=
  "Aliased(" ++ target.body.name ++ ": " ++ target.body.target ++ ")"

/-- The value as it is inspected. -/
def Expr.inspect : Expr → String
  | .literal value => "Literal(" ++ value.inspect ++ ")"
  | .aliased target => inspectAlias target
  | .subquery s => "Subquery(" ++ s.query.body.name ++ ": " ++ s.sql ++ ")"
  | e => "Expr(" ++ e.render ++ ")"

/-- The argument as it is inspected. -/
def Arg.inspect (a : Arg) : String := "Arg(" ++ a.render ++ ")"

/-- The branch as it is inspected. -/
def Branch.inspect (b : Branch) : String := "CaseItem(" ++ b.render ++ ")"

/-- The truth value as it is inspected. -/
def Cond.inspect : Cond → String
  | .aliased target => inspectAlias target
  | c => "Bool(" ++ c.render ++ ")"

/-- The source as it is inspected. -/
def MemberSource.inspect (s : MemberSource) : String := "InSource(" ++ s.render ++ ")"

/-- The direct parts of a value as they are inspected. -/
def Expr.parts : Expr → List String
  | .binary left operation right => [left.inspect, Keyword.inspect operation, right.inspect]
  | .call function args => Keyword.inspect function :: args.map Arg.inspect
  | .interval _ unit => [Keyword.inspect unit]
  | .conditional branches otherwise => branches.map Branch.inspect ++ [otherwise.inspect]
  | .subquery s => [s.inspect, s.render, "false"]
  | _ => []

/-- The direct parts of a truth value as they are inspected. -/
def Cond.parts : Cond → List String
  | .negation operand => [operand.inspect]
  | .connective left operation right => [left.inspect, Keyword.inspect operation, right.inspect]
  | .comparison left operation right => [left.inspect, Keyword.inspect operation, right.inspect]
  | .between value lower upper _ => [value.inspect, lower.inspect, upper.inspect]
  | .isNull value _ => [value.inspect]
  | .member value source _ => [value.inspect, source.inspect]
  | _ => []

end QueryCatalog.Sql
