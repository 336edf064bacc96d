/-
  Resolving expressions and conditions.

  A tree is walked in order, a node's own keyword before its operands and operands from left to right,
  and the first violation ends the walk.  How an entity is found is left open (`Lookups`): the same
  walk runs over the store, where a lookup changes nothing, and over the cache in front of it, where
  a lookup may write.
-/
import QueryCatalog.Input.Query
import QueryCatalog.Sql.Expr

namespace QueryCatalog

/-- How the entities of one owner are found. -/
structure Lookups (m : Type → Type) where
  aliased : Lookup → m Alias
  query : Lookup → m StoredQuery

namespace Resolve

variable {m : Type → Type} [Monad m] [MonadExceptOf Error m]

/-- Ends the walk. -/
def fail {α : Type} (e : Error) : m α := throwThe Error e

/-- Goes on with a result, or ends the walk. -/
def passing {α : Type} : Except Error α → m α
  | .ok a => pure a
  | .error e => fail e

/-- The keyword that a text names. -/
def keyword (κ : Type) [Keyword κ] (s : String) : m κ :=
  match Keyword.parse κ s with
  | .ok k => pure k
  | .error e => fail (.unknownKeyword e)

/-! ## References -/

/-- An alias as a value or a condition: any but a table. -/
def operandAlias (look : Lookups m) (lookup : Lookup) : m Alias := do
  let target ← look.aliased lookup
  if target.body.isTable then fail (.tableAliasOperand target.body.name) else pure target

/-- A stored query as a single value. -/
def scalarSubquery (look : Lookups m) (lookup : Lookup) : m Sql.ScalarSubquery := do
  let query ← look.query lookup
  let sql ← passing query.body.scalar
  pure ⟨query, sql⟩

/-- A stored query as the source of a membership test: one of a single column. -/
def memberQuery (look : Lookups m) (lookup : Lookup) : m StoredQuery := do
  let query ← look.query lookup
  if query.body.columnCount = 1 then pure query
  else fail (.memberColumns query.body.name query.body.columnCount)

/-! ## Trees -/

mutual

/-- Resolves a value. -/
def expr (look : Lookups m) : Input.Expr → m Sql.Expr
  | .literal value => pure (.literal value)
  | .binary left operation right => do
    let operation ← keyword Arithmetic operation
    let left ← expr look left
    let right ← expr look right
    pure (.binary left operation right)
  | .call function args => do
    let function ← keyword SqlFunction function
    let args ← argList look function (args.length = 1) args
    pure (.call function args)
  | .interval value unit => do
    let unit ← keyword DateUnit unit
    pure (.interval value unit)
  | .conditional branches otherwise => do
    let branches ← branchList look branches
    let otherwise ← expr look otherwise
    pure (.conditional branches otherwise)
  | .table name => fail (.tableOperand name)
  | .column table column => pure (.column table column)
  | .aliased lookup => do
    let target ← operandAlias look lookup
    pure (.aliased target)
  | .subquery lookup => do
    let subquery ← scalarSubquery look lookup
    pure (.subquery subquery)

/-- Resolves an argument; a star only as the sole argument of a count. -/
def arg (look : Lookups m) (function : SqlFunction) (sole : Bool) : Input.Arg → m Sql.Arg
  | .star => if function = .count ∧ sole then pure .star else fail (.starArgument function)
  | .expr value => do
    let value ← expr look value
    pure (.expr value)

/-- Resolves a branch, its condition first. -/
def branch (look : Lookups m) : Input.Branch → m Sql.Branch
  | .mk condition result => do
    let condition ← cond look condition
    let result ← expr look result
    pure (.mk condition result)

/-- Resolves a truth value. -/
def cond (look : Lookups m) : Input.Cond → m Sql.Cond
  | .negation operand => do
    let operand ← cond look operand
    pure (.negation operand)
  | .connective left operation right => do
    let operation ← keyword Connective operation
    let left ← cond look left
    let right ← cond look right
    pure (.connective left operation right)
  | .comparison left operation right => do
    let operation ← keyword Comparison operation
    let left ← expr look left
    let right ← expr look right
    pure (.comparison left operation right)
  | .between value lower upper negated => do
    let value ← expr look value
    let lower ← expr look lower
    let upper ← expr look upper
    pure (.between value lower upper negated)
  | .isNull value negated => do
    let value ← expr look value
    pure (.isNull value negated)
  | .member value source negated => do
    let value ← expr look value
    let source ← memberSource look source
    pure (.member value source negated)
  | .existence lookup negated => do
    let query ← look.query lookup
    pure (.existence query negated)
  | .aliased lookup => do
    let target ← operandAlias look lookup
    pure (.aliased target)

/-- Resolves the source of a membership test. -/
def memberSource (look : Lookups m) : Input.MemberSource → m Sql.MemberSource
  | .list items => do
    let items ← exprList look items
    pure (.list items)
  | .query lookup => do
    let query ← memberQuery look lookup
    pure (.query query)

/-- Resolves values in order. -/
def exprList (look : Lookups m) : List Input.Expr → m (List Sql.Expr)
  | [] => pure []
  | e :: es => do
    let e ← expr look e
    let es ← exprList look es
    pure (e :: es)

/-- Resolves arguments in order. -/
def argList (look : Lookups m) (function : SqlFunction) (sole : Bool) :
    List Input.Arg → m (List Sql.Arg)
  | [] => pure []
  | a :: as => do
    let a ← arg look function sole a
    let as ← argList look function sole as
    pure (a :: as)

/-- Resolves branches in order. -/
def branchList (look : Lookups m) : List Input.Branch → m (List Sql.Branch)
  | [] => pure []
  | b :: bs => do
    let b ← branch look b
    let bs ← branchList look bs
    pure (b :: bs)

end

end Resolve

end QueryCatalog
