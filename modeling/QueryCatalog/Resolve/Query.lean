/-
  Resolving clauses and queries.

  The sources come first, then the select list, then the other clauses in statement order.  Aggregates
  may stand in the select list, in HAVING and in ORDER BY, and nowhere else; a grouping is checked
  item by item.

  Resolving is over any lookups.  Over those straight in the store nothing is cached and nothing
  changes, so it is a plain function of the store: what resolving through the cache is measured
  against.
-/
import QueryCatalog.Resolve.Expr
import QueryCatalog.Sql.Query
import QueryCatalog.Store

namespace QueryCatalog

namespace Resolve

variable {m : Type → Type} [Monad m] [MonadExceptOf Error m]

/-- Fails when something that is an aggregate stands in a clause that allows none. -/
def checkPlacement (clause : Clause) (isAggregate : Bool) : m Unit :=
  if !clause.allowsAggregates && isAggregate then fail (.misplacedAggregate clause) else pure ()

/-- Resolves a source of rows: an alias of a table, or any stored query. -/
def source (look : Lookups m) : Input.Reference → m Sql.Source
  | .aliased lookup => do
    let target ← look.aliased lookup
    if target.body.isTable then pure (.table target) else fail (.plainAliasSource target.body.name)
  | .subquery lookup => do
    let query ← look.query lookup
    pure (.subquery query)

/-- Resolves an item of a select list. -/
def selectItem (look : Lookups m) : Input.Reference → m Sql.SelectItem
  | .aliased lookup => do
    let target ← operandAlias look lookup
    pure (.aliased target)
  | .subquery lookup => do
    let subquery ← scalarSubquery look lookup
    pure (.subquery subquery)

/-- Resolves the items of a select list in order. -/
def selectItems (look : Lookups m) : List Input.Reference → m (List Sql.SelectItem)
  | [] => pure []
  | i :: is => do
    let i ← selectItem look i
    let is ← selectItems look is
    pure (i :: is)

/-- Resolves the columns of a select list. -/
def columns (look : Lookups m) : Input.Columns → m Sql.Columns
  | .all => pure .all
  | .list items => do
    let items ← selectItems look items
    pure (.list items)

/-- Resolves a join: its kind, its source, its condition. -/
def join (look : Lookups m) (input : Input.Join) : m Sql.Join := do
  let kind ← keyword JoinKind input.kind
  let source ← source look input.source
  let condition ← cond look input.condition
  checkPlacement .join condition.isAggregate
  pure ⟨kind, source, condition⟩

/-- Resolves a clause that may be absent. -/
def optional {α β : Type} (resolve : α → m β) : Option α → m (Option β)
  | none => pure none
  | some a => do
    let b ← resolve a
    pure (some b)

/-- Resolves the sources, then the select list. -/
def select (look : Lookups m) (input : Input.Select) : m Sql.Select := do
  let source ← source look input.source
  let join ← optional (join look) input.join
  let columns ← columns look input.columns
  pure ⟨columns, source, join⟩

/-- Resolves a filter. -/
def filter (look : Lookups m) (input : Input.Cond) : m Sql.Cond := do
  let condition ← cond look input
  checkPlacement .filter condition.isAggregate
  pure condition

/-- Resolves a grouping, checking each item before the next one is resolved. -/
def groups (look : Lookups m) : List Input.Expr → m (List Sql.Expr)
  | [] => pure []
  | e :: es => do
    let e ← expr look e
    checkPlacement .groups e.isAggregate
    let es ← groups look es
    pure (e :: es)

/-- Resolves a filter on groups. -/
def having (look : Lookups m) (input : Input.Cond) : m Sql.Cond := cond look input

/-- Resolves the items of an order, each direction before its operand. -/
def order (look : Lookups m) : List Input.OrderItem → m (List Sql.OrderItem)
  | [] => pure []
  | i :: is => do
    let direction ← keyword Direction i.direction
    let operand ← expr look i.operand
    let is ← order look is
    pure (⟨operand, direction⟩ :: is)

/-- Resolves a query. -/
def query (look : Lookups m) (input : Input.Query) : m Sql.Query := do
  let select ← select look input.select
  let filter ← optional (filter look) input.filter
  let groups ← optional (groups look) input.groups
  let having ← optional (having look) input.having
  let order ← optional (order look) input.order
  pure ⟨select, filter, groups, having, order, input.limit⟩

/-- Compiles a query. -/
def compile (look : Lookups m) (input : Input.Query) : m Sql.Compiled := do
  let q ← query look input
  pure q.compiled

end Resolve

/-! ## Lookups straight in the store -/

/-- The entity that a table has for an owner's lookup, or why there is none. -/
def Table.get {β : Type} [Body β] (t : Table β) (owner : Owner) (lookup : Lookup) :
    Except Error (Entity β) :=
  match t.find? owner lookup with
  | some e => .ok e
  | none => .error (.notFound (Body.kind β) lookup)

/-- Lookups of an owner straight in the store. -/
def Store.lookups (s : Store) (owner : Owner) : Lookups (Except Error) where
  aliased := s.aliases.get owner
  query := s.queries.get owner

end QueryCatalog
