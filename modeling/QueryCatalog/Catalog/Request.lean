/-
  What owners ask of the catalog.

  Names are checked before anything else, and nothing is stored unless all of the request can be
  resolved.  Deleting goes straight to the store; cached records of the entity serve until they expire.
-/
import QueryCatalog.Catalog.Basic
import QueryCatalog.Entity

namespace QueryCatalog

namespace Catalog

/-! ## Store -/

/-- Adds an alias to the store. -/
def insertAlias (body : AliasBody) : Action Alias := do
  let store ← reachStore
  match store.aliases.add body with
  | .error e => throw (.store e)
  | .ok (e, table) => do
    modify fun c => { c with store := { c.store with aliases := table } }
    pure e

/-- Adds a stored query to the store. -/
def insertQuery (body : QueryBody) : Action StoredQuery := do
  let store ← reachStore
  match store.queries.add body with
  | .error e => throw (.store e)
  | .ok (e, table) => do
    modify fun c => { c with store := { c.store with queries := table } }
    pure e

/-- Removes an alias of an owner from the store, and says whether there was one. -/
def deleteAlias (owner : Owner) (id : EntityId) : Action Bool := do
  let store ← reachStore
  let (found, table) := store.aliases.remove owner id
  modify fun c => { c with store := { c.store with aliases := table } }
  pure found

/-- Removes a stored query of an owner from the store, and says whether there was one. -/
def deleteQuery (owner : Owner) (id : EntityId) : Action Bool := do
  let store ← reachStore
  let (found, table) := store.queries.remove owner id
  modify fun c => { c with store := { c.store with queries := table } }
  pure found

/-- The aliases of an owner, oldest first. -/
def listAliases (owner : Owner) : Action (List Alias) := do
  let store ← reachStore
  pure (store.aliases.list owner)

/-- The stored queries of an owner, oldest first. -/
def listQueries (owner : Owner) : Action (List StoredQuery) := do
  let store ← reachStore
  pure (store.queries.list owner)

/-- Looks an alias up in the store, past the cache. -/
def findAlias? (owner : Owner) (lookup : Lookup) : Action (Option Alias) :=
  fetching fun c => Cache.load c.backing c.store.aliases owner lookup

/-- Looks a stored query up in the store, past the cache. -/
def findQuery? (owner : Owner) (lookup : Lookup) : Action (Option StoredQuery) :=
  fetching fun c => Cache.load c.backing c.store.queries owner lookup

/-! ## Entities through the cache -/

/-- Fetches an alias of an owner. -/
def fetchAlias (owner : Owner) (lookup : Lookup) : Action Alias :=
  resolving owner fun look => look.aliased lookup

/-- Fetches a stored query of an owner. -/
def fetchQuery (owner : Owner) (lookup : Lookup) : Action StoredQuery :=
  resolving owner fun look => look.query lookup

/-- The statement of a stored query as a single value. -/
def scalarize (owner : Owner) (lookup : Lookup) : Action String := do
  let query ← fetchQuery owner lookup
  Resolve.passing query.body.scalar

/-- Compiles a query for an owner. -/
def compile (owner : Owner) (input : Input.Query) : Action Sql.Compiled :=
  resolving owner fun look => Resolve.compile look input

/-! ## Creation -/

/-- Fails unless a text can be the name of an entity. -/
def checkName (name : String) : Action Unit :=
  if EntityName.isValid name then pure () else throw (.invalidName name)

/-- The body of a requested alias; nothing is stored. -/
def buildAlias (owner : Owner) (request : Input.AliasRequest) : Action AliasBody :=
  fetching fun c =>
    AliasTarget.build c.tableAccess (Cache.lookups c.backing owner) owner request

/-- Creates an alias. -/
def createAlias (owner : Owner) (request : Input.AliasRequest) : Action Alias := do
  checkName request.name
  let body ← buildAlias owner request
  insertAlias body

/-- Compiles a query and stores it under a name. -/
def createQuery (owner : Owner) (name : String) (input : Input.Query) : Action StoredQuery := do
  checkName name
  let compiled ← compile owner input
  insertQuery ⟨owner, name, compiled.sql, compiled.columnCount⟩

end Catalog

/-! ## Requests -/

/-- What an owner can ask for. -/
inductive Request where
  | createAlias (request : Input.AliasRequest)
  | createQuery (name : String) (input : Input.Query)
  | deleteAlias (id : EntityId)
  | deleteQuery (id : EntityId)
  | listAliases
  | listQueries
  | fetchAlias (lookup : Lookup)
  | fetchQuery (lookup : Lookup)
  | scalarize (lookup : Lookup)
  | compile (input : Input.Query)
deriving Inhabited

/-- What a request that succeeds gives. -/
inductive Reply where
  | aliased (entity : Alias)
  | query (entity : StoredQuery)
  | deleted (found : Bool)
  | aliases (entities : List Alias)
  | queries (entities : List StoredQuery)
  | statement (sql : String)
  | compiled (value : Sql.Compiled)
deriving Inhabited

/-- Performs the request of an owner. -/
def Catalog.perform (owner : Owner) : Request → Action Reply
  | .createAlias request => .aliased <$> createAlias owner request
  | .createQuery name input => .query <$> createQuery owner name input
  | .deleteAlias id => .deleted <$> deleteAlias owner id
  | .deleteQuery id => .deleted <$> deleteQuery owner id
  | .listAliases => .aliases <$> listAliases owner
  | .listQueries => .queries <$> listQueries owner
  | .fetchAlias lookup => .aliased <$> fetchAlias owner lookup
  | .fetchQuery lookup => .query <$> fetchQuery owner lookup
  | .scalarize lookup => .statement <$> scalarize owner lookup
  | .compile input => .compiled <$> compile owner input

end QueryCatalog
