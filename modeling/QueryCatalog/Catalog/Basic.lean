/-
  The catalog: its settings, the schema, the store, the cache in front of it, the clock, and which
  services are out of reach.

  An action may change the catalog also when it fails: what was fetched before the failure stays in
  the cache.
-/
import QueryCatalog.AliasTarget
import QueryCatalog.Cache.Fetch

namespace QueryCatalog

/-- The state of a catalog. -/
structure Catalog where
  settings : Settings
  schema : Schema
  store : Store
  traffic : Cache.Traffic
  /-- The services out of reach. -/
  down : List Service
  /-- The time, in milliseconds. -/
  now : Nat
deriving Inhabited

/-- A computation over a catalog that may fail. -/
abbrev Action (α : Type) := ExceptT Error (StateM Catalog) α

namespace Catalog

/-- A catalog at time 0 with an empty cache and all services in reach. -/
def fresh (settings : Settings) (schema : Schema) (store : Store) : Catalog :=
  ⟨settings, schema, store, .empty, [], 0⟩

/-- What stands behind the cache. -/
def backing (c : Catalog) : Cache.Backing := ⟨c.store, c.down, c.now, c.settings.ttl⟩

/-- The tables that aliases may point at. -/
def tableAccess (c : Catalog) : TableAccess := ⟨c.settings, c.schema, c.down.contains .schema⟩

variable {α : Type}

/-- Fetches for an owner; only the cache and the count of store lookups change. -/
def fetching (run : Catalog → Cache.Fetching α) : Action α := do
  let c ← get
  let (result, traffic) := (run c).run c.traffic
  set { c with traffic := traffic }
  Resolve.passing result

/-- Resolves for an owner, with lookups through the cache. -/
def resolving (owner : Owner) (resolve : Lookups Cache.Fetching → Cache.Fetching α) : Action α :=
  fetching fun c => resolve (Cache.lookups c.backing owner)

/-- The store, if it can be reached. -/
def reachStore : Action Store := do
  let c ← get
  Resolve.passing (c.backing.reach .store)
  pure c.store

/-- The schema, if it can be reached. -/
def reachSchema : Action Schema := do
  let c ← get
  Resolve.passing c.tableAccess.reach

end Catalog

end QueryCatalog
