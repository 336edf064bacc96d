/-
  What happens around a catalog: the clock moves, services come and go, tables are defined and dropped,
  and records are put into the cache by others.
-/
import QueryCatalog.Catalog.Basic

namespace QueryCatalog.Catalog

/-! ## Clock and services -/

/-- The clock moves on. -/
def advance (c : Catalog) (milliseconds : Nat) : Catalog := { c with now := c.now + milliseconds }

/-- A service goes out of reach or comes back. -/
def switch (c : Catalog) (service : Service) (isDown : Bool) : Catalog :=
  let others := c.down.filter fun s => !(s == service)
  { c with down := if isDown then service :: others else others }

/-! ## Schema -/

/-- The names of all tables. -/
def tableNames : Action (List String) := do
  let schema ← reachSchema
  pure schema.tableNames

/-- The names of the tables that aliases may point at. -/
def visibleTables : Action (List String) := do
  let c ← get
  Resolve.passing c.tableAccess.visibleTables

/-- The definition of a table. -/
def tableDefinition? (name : String) : Action (Option TableDefinition) := do
  let schema ← reachSchema
  pure (schema.find? name)

/-- Defines a table. -/
def defineTable (c : Catalog) (table : TableDefinition) : Catalog :=
  { c with schema := c.schema.define table }

/-- Lists a table that has no definition. -/
def listUndefined (c : Catalog) (name : String) : Catalog :=
  { c with schema := c.schema.listUndefined name }

/-- Drops a table, and says whether it was defined. -/
def dropTable (name : String) : Action Bool := do
  let c ← get
  let (found, schema) := c.schema.drop name
  set { c with schema := schema }
  pure found

/-! ## Records -/

/-- The number of records in the cache, expired ones included. -/
def recordCount (c : Catalog) : Nat := c.traffic.records.size

/-- The number of lookups made in the store. -/
def reads (c : Catalog) : Nat := c.traffic.reads

/-- The catalog with other records. -/
def withRecords (c : Catalog) (records : TimedMap ByteArray) : Catalog :=
  { c with traffic := { c.traffic with records := records } }

/-- Puts a record into the cache. -/
def putRecord (key : String) (value : ByteArray) (ttl : Nat) : Action Unit := do
  let c ← get
  match c.traffic.records.set? c.now key value ttl with
  | some records => set (c.withRecords records)
  | none => throw .expiryOverflow

/-- Puts the same record under the keys `k` + number, for `count` numbers from `start` on. -/
def putNumbered (value : ByteArray) (ttl : Nat) : (start count : Nat) → Action Unit
  | _, 0 => pure ()
  | start, count + 1 => do
    putRecord ("k" ++ toString start) value ttl
    putNumbered value ttl (start + 1) count

/-- Looks at a record. -/
def viewRecord? (c : Catalog) (key : String) : Option Cache.View :=
  (c.traffic.records.get? c.now key).map Cache.view

/-- Clears the expired records away. -/
def clearExpired (c : Catalog) : Catalog := c.withRecords (c.traffic.records.cleared c.now)

end QueryCatalog.Catalog
