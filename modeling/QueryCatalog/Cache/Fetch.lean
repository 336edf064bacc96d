/-
  Fetching entities through the cache.

  A lookup reads its pointer record, then the object record that the pointer names.  What it finds is
  taken only if it belongs to the owner and, for a lookup by name, bears that name; anything else
  counts as nothing found.  Then the store is asked, and what it gives is written back as three
  records: the object and both pointers to it, all with the same life.  Nothing removes records
  when an entity is deleted: they serve until they expire.
-/
import QueryCatalog.Cache.Record
import QueryCatalog.Resolve.Expr
import QueryCatalog.Store
import QueryCatalog.TimedMap

namespace QueryCatalog.Cache

/-- What stands behind the cache while something is fetched. -/
structure Backing where
  store : Store
  /-- The services out of reach. -/
  down : List Service
  /-- The time, in milliseconds. -/
  now : Nat
  /-- The life of written records, in milliseconds. -/
  ttl : Nat
deriving DecidableEq, Repr, Inhabited

/-- What fetching changes: the records, and the number of lookups made in the store. -/
structure Traffic where
  records : TimedMap ByteArray
  reads : Nat
deriving Inhabited

/-- No records and no lookups. -/
def Traffic.empty : Traffic := ⟨.empty, 0⟩

/-- A computation that fetches. -/
abbrev Fetching (α : Type) := ExceptT Error (StateM Traffic) α

variable {β : Type}

/-- Fails if a service is out of reach. -/
def Backing.reach (b : Backing) (service : Service) : Except Error Unit :=
  if b.down.contains service then .error (.store (.down service)) else .ok ()

/-- Reads a record. -/
def read? (b : Backing) (key : String) : Fetching (Option ByteArray) := do
  b.reach .cacheReads
  let traffic ← get
  pure (traffic.records.get? b.now key)

/-- Writes a record. -/
def write (b : Backing) (key : String) (value : ByteArray) : Fetching Unit := do
  b.reach .cacheWrites
  let traffic ← get
  match traffic.records.set? b.now key value b.ttl with
  | some records => set { traffic with records := records }
  | none => throw .expiryOverflow

/-- Whether a cached entity is taken for a lookup: it has to be the owner's, and a name has to be
    its name. -/
def accepts [Body β] (owner : Owner) (lookup : Lookup) (e : Entity β) : Bool :=
  Body.owner e.body == owner &&
    match lookup with
    | .id _ => true
    | .name s => Body.name e.body == s

/-- The entity in the cache, if there is one to take. -/
def cached? [Cached β] (b : Backing) (owner : Owner) (lookup : Lookup) :
    Fetching (Option (Entity β)) := do
  match ← read? b (pointerKey (Body.kind β) owner lookup) with
  | none => pure none
  | some pointer =>
    match textOf? pointer with
    | none => pure none
    | some key =>
      match ← read? b key with
      | none => pure none
      | some bytes => pure ((entity? bytes).filter (accepts owner lookup))

/-- Looks an entity up in its table; the lookup counts even if the store is out of reach. -/
def load [Body β] (b : Backing) (table : Table β) (owner : Owner) (lookup : Lookup) :
    Fetching (Option (Entity β)) := do
  modify fun traffic => { traffic with reads := traffic.reads + 1 }
  b.reach .store
  pure (table.find? owner lookup)

/-- Writes the three records of an entity. -/
def populate [Cached β] (b : Backing) (e : Entity β) : Fetching Unit := do
  let kind := Body.kind β
  let owner := Body.owner e.body
  let name := Body.name e.body
  let key := objectKey kind e.id owner name
  write b key (written e)
  write b (pointerKey kind owner (.id e.id)) (bytesOf key)
  write b (pointerKey kind owner (.name name)) (bytesOf key)

/-- Fetches an entity of an owner, from the cache or else from its table. -/
def fetch [Cached β] (b : Backing) (table : Table β) (owner : Owner) (lookup : Lookup) :
    Fetching (Entity β) := do
  match ← cached? b owner lookup with
  | some e => pure e
  | none =>
    match ← load b table owner lookup with
    | none => throw (.notFound (Body.kind β) lookup)
    | some e => do
      populate b e
      pure e

/-- Lookups through the cache. -/
def lookups (b : Backing) (owner : Owner) : Lookups Fetching where
  aliased := fetch b b.store.aliases owner
  query := fetch b b.store.queries owner

end QueryCatalog.Cache
