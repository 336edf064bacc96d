/-
  The store: two tables of entities, kept in the order in which they were added.

  A table gives each new entity the next number of its own sequence.  Reading and removing are scoped
  to an owner; a name can be added once per owner.
-/
import QueryCatalog.Entity
import QueryCatalog.Error
import QueryCatalog.IdSequence

namespace QueryCatalog

/-- The entities of one kind, oldest first, and the sequence of their numbers. -/
structure Table (β : Type) where
  rows : List (Entity β)
  ids : IdSequence
deriving DecidableEq, Repr, Inhabited

namespace Table

variable {β : Type} [Body β]

/-- A table that holds nothing and has given no number. -/
def empty : Table β := ⟨[], .fresh⟩

/-- The owner's entity with that number or that name. -/
def find? (t : Table β) (owner : Owner) : Lookup → Option (Entity β)
  | .id n => (t.rows.find? fun e => e.id == n).filter fun e => Body.owner e.body == owner
  | .name s => t.rows.find? fun e => Body.owner e.body == owner && Body.name e.body == s

/-- The owner's entities, oldest first. -/
def list (t : Table β) (owner : Owner) : List (Entity β) :=
  t.rows.filter fun e => Body.owner e.body == owner

/-- Adds a body under the next number, unless its owner has one of that name. -/
def add (t : Table β) (body : β) : Except StoreError (Entity β × Table β) :=
  if (t.find? (Body.owner body) (.name (Body.name body))).isSome then
    .error (.alreadyExists (Body.kind β) (Body.name body))
  else
    match t.ids.next with
    | (none, _) => .error (.idsExhausted (Body.kind β))
    | (some n, ids) => .ok (⟨n, body⟩, ⟨t.rows ++ [⟨n, body⟩], ids⟩)

/-- Removes the owner's entity with that number, and says whether there was one. -/
def remove (t : Table β) (owner : Owner) (id : EntityId) : Bool × Table β :=
  if (t.find? owner (.id id)).isSome then (true, ⟨t.rows.eraseP fun e => e.id == id, t.ids⟩)
  else (false, t)

end Table

/-- The aliases and the stored queries of all owners. -/
structure Store where
  aliases : Table AliasBody
  queries : Table QueryBody
deriving DecidableEq, Repr, Inhabited

/-- A store that holds nothing. -/
def Store.empty : Store := ⟨.empty, .empty⟩

end QueryCatalog
