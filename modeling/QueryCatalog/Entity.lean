/-
  Entities: aliases and stored queries.

  An entity is a body under a number.  The body says who owns it, what it is called, and what it
  stands for; numbers are given by the store.  Names are unique per owner and kind.  A new name is a
  letter or an underscore, then up to 63 letters, digits and underscores, all of them ASCII.
-/
import QueryCatalog.Lookup

namespace QueryCatalog

/-- A body under its number. -/
structure Entity (β : Type) where
  id : EntityId
  body : β
deriving DecidableEq, Repr, Inhabited

/-- What every body says. -/
class Body (β : Type) where
  kind : EntityKind
  owner : β → Owner
  name : β → String

/-- An alias: a name for a table or for a fragment of a statement.  The fragment and its flags are
    computed once, when the alias is created. -/
structure AliasBody where
  owner : Owner
  name : String
  target : String
  isTable : Bool
  isAggregate : Bool
deriving DecidableEq, Repr, Inhabited

instance : Body AliasBody where
  kind := .aliased
  owner := AliasBody.owner
  name := AliasBody.name

/-- A stored query: a compiled statement with the number of its columns, or -1 for all columns of its
    source. -/
structure QueryBody where
  owner : Owner
  name : String
  sql : String
  columnCount : Int64
deriving DecidableEq, Repr, Inhabited

instance : Body QueryBody where
  kind := .query
  owner := QueryBody.owner
  name := QueryBody.name

/-- An alias under its number. -/
abbrev Alias := Entity AliasBody

/-- A stored query under its number. -/
abbrev StoredQuery := Entity QueryBody

/-- Whether the entity answers a lookup made for an owner. -/
def Entity.answers {β : Type} [Body β] (e : Entity β) (owner : Owner) : Lookup → Bool
  | .id n => e.id == n && Body.owner e.body == owner
  | .name s => Body.name e.body == s && Body.owner e.body == owner

/-! ## Names -/

namespace EntityName

/-- A letter or an underscore. -/
def isLetter (c : Char) : Bool :=
  ('a' ≤ c && c ≤ 'z') || ('A' ≤ c && c ≤ 'Z') || c == '_'

/-- A letter, a digit or an underscore. -/
def isLetterOrDigit (c : Char) : Bool := isLetter c || ('0' ≤ c && c ≤ '9')

/-- The greatest length of a name. -/
def greatestLength : Nat := 64

/-- Whether a text can be the name of an entity. -/
def isValid (name : String) : Bool :=
  match name.toList with
  | [] => false
  | c :: cs => isLetter c && cs.all isLetterOrDigit && cs.length < greatestLength

end EntityName

end QueryCatalog
