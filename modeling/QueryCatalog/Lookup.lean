/-
  How entities are pointed at: the two kinds of entities, and the two dimensions of a lookup.
-/

namespace QueryCatalog

/-- Owners are numbered; every entity belongs to exactly one of them. -/
abbrev Owner := UInt64

/-- Entities of one kind are numbered. -/
abbrev EntityId := UInt64

/-- The two kinds of entities that an owner keeps. -/
inductive EntityKind where
  | aliased
  | query
deriving DecidableEq, Repr, Inhabited

/-- The kind as it stands in messages, field names and cache keys. -/
def EntityKind.text : EntityKind → String
  | .aliased => "alias"
  | .query => "query"

/-- An entity is pointed at by its number or by its name. -/
inductive Lookup where
  | id (id : EntityId)
  | name (name : String)
deriving DecidableEq, Repr, Inhabited

/-- The lookup as it stands in messages. -/
def Lookup.text : Lookup → String
  | .id n => "id " ++ toString n.toNat
  | .name s => "name '" ++ s ++ "'"

/-- A reference of the given kind, as it is inspected. -/
def Lookup.inspect (kind : EntityKind) (lookup : Lookup) : String :=
  (match kind with
    | .aliased => "AliasRef("
    | .query => "QueryRef(") ++ lookup.text ++ ")"

end QueryCatalog
