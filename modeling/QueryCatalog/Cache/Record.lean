/-
  Cached records: the keys under which they stand, and the bytes that they hold.

  The object key of an entity names all that identifies it; a pointer key names one way to look it
  up.  Numbers stand before the name, and the name stands last, so that a name with colons in it
  makes no two keys alike.

  The bytes are a pointer to another record or an entity.  A pointer is the object key in UTF-8.  An entity is written as a flat JSON record of its number, its
  fields and a date of creation.  Nothing depends on that date, so one fixed date is written; a record
  that is read has to hold some date-time in its place, and may hold stray bytes in the strings that
  are skipped.  Bytes that hold no entity are no error: they are read as nothing.
-/
import QueryCatalog.DateTime
import QueryCatalog.Document.Record
import QueryCatalog.Document.Written
import QueryCatalog.Entity

namespace QueryCatalog.Cache

/-! ## Keys -/

/-- The key of the record that holds an entity. -/
def objectKey (kind : EntityKind) (id : EntityId) (owner : Owner) (name : String) : String :=
  kind.text ++ ":obj:" ++ toString id.toNat ++ ":" ++ toString owner.toNat ++ ":" ++ name

/-- The key of the record that leads from a lookup to an object key. -/
def pointerKey (kind : EntityKind) (owner : Owner) : Lookup → String
  | .id n => kind.text ++ ":id:" ++ toString n.toNat
  | .name s => kind.text ++ ":name:" ++ toString owner.toNat ++ ":" ++ s

/-! ## What is written and read -/

/-- A date-time. -/
def dateOfDoc (doc : Doc) : Decoded Unit := do
  let s ← doc.asText
  if DateTime.isDateTime s then .ok () else .error .malformed

/-- The date in the records that are written. -/
def writtenDate : String := "1970-01-01T00:00:00Z"

/-- Bodies that can be cached: what is written of an entity, and how it is read. -/
class Cached (β : Type) extends Body β where
  fields : Entity β → List (String × Doc)
  ofDoc : Doc → Decoded (Entity β)

/-- What is written of an alias. -/
def aliasFields (e : Alias) : List (String × Doc) :=
  [("id", .int e.id.toNat), ("owner_id", .int e.body.owner.toNat),
    ("name", .text e.body.name), ("target", .text e.body.target),
    ("is_table", .bool e.body.isTable), ("is_aggregate", .bool e.body.isAggregate),
    ("created_at", .text writtenDate)]

/-- An alias from its record. -/
def aliasOfDoc (doc : Doc) : Decoded Alias :=
  doc.record (fieldsNamed ["id", "owner_id", "name", "target", "is_table", "is_aggregate",
      "created_at"]) fun r =>
    (fun id owner name target isTable isAggregate _ =>
        (⟨id, ⟨owner, name, target, isTable, isAggregate⟩⟩ : Alias))
      <$> r.required "id" (fun p => p.doc.asUInt64)
      <*> r.required "owner_id" (fun p => p.doc.asUInt64)
      <*> r.required "name" (fun p => p.doc.asText)
      <*> r.required "target" (fun p => p.doc.asText)
      <*> r.required "is_table" (fun p => p.doc.asBool)
      <*> r.required "is_aggregate" (fun p => p.doc.asBool)
      <*> r.required "created_at" (fun p => dateOfDoc p.doc)

/-- What is written of a stored query. -/
def queryFields (e : StoredQuery) : List (String × Doc) :=
  [("id", .int e.id.toNat), ("owner_id", .int e.body.owner.toNat),
    ("name", .text e.body.name), ("sql", .text e.body.sql),
    ("column_count", .int e.body.columnCount.toInt), ("created_at", .text writtenDate)]

/-- A stored query from its record. -/
def queryOfDoc (doc : Doc) : Decoded StoredQuery :=
  doc.record (fieldsNamed ["id", "owner_id", "name", "sql", "column_count", "created_at"]) fun r =>
    (fun id owner name sql columnCount _ =>
        (⟨id, ⟨owner, name, sql, columnCount⟩⟩ : StoredQuery))
      <$> r.required "id" (fun p => p.doc.asUInt64)
      <*> r.required "owner_id" (fun p => p.doc.asUInt64)
      <*> r.required "name" (fun p => p.doc.asText)
      <*> r.required "sql" (fun p => p.doc.asText)
      <*> r.required "column_count" (fun p => p.doc.asInt64)
      <*> r.required "created_at" (fun p => dateOfDoc p.doc)

instance : Cached AliasBody where
  fields := aliasFields
  ofDoc := aliasOfDoc

instance : Cached QueryBody where
  fields := queryFields
  ofDoc := queryOfDoc

/-- The bytes of a text. -/
def bytesOf (s : String) : ByteArray := s.toUTF8

/-- The text of bytes, if they are UTF-8. -/
def textOf? (bytes : ByteArray) : Option String := String.fromUTF8? bytes

/-- The bytes of an entity. -/
def written {β : Type} [Cached β] (e : Entity β) : ByteArray :=
  bytesOf (Written.doc (.ofFields (Cached.fields e)))

/-- The entity that bytes hold, if they hold one. -/
def entity? {β : Type} [Cached β] (bytes : ByteArray) : Option (Entity β) :=
  (Doc.decode Cached.ofDoc (.ofBytes bytes)).toOption

/-! ## Looking at a record -/

/-- What a record shows: bytes that are no text, the fields of an entity without its date, or a
    text. -/
inductive View where
  | bytes (value : ByteArray)
  | fields (members : List (Option String × Doc))
  | text (value : String)

/-- What a text shows: its members if it is an object with a date of creation, else itself. -/
def viewText (s : String) : View :=
  match Doc.read (.ofText s) with
  | (.object members, rest) =>
    let known := Doc.settledMembers [] members
    let isDate (m : Option String × Doc) : Bool := m.1 == some "created_at"
    if Doc.isFinished rest && (Doc.object members).isClean && known.any isDate then
      .fields (known.filter fun m => !isDate m)
    else .text s
  | _ => .text s

/-- What bytes show. -/
def view (bytes : ByteArray) : View :=
  match textOf? bytes with
  | none => .bytes bytes
  | some s => viewText s

end QueryCatalog.Cache
