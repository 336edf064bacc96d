/-
  Settings: how long cached records live, and which tables are reserved.
-/
import QueryCatalog.Document.Record

namespace QueryCatalog

/-- The settings of a catalog. -/
structure Settings where
  /-- The life of a cached record, in seconds. -/
  ttlSeconds : UInt64
  /-- Tables whose names start with this text are out of reach of aliases. -/
  reservedStart : String
deriving DecidableEq, Repr

namespace Settings

/-- The settings that hold where nothing else is said. -/
def standard : Settings := ⟨3600, "__"⟩

instance : Inhabited Settings := ⟨standard⟩

/-- The standard settings with another life of records, given in milliseconds. -/
def withTtl (milliseconds : Nat) : Settings :=
  ⟨UInt64.ofNat (milliseconds / 1000), standard.reservedStart⟩

/-- The life of a record, in milliseconds. -/
def ttl (s : Settings) : Nat := s.ttlSeconds.toNat * 1000

/-- Whether a table is reserved.  An empty start reserves nothing. -/
def isReserved (s : Settings) (table : String) : Bool :=
  !s.reservedStart.isEmpty && s.reservedStart.toList.isPrefixOf table.toList

/-- The settings that a document holds; absent ones are the standard ones. -/
def ofDoc (doc : Doc) : Decoded Settings :=
  doc.record (fieldsNamed ["cache_ttl_secs", "system_table_prefix"]) fun r =>
    Settings.mk <$> r.defaulted "cache_ttl_secs" standard.ttlSeconds (fun p => p.doc.asUInt64)
      <*> r.defaulted "system_table_prefix" standard.reservedStart (fun p => p.doc.asText)

end Settings

end QueryCatalog
