/-
  The schema: which tables there are and which columns they have.

  Tables and columns keep the order in which they were first named; naming one again replaces what is
  known of it, at its old place.  A table may also be listed without a definition.
-/

namespace QueryCatalog

/-- A table with its columns, each with its declared type. -/
structure TableDefinition where
  name : String
  columns : List (String × String)
deriving DecidableEq, Repr, Inhabited

namespace TableDefinition

/-- The columns with one of them named, at its old place if it was there. -/
def putColumn (columns : List (String × String)) (name type : String) : List (String × String) :=
  if columns.any fun c => c.1 == name then
    columns.map fun c => if c.1 == name then (name, type) else c
  else columns ++ [(name, type)]

/-- A table with columns named one after the other. -/
def ofColumns (name : String) (columns : List (String × String)) : TableDefinition :=
  ⟨name, columns.foldl (fun known c => putColumn known c.1 c.2) []⟩

/-- Whether the table has a column of that name. -/
def hasColumn (t : TableDefinition) (name : String) : Bool := t.columns.any fun c => c.1 == name

end TableDefinition

/-- Defined tables, and names of tables that are listed without a definition. -/
structure Schema where
  tables : List TableDefinition
  undefined : List String
deriving DecidableEq, Repr, Inhabited

namespace Schema

/-- A schema without tables. -/
def empty : Schema := ⟨[], []⟩

/-- The schema with a table defined, at its old place if it was there. -/
def define (s : Schema) (table : TableDefinition) : Schema :=
  if s.tables.any fun t => t.name == table.name then
    { s with tables := s.tables.map fun t => if t.name == table.name then table else t }
  else { s with tables := s.tables ++ [table] }

/-- A schema of tables defined one after the other. -/
def ofTables (tables : List TableDefinition) : Schema := tables.foldl define empty

/-- The schema with a table listed that has no definition. -/
def listUndefined (s : Schema) (name : String) : Schema :=
  { s with undefined := s.undefined ++ [name] }

/-- The schema without a table, and whether that was defined. -/
def drop (s : Schema) (name : String) : Bool × Schema :=
  if s.tables.any fun t => t.name == name then
    (true, { s with tables := s.tables.filter fun t => !(t.name == name) })
  else (false, s)

/-- The names of all tables, defined ones first. -/
def tableNames (s : Schema) : List String := s.tables.map TableDefinition.name ++ s.undefined

/-- The definition of a table. -/
def find? (s : Schema) (name : String) : Option TableDefinition :=
  s.tables.find? fun t => t.name == name

end Schema

end QueryCatalog
