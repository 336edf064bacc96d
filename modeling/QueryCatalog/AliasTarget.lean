/-
  The target of an alias: its text and its flags, checked against the schema.

  A bare table has to be visible, that is listed and not reserved.  Any other target is resolved first,
  and then each column that it touches has to belong to a visible table that has it; columns inside the
  aliases and stored queries that it uses are not looked at again.
-/
import QueryCatalog.Resolve.Query
import QueryCatalog.Schema
import QueryCatalog.Settings

namespace QueryCatalog

/-- The tables that aliases may point at: a schema, unless it is out of reach, without the reserved
    tables. -/
structure TableAccess where
  settings : Settings
  schema : Schema
  isDown : Bool
deriving DecidableEq, Repr, Inhabited

namespace TableAccess

/-- The schema, if it can be reached. -/
def reach (access : TableAccess) : Except Error Schema :=
  if access.isDown then .error (.store (.down .schema)) else .ok access.schema

/-- The names of the tables that are listed and not reserved. -/
def visibleTables (access : TableAccess) : Except Error (List String) := do
  let schema ← access.reach
  pure (schema.tableNames.filter fun table => !access.settings.isReserved table)

/-- Fails unless a table is visible.  A reserved one is refused before the schema is asked. -/
def checkTable (access : TableAccess) (table : String) : Except Error Unit := do
  if access.settings.isReserved table then throw (.reservedTable table)
  let visible ← access.visibleTables
  if visible.contains table then pure () else throw (.missingTable table)

/-- Fails unless a column belongs to a visible table. -/
def checkColumn (access : TableAccess) (table column : String) : Except Error Unit := do
  access.checkTable table
  let schema ← access.reach
  match schema.find? table with
  | none => throw (.missingTable table)
  | some definition =>
    if definition.hasColumn column then pure () else throw (.missingColumn table column)

/-- Checks columns in order. -/
def checkColumns (access : TableAccess) : List (String × String) → Except Error Unit
  | [] => pure ()
  | (table, column) :: rest => do
    access.checkColumn table column
    access.checkColumns rest

end TableAccess

namespace AliasTarget

variable {m : Type → Type} [Monad m] [MonadExceptOf Error m]

/-- The body of the alias that an owner requests. -/
def build (access : TableAccess) (look : Lookups m) (owner : Owner) (request : Input.AliasRequest) :
    m AliasBody :=
  match request.target with
  | .expr (.table table) => do
    Resolve.passing (access.checkTable table)
    pure ⟨owner, request.name, Text.quotedName table, true, false⟩
  | .expr value => do
    let resolved ← Resolve.expr look value
    Resolve.passing (access.checkColumns resolved.columns)
    pure ⟨owner, request.name, resolved.render, false, resolved.isAggregate⟩
  | .cond condition => do
    let resolved ← Resolve.cond look condition
    Resolve.passing (access.checkColumns resolved.columns)
    pure ⟨owner, request.name, resolved.render, false, resolved.isAggregate⟩

end AliasTarget

end QueryCatalog
