/-
  Why a request fails, and the text of each cause.

  A foreign entity and a missing one are the same cause, so no text speaks of what another owner has.
-/
import QueryCatalog.Document.Error
import QueryCatalog.Keyword

namespace QueryCatalog

/-- The clauses of a query in which an expression can stand. -/
inductive Clause where
  | select | join | filter | groups | having | order
deriving DecidableEq, Repr, Inhabited

namespace Clause

/-- The words that introduce the clause. -/
def text : Clause → String
  | .select => "SELECT"
  | .join => "JOIN"
  | .filter => "WHERE"
  | .groups => "GROUP BY"
  | .having => "HAVING"
  | .order => "ORDER BY"

/-- Whether aggregate functions may stand in the clause. -/
def allowsAggregates : Clause → Bool
  | .select | .having | .order => true
  | .join | .filter | .groups => false

end Clause

/-- The services behind the catalog that can be out of reach. -/
inductive Service where
  | store | cacheReads | cacheWrites | schema
deriving DecidableEq, Repr, Inhabited

/-- The service as it stands in messages. -/
def Service.text : Service → String
  | .store => "store"
  | .cacheReads => "kv_get"
  | .cacheWrites => "kv_set"
  | .schema => "schema"

/-- Failures of the services behind the catalog. -/
inductive StoreError where
  | alreadyExists (kind : EntityKind) (name : String)
  | down (service : Service)
  | idsExhausted (kind : EntityKind)
deriving DecidableEq, Repr, Inhabited

/-- The text of a failure. -/
def StoreError.message : StoreError → String
  | .alreadyExists kind name => kind.text ++ " named '" ++ name ++ "' already exists"
  | .down service => "backing service unavailable: " ++ service.text ++ " down"
  | .idsExhausted kind => "backing service unavailable: " ++ kind.text ++ " id sequence exhausted"

/-- The causes of a failed request. -/
inductive Error where
  /-- The owner has no such entity. -/
  | notFound (kind : EntityKind) (lookup : Lookup)
  | unknownKeyword (keyword : UnknownKeyword)
  /-- A table inside an expression. -/
  | tableOperand (table : String)
  /-- A table alias inside an expression. -/
  | tableAliasOperand (name : String)
  /-- An alias that is no table as a source of rows. -/
  | plainAliasSource (name : String)
  /-- A star that is not the only argument of a count. -/
  | starArgument (function : SqlFunction)
  | misplacedAggregate (clause : Clause)
  /-- A stored query of other than one column as a single value. -/
  | scalarColumns (name : String) (columns : Int64)
  /-- A stored query limited to other than one row as a single value. -/
  | scalarRows (name : String) (rows : String)
  /-- A stored query of other than one column in a membership test. -/
  | memberColumns (name : String) (columns : Int64)
  | missingTable (table : String)
  | missingColumn (table column : String)
  | reservedTable (table : String)
  | invalidName (name : String)
  | undecodable (cause : DecodeError)
  | store (cause : StoreError)
  /-- A record would expire later than the clock can say. -/
  | expiryOverflow
deriving DecidableEq, Repr, Inhabited

namespace Error

/-- A column count in words. -/
def columnsText (columns : Int64) : String :=
  if columns < 0 then "all" else toString columns.toInt

/-- The text of a cause.  An undecodable document may have none, an overflow has none. -/
def message? : Error → Option String
  | .notFound kind lookup => some (kind.text ++ " with " ++ lookup.text ++ " does not exist")
  | .unknownKeyword k =>
    some ("value '" ++ k.used ++ "' is not allowed for " ++ k.category ++ "; allowed: " ++
      Text.joined ", " k.allowed)
  | .tableOperand table =>
    some ("wrong operand kind: table `" ++ table ++
      "` can only be an alias target, not part of an expression")
  | .tableAliasOperand name =>
    some ("wrong operand kind: alias '" ++ name ++
      "' points at a table and cannot be used inside an expression")
  | .plainAliasSource name =>
    some ("wrong operand kind: alias '" ++ name ++
      "' is not a table and cannot be used as a query source")
  | .starArgument function =>
    some ("wrong operand kind: `*` is only allowed as the single argument of COUNT, not in " ++
      Keyword.text function)
  | .misplacedAggregate clause =>
    some ("aggregate functions are not allowed in " ++ clause.text)
  | .scalarColumns name columns =>
    some ("query '" ++ name ++ "' cannot be used as a scalar: it returns " ++ columnsText columns ++
      " columns instead of one")
  | .scalarRows name rows =>
    some ("query '" ++ name ++ "' cannot be used as a scalar: it is limited to " ++ rows ++
      " rows instead of one")
  | .memberColumns name columns =>
    some ("query '" ++ name ++ "' returns " ++ toString columns.toInt ++
      " columns, IN requires exactly one")
  | .missingTable table => some ("alias target table `" ++ table ++ "` does not exist")
  | .missingColumn table column =>
    some ("alias target column `" ++ table ++ "`.`" ++ column ++ "` does not exist")
  | .reservedTable table =>
    some ("alias target table `" ++ table ++ "` belongs to the reserved system namespace")
  | .invalidName name => some ("invalid name '" ++ name ++ "'")
  | .undecodable cause => cause.message?.map ("invalid JSON: " ++ ·)
  | .store cause => some cause.message
  | .expiryOverflow => none

end Error

/-! ## What is seen of a result -/

section Results

variable {ε α β : Type} {x : Except ε α}

/-- A result that is seen is there. -/
theorem eq_ok_of_toOption {a : α} (h : x.toOption = some a) : x = .ok a := by
  cases x with
  | ok b => exact congrArg Except.ok (Option.some.inj h)
  | error e => cases h

/-- A failure that is seen is there, whatever is made of results. -/
theorem eq_error_of_map {f : α → β} {e : ε} (h : x.map f = .error e) : x = .error e := by
  cases x with
  | ok b => cases h
  | error e' => exact congrArg Except.error (Except.error.inj h)

end Results

end QueryCatalog
