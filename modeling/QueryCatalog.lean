import QueryCatalog.AliasTarget
import QueryCatalog.Cache.Fetch
import QueryCatalog.Cache.Record
import QueryCatalog.Catalog.Basic
import QueryCatalog.Catalog.Request
import QueryCatalog.Catalog.Surroundings
import QueryCatalog.DateTime
import QueryCatalog.Document.Basic
import QueryCatalog.Document.Error
import QueryCatalog.Document.Reader
import QueryCatalog.Document.Record
import QueryCatalog.Document.Source
import QueryCatalog.Document.Written
import QueryCatalog.Entity
import QueryCatalog.Error
import QueryCatalog.IdSequence
import QueryCatalog.Input.Decode
import QueryCatalog.Input.Expr
import QueryCatalog.Input.Query
import QueryCatalog.Keyword
import QueryCatalog.Literal
import QueryCatalog.Lookup
import QueryCatalog.Number.Binary64
import QueryCatalog.Number.Shortest
import QueryCatalog.Proofs.AggregatePlacement
import QueryCatalog.Proofs.Alternatives
import QueryCatalog.Proofs.CacheFetch
import QueryCatalog.Proofs.CachedEntity
import QueryCatalog.Proofs.CompiledLists
import QueryCatalog.Proofs.Containment
import QueryCatalog.Proofs.DecodeLogic
import QueryCatalog.Proofs.DecodedLists
import QueryCatalog.Proofs.Decoding
import QueryCatalog.Proofs.DocumentSize
import QueryCatalog.Proofs.Expansion
import QueryCatalog.Proofs.FetchWalk
import QueryCatalog.Proofs.FlatRecord
import QueryCatalog.Proofs.History
import QueryCatalog.Proofs.IdHistory
import QueryCatalog.Proofs.InputForms
import QueryCatalog.Proofs.Journal
import QueryCatalog.Proofs.KeySpace
import QueryCatalog.Proofs.KeywordSpelling
import QueryCatalog.Proofs.LimitRecognition
import QueryCatalog.Proofs.LookupChecks
import QueryCatalog.Proofs.Noninterference
import QueryCatalog.Proofs.Numeral
import QueryCatalog.Proofs.OwnRecords
import QueryCatalog.Proofs.OwnerIsolation
import QueryCatalog.Proofs.PlacementChecks
import QueryCatalog.Proofs.Readability
import QueryCatalog.Proofs.RecordForms
import QueryCatalog.Proofs.ReferenceDimension
import QueryCatalog.Proofs.RenderedText
import QueryCatalog.Proofs.ReservedTables
import QueryCatalog.Proofs.ResolveWalk
import QueryCatalog.Proofs.Scalarization
import QueryCatalog.Proofs.Scan
import QueryCatalog.Proofs.SecondLook
import QueryCatalog.Proofs.Staleness
import QueryCatalog.Proofs.StatementBody
import QueryCatalog.Proofs.StatementShape
import QueryCatalog.Proofs.StoreHistory
import QueryCatalog.Proofs.StoreIntegrity
import QueryCatalog.Proofs.StoredTable
import QueryCatalog.Proofs.TargetChecks
import QueryCatalog.Proofs.TimedHistory
import QueryCatalog.Proofs.TopLevel
import QueryCatalog.Proofs.TrailingLimit
import QueryCatalog.Proofs.Transparency
import QueryCatalog.Proofs.TreeNodes
import QueryCatalog.Proofs.TreeReader
import QueryCatalog.Proofs.Violations
import QueryCatalog.Proofs.Warmth
import QueryCatalog.Resolve.Expr
import QueryCatalog.Resolve.Query
import QueryCatalog.Sample
import QueryCatalog.Schema
import QueryCatalog.Settings
import QueryCatalog.Sql.Expr
import QueryCatalog.Sql.Query
import QueryCatalog.Statement.Limit
import QueryCatalog.Store
import QueryCatalog.Text.CharacterClass
import QueryCatalog.Text.Pieces
import QueryCatalog.TimedMap
